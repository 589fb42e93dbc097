import Mathlib
import InputMask.Pattern.Basic

/-!
# The texts that a pattern matches

The structural matches of a pattern, as a language over characters: a literal matches
what is meant by it, a class any one character, anchors and conditions only the empty
text; pieces that follow one another match what their matches make when put together,
alternatives what one branch matches, and a repeated item so many matches in a row as
its repetition allows.

* `Sequence.language` — what a sequence matches.
* `Sequence.languageOver` — the same, where a class takes only some of the characters.
-/

namespace InputMask

/-- Whether something may occur `k` times. -/
def Repetition.Allows (r : Repetition) (k : Nat) : Prop :=
  r.least ≤ k ∧ ∀ m, r.most = .upTo m → k ≤ m

/-- The fewest occurrences are allowed, if the bounds are in order. -/
theorem Repetition.allows_least {r : Repetition} (h : ∀ m, r.most = .upTo m → r.least ≤ m) :
    r.Allows r.least :=
  ⟨Nat.le_refl _, h⟩

/-- The most occurrences are allowed, if there is an upper bound and the bounds are in order. -/
theorem Repetition.allows_most {r : Repetition} {m : Nat} (hmost : r.most = .upTo m)
    (h : r.least ≤ m) : r.Allows m := by
  refine ⟨h, ?_⟩
  intro k hk
  rw [hmost] at hk
  exact (Extent.upTo.inj hk).le

/-- The matches in a row of something that matches `base` and occurs as often as `times` says;
once, if nothing is written. -/
def Repetition.language (times : Option Repetition) (base : Language Char) : Language Char :=
  match times with
  | none => base
  | some r => {w | ∃ k, r.Allows k ∧ w ∈ base ^ k}

mutual

/-- What an atom matches, where a class takes the characters that are `taken`. -/
def Atom.language (taken : Char → Prop) : Atom → Language Char
  | .literal _ meant => {meant}
  | .charClass _ => {w | ∃ c, taken c ∧ w = [c]}
  | .group body => languageOfAll taken body
  | .choice branches => languageOfAny taken branches
  | .anchor _ => 1
  | .lookaround _ => 1

/-- What a piece matches, its repetition included. -/
def Piece.language (taken : Char → Prop) : Piece → Language Char
  | ⟨atom, times⟩ => Repetition.language times (atom.language taken)

/-- What pieces match one after another. -/
def languageOfAll (taken : Char → Prop) : List Piece → Language Char
  | [] => 1
  | piece :: rest => piece.language taken * languageOfAll taken rest

/-- What one of several branches matches. -/
def languageOfAny (taken : Char → Prop) : List (List Piece) → Language Char
  | [] => 0
  | branch :: rest => languageOfAll taken branch + languageOfAny taken rest

end

/-- What a sequence matches, where a class takes only some of the characters. -/
def Sequence.languageOver (s : Sequence) (taken : Char → Prop) : Language Char :=
  languageOfAll taken s

/-- What a sequence matches by its structure. -/
def Sequence.language (s : Sequence) : Language Char :=
  s.languageOver fun _ => True

/-- A match of alternatives is a match of one of them. -/
theorem mem_languageOfAny {taken : Char → Prop} {branches : List (List Piece)} {w : Text} :
    w ∈ languageOfAny taken branches ↔ ∃ branch ∈ branches, w ∈ languageOfAll taken branch := by
  induction branches with
  | nil =>
    rw [languageOfAny]
    simp
  | cons branch rest ih =>
    rw [languageOfAny, Language.mem_add, ih]
    simp

/-- Classes in a row match so many characters that are taken. -/
theorem mem_pow_class {taken : Char → Prop} {text : Text} {k : Nat} {w : Text} :
    w ∈ Atom.language taken (.charClass text) ^ k ↔ w.length = k ∧ ∀ c ∈ w, taken c := by
  induction k generalizing w with
  | zero =>
    rw [pow_zero, Language.mem_one]
    constructor
    · rintro rfl
      simp
    · rintro ⟨h, -⟩
      exact List.eq_nil_of_length_eq_zero h
  | succ k ih =>
    rw [pow_succ', Language.mem_mul]
    constructor
    · rintro ⟨_, ⟨c, hc, rfl⟩, v, hv, rfl⟩
      obtain ⟨hlen, hv⟩ := ih.1 hv
      simpa [hlen] using ⟨hc, hv⟩
    · rintro ⟨hlen, hw⟩
      obtain ⟨c, v, rfl⟩ := List.exists_cons_of_length_eq_add_one hlen
      have hv : v.length = k ∧ ∀ d ∈ v, taken d :=
        ⟨by simpa using hlen, fun d hd => hw d (List.mem_cons_of_mem c hd)⟩
      exact ⟨[c], ⟨c, hw c (List.mem_cons_self ..), rfl⟩, v, ih.2 hv, rfl⟩

end InputMask
