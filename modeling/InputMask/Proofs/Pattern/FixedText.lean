import InputMask.Proofs.Layout.Width

/-!
# Fixed text is the only match

What can only be one text matches this text and nothing else. It takes two facts about
languages, that a single text after a single text, and a single text so many times in a row,
is a single text again, and one about repetitions: something that occurs a fixed number of
times matches so many matches in a row.

* `Text.singleton_mul`, `Text.singleton_pow` — single texts put together.
* `Repetition.language_of_count?` — what occurs a fixed number of times.
* `languageOfAll_of_fixedText` — the fixed text of pieces is their only match.
* `bytes_le_of_fixedText`, `fixedTextOfAll_of_le` — how much text stands in front of it.
-/

namespace InputMask

/-! ## Single texts -/

/-- One text after another is the only text that is put together from them. -/
theorem Text.singleton_mul (text other : Text) :
    ({text} : Language Char) * {other} = {text ++ other} := by
  ext w
  rw [Language.mem_mul]
  constructor
  · rintro ⟨u, rfl, v, rfl, rfl⟩
    rfl
  · rintro rfl
    exact ⟨text, rfl, other, rfl, rfl⟩

/-- A text so many times in a row is the only text that is put together from it. -/
theorem Text.singleton_pow (text : Text) (n : Nat) :
    ({text} : Language Char) ^ n = {text.copies n} := by
  rw [copies_eq_flatten]
  induction n with
  | zero =>
    rw [pow_zero]
    rfl
  | succ n ih => rw [pow_succ', ih, singleton_mul, List.replicate_succ, List.flatten_cons]

theorem Text.eq_copies_of_repeated {n : Nat} {text whole : Text}
    (h : text.repeated n = .ok whole) : whole = text.copies n := by
  unfold Text.repeated at h
  split at h
  · exact (Except.ok.inj h).symm
  · cases h

/-! ## Repetitions -/

namespace Repetition

/-- What occurs a fixed number of times matches so many matches in a row. -/
theorem language_of_count? {times : Option Repetition} {n : Nat} (h : count? times = some n)
    (base : Language Char) : language times base = base ^ n := by
  cases times with
  | none =>
    obtain rfl : 1 = n := Option.some.inj h
    rw [pow_one]
    rfl
  | some r =>
    obtain ⟨hmost, rfl⟩ : r.most = .upTo r.least ∧ r.least = n := by
      simpa [count?, fixedCount?] using h
    ext w
    constructor
    · rintro ⟨k, ⟨hleast, hle⟩, hw⟩
      rwa [Nat.le_antisymm (hle _ hmost) hleast] at hw
    · intro hw
      exact ⟨r.least, allows_most hmost (Nat.le_refl _), hw⟩

theorem count?_of_isOnce {times : Option Repetition} (h : isOnce times = true) :
    count? times = some 1 := by
  cases times with
  | none => rfl
  | some r => simpa [isOnce, count?] using h

/-- What occurs once matches the same as without a repetition. -/
theorem language_of_isOnce {times : Option Repetition} (h : isOnce times = true)
    (base : Language Char) : language times base = base := by
  rw [language_of_count? (count?_of_isOnce h), pow_one]

/-- What occurs at most once can occur once, as long as its bounds are in order. -/
theorem mem_language_of_isAtMostOnce {times : Option Repetition} (h : isAtMostOnce times = true)
    (hordered : ∀ r m, times = some r → r.most = .upTo m → r.least ≤ m)
    {base : Language Char} {w : Text} (hw : w ∈ base) : w ∈ language times base := by
  cases times with
  | none => exact hw
  | some r =>
    have hmost : r.most = .upTo 1 := by simpa [isAtMostOnce] using h
    exact ⟨1, allows_most hmost (hordered r 1 rfl hmost), by rwa [pow_one]⟩

end Repetition

/-! ## Fixed text -/

section

variable {taken : Char → Prop}

mutual

theorem Atom.language_of_fixedText : ∀ (atom : Atom) (text : Text),
    atom.fixedText = .ok (some text) → atom.language taken = {text}
  | .literal _ meant, text, h => by
    rw [Atom.fixedText] at h
    cases h
    rfl
  | .charClass _, text, h => by
    rw [Atom.fixedText] at h
    cases h
  | .group body, text, h => by
    rw [Atom.fixedText] at h
    exact languageOfAll_of_fixedText body 0 text h
  | .choice _, text, h => by
    rw [Atom.fixedText] at h
    cases h
  | .anchor _, text, h => by
    rw [Atom.fixedText] at h
    cases h
    rfl
  | .lookaround _, text, h => by
    rw [Atom.fixedText] at h
    cases h
    rfl

theorem Piece.language_of_fixedText : ∀ (piece : Piece) (text : Text),
    piece.fixedText = .ok (some text) → piece.language taken = {text}
  | ⟨atom, times⟩, whole, h => by
    obtain ⟨n, text, hn, htext, hwhole⟩ := Piece.fixedText_eq_some h
    have hatom : atom.language taken = {text} := Atom.language_of_fixedText atom text htext
    rw [Piece.language, Repetition.language_of_count? hn, hatom, Text.singleton_pow,
      Text.eq_copies_of_repeated hwhole]

/-- **Fixed text is the only match** of the pieces that it is read off. -/
theorem languageOfAll_of_fixedText : ∀ (pieces : List Piece) (used : Nat) (text : Text),
    fixedTextOfAll used pieces = .ok (some text) → languageOfAll taken pieces = {text}
  | [], _, text, h => by
    rw [fixedTextOfAll] at h
    cases h
    rfl
  | piece :: rest, used, text, h => by
    obtain ⟨front, back, hfront, -, hback, rfl⟩ := fixedTextOfAll_cons_eq_some h
    rw [languageOfAll, Piece.language_of_fixedText piece front hfront,
      languageOfAll_of_fixedText rest _ back hback, Text.singleton_mul]

end

end

/-! ## Behind other text -/

/-- The one text of pieces fits behind what is in front of it. -/
theorem bytes_le_of_fixedText : ∀ (pieces : List Piece) {used : Nat} {text : Text},
    used ≤ Text.capacity → fixedTextOfAll used pieces = .ok (some text) →
      used + text.bytes ≤ Text.capacity
  | [], _, _, hused, h => by
    obtain rfl := Option.some.inj (Except.ok.inj h)
    exact hused
  | piece :: rest, used, text, _, h => by
    obtain ⟨front, back, -, hroom, hback, rfl⟩ := fixedTextOfAll_cons_eq_some h
    rw [Text.bytes_append, ← Nat.add_assoc]
    exact bytes_le_of_fixedText rest hroom hback

/-- What is found of pieces behind some text is found of them behind less as well. -/
theorem fixedTextOfAll_of_le : ∀ (pieces : List Piece) {used less : Nat} {found : Option Text},
    less ≤ used → fixedTextOfAll used pieces = .ok found → fixedTextOfAll less pieces = .ok found
  | [], _, _, _, _, h => h
  | piece :: rest, used, less, found, hle, h => by
    rw [fixedTextOfAll] at h ⊢
    obtain ⟨first, hfirst, h⟩ := TextError.bind_eq_ok.1 h
    refine TextError.bind_eq_ok.2 ⟨first, hfirst, ?_⟩
    cases first with
    | none => exact h
    | some front =>
      obtain ⟨put, hput, hrest⟩ := TextError.bind_eq_ok.1 h
      obtain ⟨hroom, rfl⟩ := Text.behind_eq_ok.1 hput
      obtain ⟨others, hothers, hwhole⟩ := TextError.bind_eq_ok.1 hrest
      refine TextError.bind_eq_ok.2 ⟨put, Text.behind_eq_ok.2 ⟨by omega, rfl⟩, ?_⟩
      exact TextError.bind_eq_ok.2
        ⟨others, fixedTextOfAll_of_le rest (Nat.add_le_add_right hle _) hothers, hwhole⟩

end InputMask
