import InputMask.Analysis.Opening
import InputMask.Proofs.Pattern.FixedText
import InputMask.Proofs.Text.SharedStart

/-!
# Every match begins with the opening

The opening that is read off the structure of a pattern is sound: every match begins with it,
and where it is complete it is the only match. The second is what lets the walk go on behind
a piece, so the two are carried through the pattern together.

* `Opening.Begins` — what an opening says of a language, with one lemma for what follows one
  another, `Begins.followedBy`, and one for alternatives, `Begins.shared`.
* `openingOfAll_begins` — the opening of sound pieces says this of what they match.
* `Sequence.opening_begins_match` — the same for every pattern that is read.
-/

namespace InputMask

namespace Opening

/-- Every text of the language begins with the opening, and if this is complete, it is the only
one. -/
structure Begins (o : Opening) (l : Language Char) : Prop where
  starts : ∀ w ∈ l, o.text <+: w
  eq_of_complete : o.complete = true → l = {o.text}

/-- Where the opening ends nothing is said. -/
theorem Begins.undecided (l : Language Char) : Begins ⟨[], false⟩ l where
  starts _ _ := List.nil_prefix
  eq_of_complete h := by cases h

/-- A single text is its own opening. -/
theorem Begins.singleton (text : Text) : Begins ⟨text, true⟩ {text} where
  starts := by
    rintro w rfl
    exact List.prefix_rfl
  eq_of_complete _ := rfl

/-- What follows a complete opening extends it. -/
theorem Begins.followedBy {o next : Opening} {l k : Language Char} (ho : o.Begins l)
    (hnext : next.Begins k) : (o.followedBy next).Begins (l * k) := by
  cases hc : o.complete with
  | true =>
    rw [Opening.followedBy_of_complete hc, ho.eq_of_complete hc]
    constructor
    · intro w hw
      obtain ⟨u, rfl, v, hv, rfl⟩ := Language.mem_mul.1 hw
      exact (List.prefix_append_right_inj o.text).2 (hnext.starts v hv)
    · intro hcomplete
      rw [hnext.eq_of_complete hcomplete, Text.singleton_mul]
  | false =>
    rw [Opening.followedBy_of_not_complete hc]
    constructor
    · intro w hw
      obtain ⟨u, hu, v, -, rfl⟩ := Language.mem_mul.1 hw
      exact (ho.starts u hu).trans (List.prefix_append u v)
    · intro hcomplete
      cases hc.symm.trans hcomplete

end Opening

/-! ## Alternatives -/

theorem openingsOf_eq_map (branches : List (List Piece)) :
    openingsOf branches = branches.map openingOfAll := by
  induction branches with
  | nil => rfl
  | cons branch rest ih => rw [openingsOf, ih, List.map_cons]

/-- Every match of alternatives begins with what the openings of all of them share. -/
theorem Opening.Begins.shared {taken : Char → Prop} {branches : List (List Piece)}
    (hne : branches ≠ [])
    (h : ∀ branch ∈ branches, (openingOfAll branch).Begins (languageOfAll taken branch)) :
    (Opening.shared (openingsOf branches)).Begins (languageOfAny taken branches) := by
  rw [openingsOf_eq_map]
  constructor
  · intro w hw
    obtain ⟨branch, hbranch, hw⟩ := mem_languageOfAny.1 hw
    have hmem : (openingOfAll branch).text ∈ (branches.map openingOfAll).map (·.text) := by
      rw [List.map_map]
      exact List.mem_map_of_mem hbranch
    exact (Text.sharedStart_prefix hmem).trans ((h branch hbranch).starts w hw)
  · intro hcomplete
    have heach : ∀ branch ∈ branches, languageOfAll taken branch =
        {(Opening.shared (branches.map openingOfAll)).text} := by
      intro branch hbranch
      have hall := List.all_eq_true.1 hcomplete _ (List.mem_map_of_mem hbranch)
      obtain ⟨hc, htext⟩ := Bool.and_eq_true_iff.1 hall
      rw [(h branch hbranch).eq_of_complete hc]
      exact congrArg _ (eq_of_beq htext)
    ext w
    rw [mem_languageOfAny]
    constructor
    · rintro ⟨branch, hbranch, hw⟩
      rwa [heach branch hbranch] at hw
    · intro hw
      obtain ⟨branch, hbranch⟩ := List.exists_mem_of_ne_nil branches hne
      exact ⟨branch, hbranch, by rwa [heach branch hbranch]⟩

/-! ## Over the whole of a pattern -/

section

variable {taken : Char → Prop}

mutual

/-- The opening of an atom says of what it matches what it should. -/
theorem Atom.opening_begins : ∀ atom : Atom, atom.Everywhere Piece.Sound →
    (∀ branches, atom = .choice branches → branches ≠ []) →
    atom.opening.Begins (atom.language taken)
  | .literal _ meant, _, _ => .singleton meant
  | .charClass _, _, _ => .undecided _
  | .group body, h, _ => openingOfAll_begins body h
  | .choice branches, h, hne => .shared (hne branches rfl) (openingsOf_begin branches h)
  | .anchor _, _, _ => .singleton []
  | .lookaround _, _, _ => .singleton []

/-- Only a piece that occurs exactly once has an opening of its own. -/
theorem Piece.opening_begins : ∀ piece : Piece, piece.Everywhere Piece.Sound →
    piece.opening.Begins (piece.language taken)
  | ⟨atom, times⟩, h => by
    rw [Piece.opening]
    by_cases hvaries : (atom.isRepeatable && !Repetition.isOnce times) = true
    · rw [if_pos hvaries]
      exact .undecided _
    · have honce : Repetition.isOnce times = true := by
        cases hrep : atom.isRepeatable with
        | true => simpa [hrep] using hvaries
        | false =>
          obtain rfl : times = none := h.1.times_eq_none hrep
          rfl
      rw [if_neg hvaries, Piece.language, Repetition.language_of_isOnce honce]
      exact Atom.opening_begins atom h.2 h.1.branches_ne_nil

/-- The opening of sound pieces says of what they match what it should. -/
theorem openingOfAll_begins : ∀ pieces : List Piece, everywhereInAll Piece.Sound pieces →
    (openingOfAll pieces).Begins (languageOfAll taken pieces)
  | [], _ => .singleton []
  | piece :: rest, h => (Piece.opening_begins piece h.1).followedBy (openingOfAll_begins rest h.2)

theorem openingsOf_begin : ∀ branches : List (List Piece), everywhereInAny Piece.Sound branches →
    ∀ branch ∈ branches, (openingOfAll branch).Begins (languageOfAll taken branch)
  | [], _ => by
    intro branch hbranch
    cases hbranch
  | first :: rest, h => by
    intro branch hbranch
    rcases List.mem_cons.1 hbranch with hfirst | hbranch
    · rw [hfirst]
      exact openingOfAll_begins first h.1
    · exact openingsOf_begin rest h.2 branch hbranch

end

end

/-- **Every match begins with the opening**, and an opening that is complete is the only match. -/
theorem Sequence.opening_begins_match {text : Text} {depth : Nat} {s : Sequence}
    (h : Sequence.read text depth = .ok s) :
    (∀ w ∈ s.language, s.opening.text <+: w) ∧
    (s.opening.complete = true → ∀ w, w ∈ s.language ↔ w = s.opening.text) := by
  have hbegins : s.opening.Begins s.language := openingOfAll_begins s (Sequence.sound_of_read h)
  constructor
  · exact hbegins.starts
  · intro hcomplete w
    rw [hbegins.eq_of_complete hcomplete]
    rfl

/-- Branches that are grouped differently and are the same text all the same. -/
theorem Sequence.opening_begins_match_same_branches :
    ∃ s, Sequence.read "x(ab|(a)b)".toList 64 = .ok s ∧ s.opening = ⟨"xab".toList, true⟩ ∧
      (∀ w ∈ s.language, "xab".toList <+: w) ∧ ∀ w, w ∈ s.language ↔ w = "xab".toList := by
  have h : Sequence.read "x(ab|(a)b)".toList 64 =
      .ok [⟨.plain ['x'], none⟩, ⟨.group [⟨.choice [[⟨.plain ['a'], none⟩, ⟨.plain ['b'], none⟩],
        [⟨.group [⟨.plain ['a'], none⟩], none⟩, ⟨.plain ['b'], none⟩]], none⟩], none⟩] := by cbv
  obtain ⟨hstarts, honly⟩ := Sequence.opening_begins_match h
  exact ⟨_, h, by decide, hstarts, honly (by decide)⟩

end InputMask
