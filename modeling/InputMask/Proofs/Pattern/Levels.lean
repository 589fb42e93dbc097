import InputMask.Proofs.Pattern.RoundTrip

/-!
# The limit on nesting

The limit on how deep groups may stand inside one another takes no part in what is read. Every
text, malformed or not, has branches that are read from it without a limit; and with a limit the
same branches are read, or none at all where a group in them stands too deep.

* `Sequence.Reads` — the branches of a text, read without a limit. `exists_reads`: every text
  has some.
* `Sequence.Reads.readBranches?_eq` — what is read with a limit, by how deep the groups are.
* `Sequence.read_eq_by_depth` — so a text has one tree, and the limit decides only whether it
  is given.
-/

namespace InputMask

theorem Atom.depth_of_isLeaf {a : Atom} (h : a.isLeaf = true) : a.depth = 0 := by
  cases a <;> first | rfl | cases h

namespace Sequence

/-! ## Reading without a limit -/

/-- The branches of a text, however deep groups stand inside one another in it. -/
inductive Reads : Text → List Sequence → Prop
  | nil : Reads [] [[]]
  | bar {rest : Text} {branches : List Sequence} (hrest : Reads rest branches) :
    Reads ('|' :: rest) ([] :: branches)
  | atom {c : Char} {text rest : Text} {a : Atom} {times : Option Repetition}
    {branches : List Sequence} (hc : c ≠ '|')
    (hlexeme : Lexeme.read c text = ⟨.atom a, times, rest⟩) (hrest : Reads rest branches) :
    Reads (c :: text) (prepend ⟨a, times⟩ branches)
  | group {c : Char} {text body rest : Text} {times : Option Repetition}
    {inner branches : List Sequence} (hc : c ≠ '|')
    (hlexeme : Lexeme.read c text = ⟨.group body, times, rest⟩) (hbody : Reads body inner)
    (hrest : Reads rest branches) :
    Reads (c :: text) (prepend ⟨.group (ofBranches inner), times⟩ branches)

/-- Every text has branches. What a lexeme leaves over, and the body of a group, are shorter than
the text that it is read from. -/
theorem exists_reads (text : Text) : ∃ branches, Reads text branches := by
  match text with
  | [] => exact ⟨_, .nil⟩
  | c :: text =>
    have hrest : (Lexeme.read c text).rest.length ≤ text.length := Lexeme.length_read c text
    obtain ⟨branches, hbranches⟩ := exists_reads (Lexeme.read c text).rest
    by_cases hc : c = '|'
    · subst hc
      obtain ⟨others, hothers⟩ := exists_reads text
      exact ⟨_, .bar hothers⟩
    · cases helement : (Lexeme.read c text).element with
      | atom a => exact ⟨_, .atom hc (by rw [← helement]) hbranches⟩
      | group body =>
        have hbody : body.length ≤ text.length := Lexeme.length_of_read_group helement
        obtain ⟨inner, hinner⟩ := exists_reads body
        exact ⟨_, .group hc (by rw [← helement]) hinner hbranches⟩
termination_by text.length
decreasing_by
  all_goals (simp only [List.length_cons]; omega)

/-! ## How deep groups stand -/

theorem depth_ofBranches (branches : List Sequence) :
    (ofBranches branches).depth = depthOfAny branches := by
  match branches with
  | [] => exact depth_choice []
  | [branch] => simp [ofBranches, depthOfAny, depth]
  | first :: second :: rest => exact depth_choice (first :: second :: rest)

theorem depthOfAny_prepend (piece : Piece) (branches : List Sequence) :
    depthOfAny (prepend piece branches) = max piece.depth (depthOfAny branches) := by
  cases branches with
  | nil => simp [prepend, depthOfAny, depthOfAll]
  | cons branch rest => simp [prepend, depthOfAny, depthOfAll, Nat.max_assoc]

/-! ## What the limit decides -/

section

variable {c : Char} {text body rest : Text} {times : Option Repetition}

theorem readBranches?_group_zero (hc : c ≠ '|')
    (h : Lexeme.read c text = ⟨.group body, times, rest⟩) :
    readBranches? 0 (c :: text) = none := by
  rw [readBranches?]
  · split
    · rename_i hb
      rw [h] at hb
      cases hb
    · rfl
  · exact hc

/-- **The limit decides whether branches are read, and not which.**  The induction is on how they
are read without a limit; only the body of a group is read with one level less. -/
theorem Reads.readBranches?_eq {branches : List Sequence} (h : Reads text branches) :
    ∀ levels, readBranches? levels text =
      if depthOfAny branches ≤ levels then some branches else none := by
  induction h with
  | nil =>
    intro levels
    simp [readBranches?, depthOfAny, depthOfAll]
  | @bar rest branches _ ih =>
    intro levels
    have hdepth : depthOfAny ([] :: branches) = depthOfAny branches := by
      simp [depthOfAny, depthOfAll]
    rw [readBranches?, ih, hdepth]
    split <;> rfl
  | @atom c text rest a times branches hc hlexeme _ ih =>
    intro levels
    have hread : (Element.read c text).1 = .atom a := by
      rw [← Lexeme.element_read, hlexeme]
    have hleaf : a.depth = 0 := Atom.depth_of_isLeaf (Element.isLeaf_of_read hread)
    rw [readBranches?_atom hc hlexeme, ih, depthOfAny_prepend, Piece.depth, hleaf, Nat.zero_max]
    split <;> rfl
  | @group c text body rest times inner branches hc hlexeme _ _ ihBody ih =>
    intro levels
    have hdepth : depthOfAny (prepend ⟨.group (ofBranches inner), times⟩ branches) =
        max (depthOfAny inner + 1) (depthOfAny branches) := by
      rw [depthOfAny_prepend, ← depth_ofBranches inner]
      rfl
    rw [hdepth]
    cases levels with
    | zero =>
      rw [readBranches?_group_zero hc hlexeme, if_neg (by omega)]
    | succ levels =>
      rw [readBranches?_group_succ hc hlexeme, ihBody, ih]
      by_cases hinner : depthOfAny inner ≤ levels
      · by_cases hbranches : depthOfAny branches ≤ levels + 1
        · rw [if_pos hinner, if_pos hbranches, if_pos (by omega)]
          rfl
        · rw [if_pos hinner, if_neg hbranches, if_neg (by omega)]
          rfl
      · rw [if_neg hinner, Option.bind_none, if_neg (by omega)]

end

/-- What is read with a limit is read without one. -/
theorem exists_reads_of_read {text : Text} {limit : Nat} {s : Sequence}
    (h : Sequence.read text limit = .ok s) :
    ∃ branches, Reads text branches ∧ ofBranches branches = s := by
  obtain ⟨branches, hreads⟩ := exists_reads text
  refine ⟨branches, hreads, ?_⟩
  rw [read, hreads.readBranches?_eq] at h
  by_cases hdepth : depthOfAny branches ≤ limit
  · rw [if_pos hdepth] at h
    cases h
    rfl
  · rw [if_neg hdepth] at h
    cases h

/-- **The limit on nesting only gates.**  Every text, however malformed, has one tree: it is what
is read at every limit that its groups keep to, and at every other limit the text is refused
with that limit. -/
theorem read_eq_by_depth (text : Text) : ∃ s : Sequence, ∀ limit,
    Sequence.read text limit = if s.depth ≤ limit then .ok s else .error (.tooDeep limit) := by
  obtain ⟨branches, hreads⟩ := exists_reads text
  refine ⟨ofBranches branches, fun limit => ?_⟩
  rw [read, hreads.readBranches?_eq, depth_ofBranches]
  by_cases hdepth : depthOfAny branches ≤ limit
  · rw [if_pos hdepth, if_pos hdepth]
  · rw [if_neg hdepth, if_neg hdepth]

end Sequence

end InputMask
