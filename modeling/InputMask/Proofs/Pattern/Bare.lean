import InputMask.Analysis.StatedLength
import InputMask.Proofs.Pattern.Everywhere

/-!
# Bare trees

Some of what can be written in a pattern is redundant: a group that occurs once, a repetition
that says once, and whatever matches no text. A tree is bare without it, at every depth.

* `Sequence.bare` — the bare tree of a pattern.
* `Piece.IsBare`, `everywhere_bareOfAll` — nothing redundant is left in it.
* `Sequence.exists_of_statedLength?` — the length is stated in one of the pieces.
* `Sequence.statedLength?_eq_none` — a tree in which no condition states a length states none.
-/

namespace InputMask

/-- Whether an atom matches no text, wherever it stands. -/
def Atom.isZeroWidth : Atom → Bool
  | .anchor _ | .lookaround _ => true
  | _ => false

/-- A repetition, left out if it says once. -/
def Repetition.bare (times : Option Repetition) : Option Repetition :=
  if isOnce times then none else times

mutual

/-- A piece without redundant syntax: a group that occurs once is what stands in it, and what
matches no text is left out. -/
def Piece.bare : Piece → List Piece
  | ⟨.literal written meant, times⟩ => [⟨.literal written meant, Repetition.bare times⟩]
  | ⟨.charClass text, times⟩ => [⟨.charClass text, Repetition.bare times⟩]
  | ⟨.group body, times⟩ =>
    if Repetition.isOnce times then bareOfAll body else [⟨.group (bareOfAll body), times⟩]
  | ⟨.choice branches, times⟩ => [⟨.choice (bareOfAny branches), times⟩]
  | ⟨.anchor _, _⟩ => []
  | ⟨.lookaround _, _⟩ => []

/-- Pieces without redundant syntax. -/
def bareOfAll : List Piece → List Piece
  | [] => []
  | piece :: rest => piece.bare ++ bareOfAll rest

/-- Branches without redundant syntax. -/
def bareOfAny : List (List Piece) → List (List Piece)
  | [] => []
  | branch :: rest => bareOfAll branch :: bareOfAny rest

end

/-- A tree without redundant syntax. -/
def Sequence.bare (s : Sequence) : Sequence := bareOfAll s

/-- A piece is not redundant: it matches some text, and if it occurs once there is nothing around
it that says so, neither a repetition nor a group. -/
structure Piece.IsBare (p : Piece) : Prop where
  isZeroWidth_eq_false : p.atom.isZeroWidth = false
  times_eq_none : p.atom.isRepeatable = true → Repetition.isOnce p.times = true → p.times = none
  ne_group : Repetition.isOnce p.times = true → ∀ body, p.atom ≠ .group body

section

variable {P : Piece → Prop}

theorem everywhereInAll_append {front back : List Piece} (hfront : everywhereInAll P front)
    (hback : everywhereInAll P back) : everywhereInAll P (front ++ back) := by
  induction front with
  | nil => exact hback
  | cons piece front ih => exact ⟨hfront.1, ih hfront.2⟩

theorem Piece.Everywhere.self {p : Piece} (h : p.Everywhere P) : P p := by
  obtain ⟨atom, times⟩ := p
  exact h.1

theorem everywhere_of_mem {pieces : List Piece} (h : everywhereInAll P pieces) :
    ∀ piece ∈ pieces, piece.Everywhere P := by
  induction pieces with
  | nil => simp
  | cons piece pieces ih => exact List.forall_mem_cons.2 ⟨h.1, ih h.2⟩

theorem everywhereInAll_of_mem {branches : List (List Piece)} (h : everywhereInAny P branches) :
    ∀ branch ∈ branches, everywhereInAll P branch := by
  induction branches with
  | nil => simp
  | cons branch branches ih => exact List.forall_mem_cons.2 ⟨h.1, ih h.2⟩

end

theorem Repetition.bare_eq_none {times : Option Repetition} (h : isOnce (bare times) = true) :
    bare times = none := by
  unfold bare at h ⊢
  split
  · rfl
  · rename_i honce
    rw [if_neg honce] at h
    exact absurd h honce

mutual

theorem Piece.everywhere_bare : ∀ piece : Piece, everywhereInAll Piece.IsBare piece.bare
  | ⟨.literal _ _, times⟩ | ⟨.charClass _, times⟩ =>
    ⟨⟨⟨rfl, fun _ => Repetition.bare_eq_none, fun _ _ => nofun⟩, trivial⟩, trivial⟩
  | ⟨.group body, times⟩ => by
    rw [Piece.bare]
    split
    · exact everywhere_bareOfAll body
    · rename_i honce
      exact ⟨⟨⟨rfl, fun _ h => absurd h honce, fun h => absurd h honce⟩,
        everywhere_bareOfAll body⟩, trivial⟩
  | ⟨.choice branches, times⟩ =>
    ⟨⟨⟨rfl, nofun, fun _ _ => nofun⟩, everywhere_bareOfAny branches⟩, trivial⟩
  | ⟨.anchor _, _⟩ | ⟨.lookaround _, _⟩ => trivial

/-- **Nothing redundant is left in a bare tree**, at any depth. -/
theorem everywhere_bareOfAll : ∀ pieces : List Piece,
    everywhereInAll Piece.IsBare (bareOfAll pieces)
  | [] => trivial
  | piece :: rest => everywhereInAll_append piece.everywhere_bare (everywhere_bareOfAll rest)

theorem everywhere_bareOfAny : ∀ branches : List (List Piece),
    everywhereInAny Piece.IsBare (bareOfAny branches)
  | [] => trivial
  | branch :: rest => ⟨everywhere_bareOfAll branch, everywhere_bareOfAny rest⟩

end

/-- The condition that states the length is one of the pieces, of the pattern or of a branch. -/
theorem Sequence.exists_of_statedLength? {P : Piece → Prop} {s : Sequence} (h : s.Everywhere P)
    {l : Lookaround} (hl : s.statedLength? = some l) :
    ∃ piece, P piece ∧ piece.statedLength? = some l := by
  have hpieces : ∀ {pieces : List Piece}, everywhereInAll P pieces →
      pieces.findSome? Piece.statedLength? = some l →
      ∃ piece, P piece ∧ piece.statedLength? = some l := by
    intro pieces hall hfind
    obtain ⟨piece, hpiece, hstated⟩ := List.exists_of_findSome?_eq_some hfind
    exact ⟨piece, (everywhere_of_mem hall piece hpiece).self, hstated⟩
  rcases Option.or_eq_some_iff.1 hl with hfind | ⟨-, hfind⟩
  · exact hpieces h hfind
  · obtain ⟨piece, hpiece, hstated⟩ := List.exists_of_findSome?_eq_some hfind
    have hinside := everywhere_of_mem h piece hpiece
    unfold Piece.statedInBranch? at hstated
    split at hstated
    · obtain ⟨branch, hbranch, hfind⟩ := List.exists_of_findSome?_eq_some hstated
      exact hpieces (everywhereInAll_of_mem hinside.2 branch hbranch) hfind
    · cases hstated

/-- No length is stated where no piece is a condition that states one, however deep. -/
theorem Sequence.statedLength?_eq_none {P : Piece → Prop}
    (hP : ∀ piece, P piece → piece.statedLength? = none) {s : Sequence} (h : s.Everywhere P) :
    s.statedLength? = none := by
  rw [Option.eq_none_iff_forall_ne_some]
  intro l hl
  obtain ⟨piece, hpiece, hstated⟩ := exists_of_statedLength? h hl
  rw [hP piece hpiece] at hstated
  cases hstated

theorem Piece.IsBare.statedLength?_eq_none {p : Piece} (h : p.IsBare) : p.statedLength? = none := by
  unfold Piece.statedLength?
  split
  · exact absurd h.isZeroWidth_eq_false nofun
  · rfl

end InputMask
