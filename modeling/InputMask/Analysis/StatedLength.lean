import InputMask.Pattern.Basic

/-!
# Stated lengths

A pattern can state the length of the whole text in a condition such as
`(?=^.{2,5}$)`. It is looked for among the pieces of the pattern, and if none of them
states a length, among the pieces of the branches that the pattern consists of.
-/

namespace InputMask

namespace Piece

/-- The condition that a piece is, if it states a length. -/
def statedLength? : Piece → Option Lookaround
  | ⟨.lookaround l, _⟩ => if l.statesLength then some l else none
  | _ => none

/-- The first condition directly in a branch of a piece that states a length. -/
def statedInBranch? : Piece → Option Lookaround
  | ⟨.choice branches, _⟩ => branches.findSome? (List.findSome? statedLength?)
  | _ => none

end Piece

/-- The condition that states the length of a pattern. -/
def Sequence.statedLength? (s : Sequence) : Option Lookaround :=
  (s.findSome? Piece.statedLength?).or (s.findSome? Piece.statedInBranch?)

end InputMask
