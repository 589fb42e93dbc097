import InputMask.Pattern.Lexeme

/-!
# Reading patterns

`Sequence.read` makes the tree of a pattern. The only thing it can refuse is a text
whose groups stand deeper inside one another than the given limit.
-/

namespace InputMask

/-- Why a pattern is refused. -/
inductive Refusal where
  /-- Groups stand inside one another more than `limit` deep. -/
  | tooDeep (limit : Nat)
deriving DecidableEq, Repr

/-- The words in which a refusal is reported. -/
def Refusal.message : Refusal → String
  | .tooDeep limit =>
    "Pattern nests groups deeper than " ++ String.ofList (Count.numeral limit) ++ " levels"

namespace Sequence

/-- Puts a piece in front of the first branch. -/
def prepend (piece : Piece) : List Sequence → List Sequence
  | [] => [[piece]]
  | branch :: branches => (piece :: branch) :: branches

/-- The branches of a text, if no group in it stands more than `levels` deep. -/
def readBranches? (levels : Nat) (text : Text) : Option (List Sequence) :=
  match text with
  | [] => some [[]]
  | '|' :: rest => (readBranches? levels rest).map ([] :: ·)
  | c :: rest =>
    let lexeme := Lexeme.read c rest
    match _h : lexeme.element with
    | .atom a => (readBranches? levels lexeme.rest).map (prepend ⟨a, lexeme.times⟩)
    | .group body =>
      match levels with
      | 0 => none
      | inner + 1 =>
        match readBranches? inner body with
        | none => none
        | some branches =>
          (readBranches? (inner + 1) lexeme.rest).map
            (prepend ⟨.group (ofBranches branches), lexeme.times⟩)
termination_by text.length
decreasing_by
  · simp
  · have := Lexeme.length_read c rest
    simp
    omega
  · have := Lexeme.length_of_read_group _h
    simp
    omega
  · have := Lexeme.length_read c rest
    simp
    omega

/-- How deep groups may stand inside one another unless another limit is given. -/
def defaultDepth : Nat := 64

/-- Reads a pattern whose groups stand at most `limit` deep. -/
def read (text : Text) (limit : Nat) : Except Refusal Sequence :=
  match readBranches? limit text with
  | some branches => .ok (ofBranches branches)
  | none => .error (.tooDeep limit)

end Sequence

end InputMask
