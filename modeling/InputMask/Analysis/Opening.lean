import InputMask.Pattern.Basic
import InputMask.Text.SharedStart

/-!
# Openings

The literal text with which every match of a pattern begins. A walk over the pieces
collects it and stops at the first piece that can match differently; if none can,
the opening is complete and is all that the pattern matches.
-/

namespace InputMask

/-- The text that every match begins with, and whether it is the whole match. -/
structure Opening where
  text : Text
  complete : Bool
deriving DecidableEq, Repr

namespace Opening

/-- The opening of nothing. -/
def empty : Opening := ⟨[], true⟩

/-- What follows extends an opening that is complete. -/
def followedBy (first next : Opening) : Opening :=
  if first.complete then ⟨first.text ++ next.text, next.complete⟩ else first

theorem followedBy_of_complete {o : Opening} (h : o.complete = true) (next : Opening) :
    o.followedBy next = ⟨o.text ++ next.text, next.complete⟩ := by
  rw [followedBy, if_pos h]

theorem followedBy_of_not_complete {o : Opening} (h : o.complete = false) (next : Opening) :
    o.followedBy next = o := by
  rw [followedBy, if_neg (by simp [h])]

/-- The opening of alternatives: what all of them share, complete if they are all the same
and all complete. -/
def shared (openings : List Opening) : Opening :=
  let text := Text.sharedStart (openings.map (·.text))
  ⟨text, openings.all fun o => o.complete && o.text == text⟩

end Opening

mutual

/-- The opening of an atom that occurs once. -/
def Atom.opening : Atom → Opening
  | .literal _ meant => ⟨meant, true⟩
  | .charClass _ => ⟨[], false⟩
  | .group body => openingOfAll body
  | .choice branches => Opening.shared (openingsOf branches)
  | .anchor _ => .empty
  | .lookaround _ => .empty

/-- The opening of a piece. A literal or group that need not occur exactly once ends it; the
other atoms count whatever is written after them. -/
def Piece.opening : Piece → Opening
  | ⟨atom, times⟩ =>
    if atom.isRepeatable && !Repetition.isOnce times then ⟨[], false⟩ else atom.opening

/-- The opening of pieces that follow one another. -/
def openingOfAll : List Piece → Opening
  | [] => .empty
  | piece :: rest => piece.opening.followedBy (openingOfAll rest)

/-- The openings of several branches. -/
def openingsOf : List (List Piece) → List Opening
  | [] => []
  | branch :: rest => openingOfAll branch :: openingsOf rest

end

/-- The opening of a sequence. -/
def Sequence.opening (s : Sequence) : Opening := openingOfAll s

end InputMask
