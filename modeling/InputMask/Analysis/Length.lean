import InputMask.Pattern.Basic

/-!
# Lengths

The longest and the shortest text that a pattern can match, by its structure: a
literal is as long as its value, a class is one character, and anchors and
conditions are empty.

The longest length is an `Extent`, endless where no count can hold it. The shortest
is a count, held at the ceiling.
-/

namespace InputMask

namespace Repetition

/-- The longest length of something that occurs so often; once, if nothing is written. -/
def longest (times : Option Repetition) (length : Extent) : Extent :=
  match times with
  | none => length
  | some r => length.mul r.most

/-- The shortest length of something that occurs so often; once, if nothing is written. -/
def shortest (times : Option Repetition) (length : Nat) : Nat :=
  match times with
  | none => length
  | some r => Count.mul length r.least

end Repetition

mutual

/-- The longest text that an atom matches. -/
def Atom.longest : Atom → Extent
  | .literal _ meant => .upTo meant.length
  | .charClass _ => .upTo 1
  | .group body => longestOfAll body
  | .choice branches => longestOfAny branches
  | .anchor _ => .upTo 0
  | .lookaround _ => .upTo 0

/-- The longest text that a piece matches, its repetition included. -/
def Piece.longest : Piece → Extent
  | ⟨atom, times⟩ => Repetition.longest times atom.longest

/-- The longest text that pieces match one after another. -/
def longestOfAll : List Piece → Extent
  | [] => .upTo 0
  | piece :: rest => piece.longest.add (longestOfAll rest)

/-- The longest text that one of several branches matches. -/
def longestOfAny : List (List Piece) → Extent
  | [] => .upTo 0
  | branch :: rest => (longestOfAll branch).max (longestOfAny rest)

end

mutual

/-- The length of the shortest text that an atom matches. -/
def Atom.shortest : Atom → Nat
  | .literal _ meant => meant.length
  | .charClass _ => 1
  | .group body => shortestOfAll body
  | .choice branches => (shortestOfAny branches).getD 0
  | .anchor _ => 0
  | .lookaround _ => 0

/-- The length of the shortest text that a piece matches, its repetition included. -/
def Piece.shortest : Piece → Nat
  | ⟨atom, times⟩ => Repetition.shortest times atom.shortest

/-- The length of the shortest text that pieces match one after another. -/
def shortestOfAll : List Piece → Nat
  | [] => 0
  | piece :: rest => Count.add piece.shortest (shortestOfAll rest)

/-- The length of the shortest text that one of several branches matches, if there are any. -/
def shortestOfAny : List (List Piece) → Option Nat
  | [] => none
  | branch :: rest =>
    match shortestOfAny rest with
    | none => some (shortestOfAll branch)
    | some n => some (min (shortestOfAll branch) n)

end

/-- The longest text that a sequence matches. -/
def Sequence.longest (s : Sequence) : Extent := longestOfAll s

/-- The length of the shortest text that a sequence matches. -/
def Sequence.shortest (s : Sequence) : Nat := shortestOfAll s

end InputMask
