import InputMask.Repetition

/-!
# Patterns

A pattern is a `Sequence` of pieces, each an `Atom` with the repetition written
after it. Alternatives are one atom that holds all branches, so a sequence with a
bar in it is a single piece.
-/

namespace InputMask

/-- A place in the text that is asked for. -/
inductive Anchor where
  | start
  | finish
  /-- The edge of a word, or the absence of one. -/
  | wordEdge
deriving DecidableEq, Repr

/-- A condition on the text around a place, kept as it is written. `least` and `most` are the
bounds that it puts on the length of the whole text, if it is of the form that does. -/
structure Lookaround where
  negated : Bool
  text : Text
  least : Option Nat
  most : Option Nat
deriving DecidableEq, Repr

/-- Whether the condition bounds the length of the whole text. -/
def Lookaround.statesLength (l : Lookaround) : Bool :=
  l.least.isSome || l.most.isSome

mutual

/-- What a pattern is made of. -/
inductive Atom where
  /-- Fixed text: as it is written, and what is meant by it. -/
  | literal (written meant : Text)
  /-- One character out of a class, kept as it is written. -/
  | charClass (text : Text)
  | group (body : List Piece)
  /-- One of several branches. -/
  | choice (branches : List (List Piece))
  | anchor (kind : Anchor)
  | lookaround (condition : Lookaround)
deriving Repr, BEq

/-- An atom and how often it occurs; once, if nothing is written after it. -/
structure Piece where
  atom : Atom
  times : Option Repetition
deriving Repr, BEq

end

/-- Pieces that follow one another. -/
abbrev Sequence := List Piece

/-- Fixed text that stands for itself. -/
def Atom.plain (text : Text) : Atom := .literal text text

/-- Whether a repetition may be written after the atom. -/
def Atom.isRepeatable : Atom → Bool
  | literal .. | charClass _ | group _ => true
  | choice _ | anchor _ | lookaround _ => false

/-- Branches as one sequence: a branch that is alone is the sequence itself. -/
def Sequence.ofBranches : List Sequence → Sequence
  | [branch] => branch
  | branches => [⟨.choice branches, none⟩]

end InputMask
