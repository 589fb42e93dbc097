import InputMask.Count

/-!
# Layouts

A `Layout` says how a text that follows a pattern is laid out, step by step: so many
characters of typed text, then some fixed text, then one of several layouts.

`Layout.merge` brings steps into the form in which neighbours of one kind are one
step and nothing is empty. It fails if a text that is joined in this way cannot be held.
-/

namespace InputMask

/-- One step of a layout. -/
inductive Step where
  /-- Room for `n` typed characters. -/
  | slots (n : Nat)
  /-- Text that is shown without being typed. -/
  | fixed (text : Text)
  /-- One of several branches. -/
  | either (branches : List (List Step))
deriving Repr, BEq

/-- Steps that follow one another. -/
abbrev Layout := List Step

namespace Layout

/-- Puts a step in front, joined with the next one if they are of one kind, and left out if
there is nothing in it. Fixed texts are joined only if the whole text can be held. -/
def join : Step → Layout → Except TextError Layout
  | .slots 0, rest => return rest
  | .fixed [], rest => return rest
  | .slots m, .slots n :: rest => return .slots (Count.add m n) :: rest
  | .fixed s, .fixed t :: rest => return .fixed (s ++ (← t.behind s.bytes)) :: rest
  | step, rest => return step :: rest

/-- The same steps with neighbours joined. -/
def merge (steps : List Step) : Except TextError Layout :=
  steps.foldrM join []

end Layout

end InputMask
