import InputMask.Analysis.Length

/-!
# The inventory of literals

The literals that a pattern is sure to show, each at its place in the longest match.
A piece before a literal moves it by its longest length, or by its shortest where it
has no longest.
-/

namespace InputMask

/-- A literal and the place at which it stands. -/
structure PlacedText where
  text : Text
  position : Nat
deriving DecidableEq, Repr

namespace Inventory

/-- The text that a literal is sure to show: all of it, if it occurs a fixed number of times,
and none otherwise. -/
def sureText (meant : Text) (times : Option Repetition) : Except TextError Text :=
  if Repetition.isOnce times then .ok meant
  else
    match times.bind (·.fixedCount?) with
    | some n => meant.repeated n
    | none => .ok []

/-- One entry, unless there is nothing to show. -/
def entry (text : Text) (position : Nat) : List PlacedText :=
  if text.isEmpty then [] else [⟨text, position⟩]

/-- The place after a piece that stands at `position`. -/
def after (position : Nat) (piece : Piece) : Nat :=
  Count.add position (piece.longest.end?.getD piece.shortest)

end Inventory

mutual

/-- The literals of a piece that stands at `position`, with the place after it. Those inside a
group count only if it occurs exactly once. -/
def Piece.inventory (position : Nat) : Piece → Except TextError (List PlacedText × Nat)
  | ⟨.literal written meant, times⟩ => do
    let text ← Inventory.sureText meant times
    return (Inventory.entry text position,
      Inventory.after position ⟨.literal written meant, times⟩)
  | ⟨.group body, times⟩ =>
    if Repetition.isOnce times then inventoryOfAll position body
    else return ([], Inventory.after position ⟨.group body, times⟩)
  | piece => return ([], Inventory.after position piece)

/-- The literals of pieces that start at `position`, with the place after them. -/
def inventoryOfAll (position : Nat) : List Piece → Except TextError (List PlacedText × Nat)
  | [] => return ([], position)
  | piece :: rest => do
    let (entries, next) ← piece.inventory position
    let (others, last) ← inventoryOfAll next rest
    return (entries ++ others, last)

end

/-- The literals of a sequence in the order in which they are written. -/
def Sequence.inventory (s : Sequence) : Except TextError (List PlacedText) :=
  (·.1) <$> inventoryOfAll 0 s

end InputMask
