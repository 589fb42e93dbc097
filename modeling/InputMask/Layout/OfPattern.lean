import InputMask.Analysis.Length
import InputMask.Layout.Basic

/-!
# The layout of a pattern

What can only be one text is shown as fixed text; what is there at most once is laid
out in full, to be cut short where the typed text ends; everything else is room for as
many characters as it can match, or for `limit` characters where that has no bound.

* `Sequence.fixedText` — the one text that pieces can match, if their structure says so.
* `Sequence.layout` — the layout.
-/

namespace InputMask

namespace Repetition

/-- How often something occurs, if it is always the same number of times. -/
def count? : Option Repetition → Option Nat
  | none => some 1
  | some r => r.fixedCount?

end Repetition

mutual

/-- The one text that an atom matches. Anchors and conditions match no text at all. -/
def Atom.fixedText : Atom → Except TextError (Option Text)
  | .literal _ meant => return some meant
  | .charClass _ => return none
  | .group body => fixedTextOfAll 0 body
  | .choice _ => return none
  | .anchor _ => return some []
  | .lookaround _ => return some []

/-- The one text that a piece matches, written out as often as it occurs. -/
def Piece.fixedText : Piece → Except TextError (Option Text)
  | ⟨atom, times⟩ =>
    match Repetition.count? times with
    | none => return none
    | some n => do
      match ← atom.fixedText with
      | none => return none
      | some text => some <$> text.repeated n

/-- The one text that pieces match one after another, behind `used` bytes of the same text. The
first piece without one decides, whatever comes after it. -/
def fixedTextOfAll (used : Nat) : List Piece → Except TextError (Option Text)
  | [] => return some []
  | piece :: rest => do
    match ← piece.fixedText with
    | none => return none
    | some found =>
      let text ← found.behind used
      match ← fixedTextOfAll (used + text.bytes) rest with
      | none => return none
      | some others => return some (text ++ others)

end

/-- The one text that a sequence matches. -/
def Sequence.fixedText (s : Sequence) : Except TextError (Option Text) := fixedTextOfAll 0 s

/-- Room for all that a piece can match. -/
def Piece.slots (limit : Nat) (piece : Piece) : List Step :=
  [.slots (piece.longest.end?.getD limit)]

mutual

/-- The steps of a piece, not yet joined. -/
def Piece.steps (limit : Nat) : Piece → Except TextError (List Step)
  | ⟨.literal written meant, times⟩ =>
    if Repetition.isAtMostOnce times then return [.fixed meant]
    else
      match Repetition.count? times with
      | some n => return [.fixed (← meant.repeated n)]
      | none => return Piece.slots limit ⟨.literal written meant, times⟩
  | ⟨.charClass text, times⟩ => return Piece.slots limit ⟨.charClass text, times⟩
  | ⟨.group body, times⟩ =>
    if Repetition.isAtMostOnce times then stepsOfAll limit body
    else do
      match Repetition.count? times, ← fixedTextOfAll 0 body with
      | some n, some text => return [.fixed (← text.repeated n)]
      | _, _ => return Piece.slots limit ⟨.group body, times⟩
  | ⟨.choice branches, _⟩ => return [.either (← layoutsOf limit branches)]
  | ⟨.anchor _, _⟩ => return []
  | ⟨.lookaround _, _⟩ => return []

/-- The steps of pieces that follow one another, not yet joined. -/
def stepsOfAll (limit : Nat) : List Piece → Except TextError (List Step)
  | [] => return []
  | piece :: rest => return (← piece.steps limit) ++ (← stepsOfAll limit rest)

/-- The layouts of several branches. -/
def layoutsOf (limit : Nat) : List (List Piece) → Except TextError (List Layout)
  | [] => return []
  | branch :: rest =>
    return (← Layout.merge (← stepsOfAll limit branch)) :: (← layoutsOf limit rest)

end

/-- The layout of a sequence. -/
def Sequence.layout (limit : Nat) (s : Sequence) : Except TextError Layout := do
  Layout.merge (← stepsOfAll limit s)

end InputMask
