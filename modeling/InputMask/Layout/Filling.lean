import InputMask.Extent
import InputMask.Layout.Basic

/-!
# Filling a layout

Typed text is laid out by walking over the steps of a layout. Slots take the typed
characters that count, in order; fixed text is put between them.

* Nothing is shown beyond the last typed character: with none left, slots and fixed
  text end the walk. Only fixed text in front of the first slot is always shown.
* A text that is typed in the form in which it is shown holds the fixed text too.
  Where that is so, its characters that count are skipped with it.
* Of several branches the first one that uses up most of the typed text is taken.

Every shown character carries its `Origin`, so that what was typed can be told from
what was put in.

`Layout.fill` says what comes of this, and `Layout.fillFits` whether all that is written on
the way can be held.
-/

namespace InputMask

/-- Where a shown character comes from. -/
inductive Origin where
  /-- A slot that took a typed character. -/
  | typed
  /-- Fixed text. -/
  | fixed
  /-- Fixed text that was typed as well and skipped there. -/
  | echoed
deriving DecidableEq, Repr

/-- A shown character. -/
structure Cell where
  char : Char
  origin : Origin
deriving DecidableEq, Repr

/-- The shown characters that text stands for. -/
def Cell.ofText (origin : Origin) (text : Text) : List Cell :=
  text.map (⟨·, origin⟩)

/-- What was typed, and which of it counts. -/
structure Typed where
  raw : Text
  counts : Char → Bool

/-- The typed characters that count. -/
def Typed.input (typed : Typed) : Text := typed.raw.filter typed.counts

/-- How far a layout has been filled. -/
structure Filling where
  /-- The typed characters that have been taken or skipped. -/
  used : Text
  /-- The typed characters still to come. -/
  pending : Text
  shown : List Cell
  /-- How many characters slots have taken. -/
  taken : Nat
  /-- How many characters of fixed text are shown. -/
  inserted : Nat
  /-- No further step has any effect. -/
  stopped : Bool
  /-- The steps belong to a branch. -/
  inBranch : Bool
deriving DecidableEq, Repr

namespace Filling

/-- Nothing filled yet. -/
def start (typed : Typed) : Filling :=
  ⟨[], typed.input, [], 0, 0, false, false⟩

/-- The text shown so far. -/
def text (f : Filling) : Text := f.shown.map (·.char)

/-- The same, with no further step having any effect. -/
def stop (f : Filling) : Filling := { f with stopped := true }

/-- Fills up to `n` slots with the characters that are to come. -/
def take (n : Nat) (f : Filling) : Filling :=
  if f.pending.isEmpty then f.stop
  else
    let chars := f.pending.take n
    { f with
      used := f.used ++ chars
      pending := f.pending.drop n
      shown := f.shown ++ Cell.ofText .typed chars
      taken := f.taken + chars.length }

/-- Whether fixed text is shown although no typed character is left: only as long as no slot
has been filled, and in a branch only as the very first text. -/
def isLeading (f : Filling) : Bool :=
  f.taken == 0 && (f.shown.isEmpty || !f.inBranch)

/-- Shows fixed text of the given origin. -/
def put (origin : Origin) (text : Text) (f : Filling) : Filling :=
  { f with
    shown := f.shown ++ Cell.ofText origin text
    inserted := f.inserted + text.length }

/-- Shows fixed text, and skips it where it was typed: where the typed text has so far read like
the shown text, this one included, and its characters that count come next. -/
def place (typed : Typed) (text : Text) (f : Filling) : Filling :=
  if f.pending.isEmpty && !f.isLeading then f.stop
  else
    let echo := text.filter typed.counts
    if !echo.isEmpty && (f.text ++ text).isPrefixOf typed.raw && echo.isPrefixOf f.pending then
      { f.put .echoed text with
        used := f.used ++ echo
        pending := f.pending.drop echo.length }
    else f.put .fixed text

/-- Of several fillings of the same text, the first that has used up most of it. -/
def furthest? : List Filling → Option Filling
  | [] => none
  | f :: rest =>
    match furthest? rest with
    | none => some f
    | some g => if f.used.length < g.used.length then some g else some f

end Filling

mutual

/-- Fills one step. -/
def Step.fill (typed : Typed) (f : Filling) : Step → Filling
  | .slots n => f.take n
  | .fixed text => f.place typed text
  | .either branches =>
    match Filling.furthest? (fillEach typed { f with inBranch := true } branches) with
    | none => f
    | some best => { best with inBranch := f.inBranch }

/-- Fills steps one after another until one stops. -/
def fillAll (typed : Typed) (f : Filling) : List Step → Filling
  | [] => f
  | step :: rest => if f.stopped then f else fillAll typed (step.fill typed f) rest

/-- Fills each of several branches from the same start. -/
def fillEach (typed : Typed) (f : Filling) : List (List Step) → List Filling
  | [] => []
  | branch :: rest => fillAll typed f branch :: fillEach typed f rest

end

/-- Fills a layout with typed text. -/
def Layout.fill (layout : Layout) (typed : Typed) : Filling :=
  fillAll typed (.start typed) layout

/-- Whether the text shown so far can be held. -/
def Filling.fits (f : Filling) : Bool := f.text.bytes ≤ Text.capacity

mutual

/-- Whether everything can be held that is written while a step is filled: the text that is shown
then and, of fixed text that is shown, the list of the characters that count. All branches are
filled, whichever is taken in the end. -/
def Step.fillFits (typed : Typed) (f : Filling) : Step → Bool
  | .slots n => (f.take n).fits
  | .fixed text =>
    let next := f.place typed text
    next.fits && (next.stopped || Text.isListable (text.filter typed.counts))
  | .either branches => fillEachFits typed { f with inBranch := true } branches

/-- Whether everything can be held that is written while steps are filled. -/
def fillAllFits (typed : Typed) (f : Filling) : List Step → Bool
  | [] => true
  | step :: rest =>
    f.stopped || (step.fillFits typed f && fillAllFits typed (step.fill typed f) rest)

/-- Whether everything can be held that is written while each of several branches is filled. -/
def fillEachFits (typed : Typed) (f : Filling) : List (List Step) → Bool
  | [] => true
  | branch :: rest => fillAllFits typed f branch && fillEachFits typed f rest

end

/-- Whether everything can be held that is written while a layout is filled. -/
def Layout.fillFits (layout : Layout) (typed : Typed) : Bool :=
  fillAllFits typed (.start typed) layout

/-- A text as it is shown, and the place in it where typing goes on. -/
structure Display where
  text : Text
  cursor : Nat
deriving DecidableEq, Repr

/-- What a filling shows, cut off at the longest length. -/
def Filling.display (longest : Extent) (f : Filling) : Display :=
  let text :=
    match longest with
    | .upTo n => f.text.take n
    | .endless => f.text
  ⟨text, min (f.taken + f.inserted) text.length⟩

/-- Lays out typed text, cut off at the longest length. -/
def Layout.display (layout : Layout) (longest : Extent) (typed : Typed) : Display :=
  (layout.fill typed).display longest

/-- The same, refused when something cannot be held that is written on the way. -/
def Layout.present (layout : Layout) (longest : Extent) (typed : Typed) :
    Except TextError Display :=
  if layout.fillFits typed then .ok (layout.display longest typed) else .error .tooLong

end InputMask
