import InputMask.Mask.Basic

/-!
# Sessions

A session answers one call after another about the same mask and works nothing out
twice: what was read, analysed or laid out is kept in a `Memory` for the calls that
come later. A call that fails leaves the place of what it could not work out empty.
Which texts match is asked of an engine for regular expressions.
-/

namespace InputMask

/-- What has been worked out about a mask so far. -/
structure Memory where
  reading : Option (Except Refusal Sequence) := none
  analysis : Option Analysis := none
  opening : Option Text := none
  layout : Option Layout := none
  matcher : Option (Option Matcher) := none

/-- A call that can use and extend the memory, and that can fail. -/
abbrev Session := ExceptT TextError (StateM Memory)

/-- What can be asked of a mask. -/
inductive Call where
  | pattern
  | settings
  | reading
  | analysis
  | longest
  | shortest
  | isEndless
  | literals
  | occurrences
  | placesOf (text : Text)
  | opening
  | layout
  | template
  | display (raw : Text)
  | accepts (text : Text)
deriving DecidableEq, Repr

/-- What a call is answered with. -/
inductive Answer where
  | text (t : Text)
  | settings (s : Settings)
  | reading (r : Except Refusal Sequence)
  | analysis (a : Analysis)
  | extent (e : Extent)
  | count (n : Nat)
  | flag (b : Bool)
  | literals (entries : List PlacedText)
  | occurrences (entries : List (Text × List Nat))
  | places (positions : List Nat)
  | layout (l : Layout)
  | display (d : Display)
deriving Repr

namespace Session

/-- The value in one place of the memory; if the place is empty, the value is worked out and
put there. -/
def once {α : Type} (look : Memory → Option α) (keep : α → Memory → Memory)
    (work : Session α) : Session α := do
  match look (← get) with
  | some value => return value
  | none =>
    let value ← work
    modify (keep value)
    return value

/-- A value that can fail, as part of a session. -/
def ofExcept {α : Type} (value : Except TextError α) : Session α :=
  ExceptT.mk (pure value)

/-- What the pattern is made of. -/
def reading (m : Mask) : Session (Except Refusal Sequence) :=
  once Memory.reading (fun r memory => { memory with reading := some r }) do
    return m.reading

/-- What is known of the pattern. -/
def analysis (m : Mask) : Session Analysis :=
  once Memory.analysis (fun a memory => { memory with analysis := some a }) do
    ofExcept (Mask.analysisOf (← reading m))

/-- The text with which every match begins. -/
def opening (m : Mask) : Session Text :=
  once Memory.opening (fun t memory => { memory with opening := some t }) do
    return Mask.openingOf (← reading m)

/-- The layout of the pattern. -/
def layout (m : Mask) : Session Layout :=
  once Memory.layout (fun l memory => { memory with layout := some l }) do
    ofExcept (m.layoutOf (← reading m))

/-- The matcher for the pattern. -/
def matcher (engine : Engine) (m : Mask) : Session (Option Matcher) :=
  once Memory.matcher (fun e memory => { memory with matcher := some e }) do
    ofExcept (m.matcher? engine)

/-- Typed text in the form that the pattern asks for. -/
def display (m : Mask) (raw : Text) : Session Display := do
  match ← reading m with
  | .ok _ =>
    let layout ← layout m
    let analysis ← analysis m
    ofExcept (layout.present analysis.longest (m.typed raw))
  | .error _ => return m.passedOn raw

/-- Answers one call. -/
def answer (engine : Engine) (m : Mask) : Call → Session Answer
  | .pattern => return .text m.pattern
  | .settings => return .settings m.settings
  | .reading => return .reading (← reading m)
  | .analysis => return .analysis (← analysis m)
  | .longest => return .extent (← analysis m).longest
  | .shortest => return .count (← analysis m).shortest
  | .isEndless => return .flag (← analysis m).isEndless
  | .literals => return .literals (← analysis m).literals
  | .occurrences => return .occurrences (← analysis m).occurrences
  | .placesOf text => return .places ((← analysis m).placesOf text)
  | .opening => return .text (← opening m)
  | .layout => return .layout (← layout m)
  | .template => do
    let layout ← layout m
    let text ← ofExcept (layout.template m.settings.placeholder)
    return .text text
  | .display raw => return .display (← display m raw)
  | .accepts text => return .flag (Mask.acceptedBy (← matcher engine m) text)

/-- Answers one call from a given memory, and gives the memory after it. -/
def answerFrom (engine : Engine) (m : Mask) (memory : Memory) (call : Call) :
    Except TextError Answer × Memory :=
  StateT.run (ExceptT.run (answer engine m call)) memory

/-- Answers calls one after another from a given memory, and gives the memory after them. A call
that fails does not keep the later ones from being answered. -/
def answerAll (engine : Engine) (m : Mask) (memory : Memory) :
    List Call → List (Except TextError Answer) × Memory
  | [] => ([], memory)
  | call :: calls =>
    let (result, next) := answerFrom engine m memory call
    let (results, last) := answerAll engine m next calls
    (result :: results, last)

end Session

/-- Answers calls one after another. -/
def Mask.answers (engine : Engine) (m : Mask) (calls : List Call) :
    List (Except TextError Answer) :=
  (Session.answerAll engine m {} calls).1

end InputMask
