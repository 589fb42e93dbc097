import InputMask.CommandLine.Arguments
import InputMask.Mask.Basic
import InputMask.Text.Quoted

/-!
# Reports

What the program prints: first what is known of the pattern, then a line for every
input, with the form it takes and whether that form matches. Inputs come from the
arguments, or if there are none, from the lines of the standard input. How words are
split into arguments and which texts match is left to a splitter and to an engine.

Printing ends early where a line cannot be made, and what was printed before stays.
-/

namespace InputMask

/-- The mask that is asked for. -/
def Arguments.mask (args : Arguments) : Mask := ⟨args.pattern, args.settings⟩

/-- How a run of the program ends. -/
inductive Ending where
  | success
  /-- The words of the command line have ended the run by themselves. -/
  | atOnce (message : Text) (code : Nat)
  /-- The standard input is no text. -/
  | unreadable
  /-- The number of inputs that did not match, where that is a failure. -/
  | unmatched (n : Nat)
  /-- A text was needed that cannot be held. -/
  | failed (e : TextError)
deriving DecidableEq, Repr

namespace Ending

/-- The exit code of the program. -/
def code : Ending → Nat
  | success => 0
  | atOnce _ code => code
  | unreadable | unmatched _ => 1
  | failed _ => 101

/-- What is written to the standard error. -/
def message : Ending → Text
  | success => []
  | atOnce message _ => message
  | unreadable =>
    "Error: Failed to read stdin\n\nCaused by:\n    stream did not contain valid UTF-8\n".toList
  | unmatched n =>
    "Error: ".toList ++ Count.numeral n ++ (if n = 1 then " input" else " inputs").toList ++
      " did not match the pattern\n".toList
  | failed e => "Error: ".toList ++ e.message.toList ++ ['\n']

end Ending

/-- What a run of the program leaves behind. -/
structure Outcome where
  printed : Text
  ending : Ending
deriving DecidableEq, Repr

namespace Report

/-- The lines of a text. A line ends with a line feed, or a carriage return and a line feed; the
last one may lack it. -/
def linesOf : Text → List Text
  | [] => []
  | '\n' :: rest => [] :: linesOf rest
  | '\r' :: '\n' :: rest => [] :: linesOf rest
  | c :: rest =>
    match linesOf rest with
    | [] => [[c]]
    | line :: lines => (c :: line) :: lines

/-- What is known of the pattern, line by line. The literals are joined to one text before they are
printed. -/
def summary (m : Mask) : List (Except TextError Text) :=
  [ .ok ("pattern:  ".toList ++ m.pattern),
    m.analysis.map fun a =>
      "length:   ".toList ++ Count.numeral a.shortest ++ "..=".toList ++ a.longest.words,
    .ok ("prefix:   ".toList ++ m.opening.quoted),
    m.template.map fun text => "format:   ".toList ++ text,
    do
      let entries := (← m.analysis).literals.map fun l =>
        l.text.quoted ++ '@' :: Count.numeral l.position
      return "literals: ".toList ++ (← Text.behind 0 ([' '].intercalate entries)) ]

/-- What becomes of one input. -/
structure Result where
  input : Text
  display : Display
  valid : Bool
deriving DecidableEq, Repr

/-- Lays out an input and checks the outcome. -/
def result (engine : Engine) (m : Mask) (input : Text) : Except TextError Result := do
  let display ← m.display input
  let valid ← m.accepts engine display.text
  return ⟨input, display, valid⟩

/-- The line for an input. -/
def Result.line (r : Result) : Text :=
  r.input.quoted ++ " -> ".toList ++ r.display.text.quoted ++ " (cursor ".toList ++
    Count.numeral r.display.cursor ++ ", ".toList ++
    (if r.valid then "valid" else "incomplete").toList ++ [')']

/-- Prints lines up to the first that cannot be made. -/
def printUpTo : List (Except TextError Text) → Text × Option TextError
  | [] => ([], none)
  | .error e :: _ => ([], some e)
  | .ok line :: lines =>
    let (text, failure) := printUpTo lines
    (line ++ '\n' :: text, failure)

/-- How a run over all inputs ends. -/
def endingOf (check : Bool) (results : List Result) : Ending :=
  let n := results.countP (!·.valid)
  if check && n != 0 then .unmatched n else .success

/-- Runs the program on arguments. `standardInput` is what can be read from there, or nothing if
that is no text; it is read only if the arguments have no inputs. -/
def ofArguments (engine : Engine) (args : Arguments) (standardInput : Option Text) : Outcome :=
  let m := args.mask
  let (head, failure) := printUpTo (summary m)
  match failure with
  | some e => ⟨head, .failed e⟩
  | none =>
    let inputs? := if args.inputs.isEmpty then standardInput.map linesOf else some args.inputs
    match inputs? with
    | none => ⟨head, .unreadable⟩
    | some inputs =>
      let results := inputs.map (result engine m)
      let (body, failure) := printUpTo (results.map fun r => r.map Result.line)
      match failure with
      | some e => ⟨head ++ body, .failed e⟩
      | none => ⟨head ++ body, endingOf args.check (results.filterMap Except.toOption)⟩

/-- Runs the program on the words of a command line. -/
def run (engine : Engine) (split : Splitter) (words : List Text) (standardInput : Option Text) :
    Outcome :=
  match split words with
  | .ended printed message code => ⟨printed, .atOnce message code⟩
  | .given args => ofArguments engine args standardInput

end Report

end InputMask
