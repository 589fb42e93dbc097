import InputMask.CommandLine.Arguments

/-!
# Splitting words

A splitter for the executable: it knows the options of the program, with a letter and a
name each, and no other word that ends the program.

* `-a`, `--allow`, `-l`, `--limit`, `-p` and `--placeholder` take a value: the rest of
  the word, or else the next one, which may not look like an option itself.
* `-c` and `--check` take none. Letters can share a word, as in `-ca.`.
* After `--` everything is a pattern or an input.

No option may be given twice, and there must be a pattern.
-/

namespace InputMask

namespace Arguments

/-- The option of a letter. -/
def switchOfLetter? (c : Char) : Option Switch := Switch.all.find? (·.letter == c)

/-- The option of a name. -/
def switchOfName? (name : Text) : Option Switch := Switch.all.find? (·.name == name)

/-- What has been given so far. -/
structure Given where
  allow : Option Text := none
  limit : Option Nat := none
  placeholder : Option Char := none
  check : Bool := false
  /-- The pattern and the inputs. -/
  operands : List Text := []
deriving DecidableEq, Repr

/-- Reads a count, which may have a plus sign in front. -/
def readCount? : Text → Option Nat
  | '+' :: digits => Count.read? digits
  | digits => Count.read? digits

/-- Reads exactly one character. -/
def readChar? : Text → Option Char
  | [c] => some c
  | _ => none

namespace Given

/-- Gives an option a value. -/
def setValue? (g : Given) (value : Text) : Switch → Option Given
  | .allow => if g.allow.isSome then none else some { g with allow := some value }
  | .limit =>
    if g.limit.isSome then none
    else (readCount? value).map fun n => { g with limit := some n }
  | .placeholder =>
    if g.placeholder.isSome then none
    else (readChar? value).map fun c => { g with placeholder := some c }
  | .check => none

/-- Asks for the check. -/
def setCheck? (g : Given) : Option Given :=
  if g.check then none else some { g with check := true }

/-- Adds a pattern or inputs. -/
def add (g : Given) (operands : List Text) : Given :=
  { g with operands := g.operands ++ operands }

/-- Reads letters that share an argument, with the option that still waits for a value. -/
def readLetters? (g : Given) : Text → Option (Given × Option Switch)
  | [] => some (g, none)
  | c :: rest =>
    match switchOfLetter? c with
    | none => none
    | some .check =>
      match g.setCheck? with
      | none => none
      | some next => next.readLetters? rest
    | some switch =>
      match rest with
      | [] => some (g, some switch)
      | '=' :: value => (g.setValue? value switch).map (·, none)
      | value => (g.setValue? value switch).map (·, none)

/-- Reads a name, with the option that still waits for a value. -/
def readName? (g : Given) (text : Text) : Option (Given × Option Switch) :=
  match text.splitAt? '=' with
  | some (name, value) => do
    let switch ← switchOfName? name
    let next ← g.setValue? value switch
    return (next, none)
  | none => do
    let switch ← switchOfName? text
    if switch = .check then return (← g.setCheck?, none) else return (g, some switch)

/-- Reads one argument, with the option that still waits for a value. A hyphen alone is an
operand. -/
def readOne? (g : Given) : Text → Option (Given × Option Switch)
  | '-' :: '-' :: name => g.readName? name
  | '-' :: c :: letters => g.readLetters? (c :: letters)
  | operand => some (g.add [operand], none)

/-- Whether an argument looks like an option. -/
def looksLikeOption : Text → Bool
  | '-' :: _ :: _ => true
  | _ => false

/-- Reads arguments; `waiting` is the option that the next one is the value of. -/
def readAll? (g : Given) (waiting : Option Switch) : List Text → Option Given
  | [] => if waiting.isSome then none else some g
  | arg :: rest =>
    match waiting with
    | some switch =>
      if looksLikeOption arg then none
      else
        match g.setValue? arg switch with
        | none => none
        | some next => next.readAll? none rest
    | none =>
      if arg = ['-', '-'] then some (g.add rest)
      else
        match g.readOne? arg with
        | none => none
        | some (next, waiting) => next.readAll? waiting rest

/-- What the options ask for, together with a pattern and inputs. -/
def arguments (g : Given) (pattern : Text) (inputs : List Text) : Arguments :=
  let base : Arguments := { pattern, inputs }
  { base with
    allow := g.allow.getD base.allow
    limit := g.limit.getD base.limit
    placeholder := g.placeholder.getD base.placeholder
    check := g.check }

end Given

/-- Reads the words of a command line, if they are well formed. -/
def read? (words : List Text) : Option Arguments := do
  let g ← Given.readAll? {} none words
  match g.operands with
  | [] => none
  | pattern :: inputs => return g.arguments pattern inputs

/-- The splitter of the executable. Words that are not well formed end the program with the exit
code for a wrong usage; nothing is said about them. -/
def split : Splitter := fun words =>
  match read? words with
  | some args => .given args
  | none => .ended [] [] 2

end Arguments

end InputMask
