import InputMask.Settings

/-!
# Arguments

What the program is asked to do: a pattern, inputs, and four options. The words of a
command line are not taken apart here; that is done outside, by a `Splitter`, which may
also end the program at once, as after a request for help or a mistake in the words.
-/

namespace InputMask

/-- What the program is asked to do. An option that is not given has its default. -/
structure Arguments where
  pattern : Text
  inputs : List Text
  /-- The characters that count besides letters and numerals. -/
  allow : Text := []
  /-- The characters that a part without an upper bound is laid out for. -/
  limit : Nat := ({} : Settings).limit
  /-- What stands for a character still to be typed. -/
  placeholder : Char := '#'
  /-- Whether an input that does not match is a failure. -/
  check : Bool := false
deriving DecidableEq, Repr

/-- The settings that the options make. -/
def Arguments.settings (args : Arguments) : Settings :=
  let base : Settings := { allowed := args.allow, placeholder := args.placeholder }
  base.withLimit args.limit

/-- An option of the program. -/
inductive Switch where
  | allow
  | limit
  | placeholder
  | check
deriving DecidableEq, Repr

namespace Switch

/-- All options there are. -/
def all : List Switch := [allow, limit, placeholder, check]

/-- The name of an option, which stands behind two hyphens. -/
def name : Switch → Text
  | allow => "allow".toList
  | limit => "limit".toList
  | placeholder => "placeholder".toList
  | check => "check".toList

/-- The letter of an option, which stands behind one hyphen. -/
def letter : Switch → Char
  | allow => 'a'
  | limit => 'l'
  | placeholder => 'p'
  | check => 'c'

end Switch

/-- What the words of a command line come to. -/
inductive Split where
  | given (args : Arguments)
  /-- The program ends with an exit code, after what is printed and the message that goes to the
  standard error. -/
  | ended (printed message : Text) (code : Nat)
deriving DecidableEq, Repr

/-- Takes the words of a command line apart. -/
abbrev Splitter := List Text → Split

end InputMask
