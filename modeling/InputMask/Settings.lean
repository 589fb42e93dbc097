import InputMask.Unicode.Classes
import InputMask.Pattern.Reader

/-!
# Settings

What a mask can be told besides its pattern, and the filter that decides which
typed characters count.
-/

namespace InputMask

/-- The settings of a mask. -/
structure Settings where
  /-- The characters that count as typed text besides letters and numerals. -/
  allowed : Text := []
  /-- How many characters a part without an upper bound is laid out for. -/
  limit : Nat := 256
  /-- How deep groups may stand inside one another. -/
  depth : Nat := Sequence.defaultDepth
  /-- What stands for a character still to be typed. -/
  placeholder : Char := '#'
deriving DecidableEq, Repr

namespace Settings

/-- Sets the limit. A part without an upper bound is always laid out for one character at
least. -/
def withLimit (settings : Settings) (limit : Nat) : Settings :=
  { settings with limit := max limit 1 }

/-- Whether a character counts as typed text. -/
def counts (settings : Settings) (c : Char) : Bool :=
  Unicode.isAlphanumeric c || settings.allowed.contains c

/-- The characters of a text that count. -/
def countedOf (settings : Settings) (text : Text) : Text :=
  text.filter settings.counts

end Settings

end InputMask
