import InputMask.Unicode.Alphabetic
import InputMask.Unicode.Numeric
import InputMask.Unicode.Marks
import InputMask.Unicode.Blank
import InputMask.Unicode.Recent
import InputMask.Unicode.Standalone

/-!
# Character classes

* `isAlphanumeric` — what counts as typed text: letters and numerals of every script.
* `isDigit`, `isWord`, `isBlank` — the classes that a pattern names with a letter.
* `isStandalone` — what a report shows as it is.
-/

namespace InputMask.Unicode

/-- Letters and numerals: Alphabetic, or of the categories Nd, Nl or No. -/
def isAlphanumeric (c : Char) : Bool :=
  alphabetic.contains c.toNat || decimalDigits.contains c.toNat || otherNumerals.contains c.toNat

/-- The ranges of the decimal digits that a pattern names. -/
def digits : Ranges := decimalDigits.difference recentCharacters

/-- Decimal digits of every script. -/
def isDigit (c : Char) : Bool :=
  digits.contains c.toNat

/-- The ranges of the characters that make up words: Alphabetic, or of the categories M, Nd or
Pc, or a joiner. -/
def words : Ranges :=
  ([marks, decimalDigits, connectors, joiners].foldl Ranges.union alphabetic).difference
    recentCharacters

/-- The characters that make up words. -/
def isWord (c : Char) : Bool :=
  words.contains c.toNat

/-- White space. -/
def isBlank (c : Char) : Bool :=
  blanks.contains c.toNat

/-- Characters with a visible form of their own. -/
def isStandalone (c : Char) : Bool :=
  standaloneCharacters.contains c.toNat

end InputMask.Unicode
