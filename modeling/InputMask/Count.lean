import InputMask.Text.Basic

/-!
# Counts

Repetitions, lengths and positions are counted up to `Count.ceiling`. A sum or
product beyond it stays at the ceiling, and a numeral beyond it is no count.
-/

namespace InputMask.Count

/-- The largest count: the largest number of 64 bits. -/
def ceiling : Nat := 0xFFFFFFFFFFFFFFFF

/-- The sum of two counts, held at the ceiling. -/
def add (a b : Nat) : Nat := min (a + b) ceiling

/-- The product of two counts, held at the ceiling. -/
def mul (a b : Nat) : Nat := min (a * b) ceiling

/-- A count in decimal. -/
def numeral (n : Nat) : Text := Nat.toDigits 10 n

/-- Reads a decimal numeral: at least one digit, nothing but digits (zeros in front are
allowed), and a value of at most the ceiling. -/
def read? (text : Text) : Option Nat :=
  if text.isEmpty || !text.all Char.isDigit then none
  else
    let n := Nat.ofDigitChars 10 text 0
    if n ≤ ceiling then some n else none

end InputMask.Count
