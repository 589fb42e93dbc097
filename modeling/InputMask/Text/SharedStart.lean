import InputMask.Text.Basic

/-!
# The shared start of several texts

`Text.sharedStart` is the longest text with which all of the given texts begin.
It is found by narrowing a bound, in bytes of the first text: each further text
lowers the bound to the place where it first differs, or to its own size.
-/

namespace InputMask.Text

/-- The characters that lie wholly within the first `n` bytes. -/
def takeBytes : Nat → Text → Text
  | _, [] => []
  | n, c :: rest => if c.utf8Size ≤ n then c :: takeBytes (n - c.utf8Size) rest else []

/-- The byte offset of the first place at which two texts hold different characters. -/
def mismatch? : Text → Text → Option Nat
  | a :: as, b :: bs => if a = b then (mismatch? as bs).map (a.utf8Size + ·) else some 0
  | _, _ => none

/-- Lowers a bound on `first` to what it shares with one more text. -/
def narrow (first : Text) (bound : Nat) (other : Text) : Nat :=
  (mismatch? (takeBytes bound first) other).getD (min bound other.bytes)

/-- The bytes of `first` that all the other texts share. -/
def sharedBytes (first : Text) (others : List Text) : Nat :=
  others.foldl (narrow first) first.bytes

/-- The longest text that starts all of the given texts; empty when there is none given. -/
def sharedStart : List Text → Text
  | [] => []
  | first :: others => takeBytes (sharedBytes first others) first

end InputMask.Text
