import InputMask.Text.Basic
import InputMask.Unicode.Classes

/-!
# Places in a text

A text of `n` characters has `n + 1` places: one before each character and one at the
end. They are numbered from the front. A set of places is a number whose bit `p` is set
when the place `p` is in the set.
-/

namespace InputMask

/-- A place in a text, by the characters next to it. -/
structure Place where
  before : Option Char
  after : Option Char
deriving DecidableEq, Repr

namespace Place

/-- The places of a text that follows the given character. -/
def allFrom (before : Option Char) : Text → List Place
  | [] => [⟨before, none⟩]
  | c :: rest => ⟨before, some c⟩ :: allFrom (some c) rest

/-- The places of a text. -/
def all (text : Text) : List Place := allFrom none text

/-- Whether exactly one neighbour belongs to a word. -/
def isWordEdge (p : Place) : Bool :=
  p.before.any Unicode.isWord != p.after.any Unicode.isWord

end Place

/-- A set of places, bit by bit. -/
abbrev Places := Nat

namespace Places

/-- The places of a list that satisfy a condition. -/
def ofList (condition : Place → Bool) : List Place → Places
  | [] => 0
  | p :: rest => 2 * ofList condition rest + (condition p).toNat

/-- The places one before the given ones. -/
def oneBefore (places : Places) : Places := places >>> 1

/-- Whether each of the first `n` places is in the set. -/
def toArray (places : Places) (n : Nat) : Array Bool :=
  (Array.range n).map places.testBit

end Places

end InputMask
