import InputMask.Count
import InputMask.Extent
import InputMask.Unicode.Classes

/-!
# Regular expressions

The expressions with which a finished text is checked. They are read from the same
text as a pattern but by stricter rules, and not every pattern is one.

Groups are kept, since a repetition may follow a group even where it may not follow
what the group holds.

* `width?` — the length that all matches have.
* `isPlain` — the expression does not look at what surrounds a match.
* `mayBeEmpty` — the structure allows the empty match.
-/

namespace InputMask

/-- A set of characters. -/
inductive CharSet where
  | empty
  /-- The characters from `low` to `high`, both included. -/
  | range (low high : Char)
  | digit
  | word
  | blank
  | union (a b : CharSet)
  | complement (a : CharSet)
deriving DecidableEq, Repr

namespace CharSet

/-- The set of one character. -/
def single (c : Char) : CharSet := range c c

/-- The set of all characters. -/
def anything : CharSet := complement empty

/-- The set of all characters but the end of a line. -/
def inLine : CharSet := complement (single '\n')

/-- What is in both sets. -/
def intersection (a b : CharSet) : CharSet := complement (union (complement a) (complement b))

/-- What is in the first set and not in the second. -/
def difference (a b : CharSet) : CharSet := intersection a (complement b)

/-- What is in one of the sets and not in the other. -/
def symmetricDifference (a b : CharSet) : CharSet := union (difference a b) (difference b a)

/-- Whether a character is in the set. -/
def contains : CharSet → Char → Bool
  | empty, _ => false
  | range low high, c => decide (low ≤ c) && decide (c ≤ high)
  | digit, c => Unicode.isDigit c
  | word, c => Unicode.isWord c
  | blank, c => Unicode.isBlank c
  | union a b, c => a.contains c || b.contains c
  | complement a, c => !a.contains c

/-- The ranges of a set. -/
def ranges : CharSet → Unicode.Ranges
  | empty => []
  | range low high => if low ≤ high then [(low.toNat, high.toNat)] else []
  | digit => Unicode.digits
  | word => Unicode.words
  | blank => Unicode.blanks
  | union a b => a.ranges.union b.ranges
  | complement a => a.ranges.complement

end CharSet

/-- A regular expression. -/
inductive Regex where
  /-- The empty text. -/
  | empty
  /-- Nothing at all. -/
  | never
  /-- One character of a set. -/
  | oneOf (set : CharSet)
  | sequence (parts : List Regex)
  | alternatives (branches : List Regex)
  | group (body : Regex)
  /-- At least `least` and at most `most` matches in a row. A lazy repetition prefers few. -/
  | repeated (body : Regex) (least : Nat) (most : Extent) (isLazy : Bool)
  /-- The start of the text. -/
  | start
  /-- The end of the text. -/
  | finish
  /-- A place between a character of a word and one that is not, or if negated any other. -/
  | wordEdge (negated : Bool)
  /-- A place at which a match starts, or if negated none does. -/
  | ahead (negated : Bool) (body : Regex)
  /-- A place at which a match ends, or if negated none does. -/
  | behind (negated : Bool) (body : Regex)
deriving Repr, BEq

namespace Regex

/-- The upper bound that a count states. The largest count states none. -/
def boundOf (n : Nat) : Extent :=
  if n < Count.ceiling then .upTo n else .endless

/-- Whether a repetition may follow. It may not follow what only ever matches the empty text
and is not a group. -/
def isRepeatable : Regex → Bool
  | empty | start | finish | wordEdge _ | ahead .. | behind .. => false
  | never | oneOf _ | sequence _ | alternatives _ | group _ | repeated .. => true

mutual

/-- The length of all matches, if the structure gives them one and the same. -/
def width? : Regex → Option Nat
  | empty | never | start | finish | wordEdge _ | ahead .. | behind .. => some 0
  | oneOf _ => some 1
  | sequence parts => totalWidth? parts
  | alternatives branches => commonWidth? branches
  | group body => body.width?
  | repeated body least most _ =>
    if most = boundOf least then (body.width?).map (· * least) else none

/-- The length of all matches of parts that follow one another. -/
def totalWidth? : List Regex → Option Nat
  | [] => some 0
  | part :: rest =>
    match part.width?, totalWidth? rest with
    | some m, some n => some (m + n)
    | _, _ => none

/-- The length that all matches of all branches have. -/
def commonWidth? : List Regex → Option Nat
  | [] => none
  | [branch] => branch.width?
  | branch :: next :: rest =>
    match branch.width?, commonWidth? (next :: rest) with
    | some m, some n => if m = n then some m else none
    | _, _ => none

end

/-- Whether one can look back for the expression: its matches have one length, or it is a
choice between expressions for each of which that is so. -/
def isBounded : Regex → Bool
  | alternatives branches => branches.all (·.width?.isSome)
  | body => body.width?.isSome

mutual

/-- Whether the expression looks at nothing but what it matches and where the text starts and
ends. -/
def isPlain : Regex → Bool
  | empty | never | oneOf _ | start | finish => true
  | wordEdge _ | ahead .. | behind .. => false
  | sequence parts => areAllPlain parts
  | alternatives branches => areAllPlain branches
  | group body => body.isPlain
  | repeated body .. => body.isPlain

/-- Whether all of several expressions are plain. -/
def areAllPlain : List Regex → Bool
  | [] => true
  | e :: rest => e.isPlain && areAllPlain rest

end

mutual

/-- Whether the structure allows a match of no character. -/
def mayBeEmpty : Regex → Bool
  | empty | never | start | finish | wordEdge _ | ahead .. | behind .. => true
  | oneOf _ => false
  | sequence parts => mayAllBeEmpty parts
  | alternatives branches => mayOneBeEmpty branches
  | group body => body.mayBeEmpty
  | repeated body least _ _ => least = 0 || body.mayBeEmpty

/-- Whether all of several expressions may be empty. -/
def mayAllBeEmpty : List Regex → Bool
  | [] => true
  | e :: rest => e.mayBeEmpty && mayAllBeEmpty rest

/-- Whether one of several expressions may be empty. -/
def mayOneBeEmpty : List Regex → Bool
  | [] => false
  | e :: rest => e.mayBeEmpty || mayOneBeEmpty rest

end

end Regex

end InputMask
