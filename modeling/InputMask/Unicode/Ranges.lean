import InputMask.Text.Basic

/-!
# Character ranges

A set of characters, held as ranges of code points in ascending order. The tables in
this folder follow version 17.0 of the Unicode character database.

* `Ranges.contains` — the members.
* `Ranges.union`, `Ranges.complement`, `Ranges.difference` — sets made from others, again
  in ascending order and with no two ranges that touch.
-/

namespace InputMask.Unicode

/-- Ranges of code points, ends included, in ascending order. -/
abbrev Ranges := List (Nat × Nat)

/-- The last code point. -/
def lastCodePoint : Nat := 0x10FFFF

namespace Ranges

/-- Whether a code point lies in one of the ranges. The search ends at the first range that
starts beyond it. -/
def contains : Ranges → Nat → Bool
  | [], _ => false
  | (low, high) :: rest, n => if n < low then false else n ≤ high || contains rest n

/-- The range from `low` to `high` and further ones, with ranges that touch made into one. -/
def joinFrom (low high : Nat) : Ranges → Ranges
  | [] => [(low, high)]
  | (low', high') :: rest =>
    if low' ≤ high + 1 then joinFrom low (max high high') rest
    else (low, high) :: joinFrom low' high' rest

/-- Ranges that are ascending by their lower ends, with those that touch made into one. -/
def joined : Ranges → Ranges
  | [] => []
  | (low, high) :: rest => joinFrom low high rest

/-- What is in one set or another. -/
def union (a b : Ranges) : Ranges :=
  joined (a.merge b fun r s => decide (r.1 ≤ s.1))

/-- The gaps between the ranges from a code point on. -/
def gapsFrom (first : Nat) : Ranges → Ranges
  | [] => if first ≤ lastCodePoint then [(first, lastCodePoint)] else []
  | (low, high) :: rest =>
    if first < low then (first, low - 1) :: gapsFrom (high + 1) rest else gapsFrom (high + 1) rest

/-- What is not in a set. -/
def complement (a : Ranges) : Ranges := gapsFrom 0 a

/-- What is in the first set and not in the second. -/
def difference (a b : Ranges) : Ranges := (a.complement.union b).complement

end Ranges

end InputMask.Unicode
