import InputMask.Unicode.Ranges

/-!
# Characters as bytes

The UTF-8 form of a range of code points. It is given as runs: a run is a range of bytes
for each byte in turn, and stands for all choices of one byte from each.
-/

namespace InputMask.Unicode

/-- Byte ranges that follow one another. -/
abbrev ByteRun := List (Nat × Nat)

namespace ByteRun

/-- Any `n` bytes of those that continue a character. -/
def anyTail (n : Nat) : ByteRun := List.replicate n (0x80, 0xBF)

/-- The runs for the values from `low` to `high`, written with `base` added to the first byte and
six bits in each of the `n` bytes that follow. Values that share a first byte are split by the
next one; where all values with a first byte are there, its tail is free. -/
def between (base : Nat) : Nat → Nat → Nat → List ByteRun
  | 0, low, high => [[(base + low, base + high)]]
  | n + 1, low, high =>
    let unit := 64 ^ (n + 1)
    let (first, last) := (low / unit, high / unit)
    let within (byte low high : Nat) : List ByteRun :=
      (between 0x80 n low high).map ((base + byte, base + byte) :: ·)
    if first = last then within first (low % unit) (high % unit)
    else
      let start := if low % unit = 0 then first else first + 1
      let stop := if high % unit = unit - 1 then last + 1 else last
      (if start = first then [] else within first (low % unit) (unit - 1)) ++
      (if start < stop then [(base + start, base + stop - 1) :: anyTail (n + 1)] else []) ++
      (if stop = last then within last 0 (high % unit) else [])

/-- The code points that are written with the same number of bytes: the least, the greatest, what
is added to the first byte, and the number of bytes that follow it. Surrogates are left out. -/
def blocks : List (Nat × Nat × Nat × Nat) :=
  [(0, 0x7F, 0, 0), (0x80, 0x7FF, 0xC0, 1), (0x800, 0xD7FF, 0xE0, 2), (0xE000, 0xFFFF, 0xE0, 2),
   (0x10000, lastCodePoint, 0xF0, 3)]

/-- The runs for a range of code points. -/
def ofRange (low high : Nat) : List ByteRun :=
  blocks.flatMap fun (least, greatest, base, n) =>
    if max low least ≤ min high greatest then
      between base n (max low least) (min high greatest)
    else []

/-- The runs for a set of code points, in ascending order. -/
def ofRanges (ranges : Ranges) : List ByteRun :=
  ranges.flatMap fun (low, high) => ofRange low high

example : ofRange 0x7A 0x905 =
    [[(0x7A, 0x7F)], [(0xC2, 0xDF), (0x80, 0xBF)], [(0xE0, 0xE0), (0xA0, 0xA3), (0x80, 0xBF)],
     [(0xE0, 0xE0), (0xA4, 0xA4), (0x80, 0x85)]] := by decide

end ByteRun

end InputMask.Unicode
