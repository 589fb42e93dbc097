import InputMask.Regex.Basic
import InputMask.Unicode.Bytes

/-!
# The space that an expression takes

A plain expression is matched by two automata that read bytes, one forward and one
backward, and a repetition is written out as often as it says. `Regex.space` is the room
that the states take, in bytes. An expression that takes more than `Regex.spaceLimit` one
way or the other is refused, and so is a repetition whose counts are too large or in the
wrong order: `Regex.isFeasible`.

A state takes `stateSpace`, each range of bytes that leads out of it `rangeSpace`, and each
further state that can be reached without a byte `forkSpace`.
-/

namespace InputMask

/-- The way in which an automaton reads. -/
inductive Direction where
  | forward
  | backward
deriving DecidableEq, Repr

namespace Unicode.ByteRun

/-- What runs go on with, together for those that start with the same range. -/
def tails (runs : List ByteRun) : List (List ByteRun) :=
  (runs.splitBy (·.head? == ·.head?)).map (·.map List.tail)

/-- All that runs can go on with after fewer than `n` bytes, without repetition. -/
def allTails : Nat → List (List ByteRun) → List (List ByteRun)
  | 0, _ => []
  | n + 1, sets =>
    (sets ++ allTails n ((sets.flatMap tails).filter (·.any (!·.isEmpty))).eraseDups).eraseDups

/-- The different beginnings of runs that are `n` bytes long. -/
def beginnings (n : Nat) (runs : List ByteRun) : List ByteRun :=
  ((runs.filter (n ≤ ·.length)).map (·.take n)).splitBy (· == ·) |>.filterMap List.head?

/-- The most bytes that a character is written with. -/
def longest : Nat := 4

end Unicode.ByteRun

namespace Regex

/-- The room for a state. -/
def stateSpace : Nat := 32

/-- The room for a range of bytes that leads out of a state. -/
def rangeSpace : Nat := 8

/-- The room for a state that can be reached without a byte. -/
def forkSpace : Nat := 4

/-- The room for a state that leads to two others without a byte. -/
def choiceSpace : Nat := stateSpace + 2 * forkSpace

/-- The room that several things take together. -/
def sumOf {α : Type} (room : α → Nat) (things : List α) : Nat :=
  things.foldl (fun n thing => n + room thing) 0

end Regex

namespace CharSet

open Unicode (ByteRun)
open Regex (stateSpace rangeSpace forkSpace sumOf)

/-- The room for runs. Forward, runs that go on alike share their states; backward, runs that
begin alike do. -/
def runsSpace : Direction → List ByteRun → Nat
  | .forward, runs =>
    stateSpace + sumOf (fun set => stateSpace + rangeSpace * (ByteRun.tails set).length)
      (ByteRun.allTails ByteRun.longest [runs])
  | .backward, runs =>
    2 * stateSpace + forkSpace * runs.length +
      sumOf (fun n => stateSpace * (ByteRun.beginnings (n + 1) runs).length)
        (List.range ByteRun.longest)

/-- The only character of a set, if it has just one. -/
def only? (set : CharSet) : Option Nat :=
  match set.ranges with
  | [(low, high)] => if low = high then some low else none
  | _ => none

/-- The room for one character of a set. -/
def space (direction : Direction) (set : CharSet) : Nat :=
  match set.only? with
  | some n => stateSpace * (ByteRun.ofRange n n).flatten.length
  | none =>
    if set.ranges.all (·.2 < 0x80) then 2 * stateSpace + rangeSpace * set.ranges.length
    else runsSpace direction (ByteRun.ofRanges set.ranges)

end CharSet

namespace Regex

open Unicode (ByteRun)

/-! ## Choices -/

/-- The sets of branches that are all one character of a set. -/
def sets? : List Regex → Option (List CharSet)
  | [] => some []
  | .oneOf set :: rest => (sets? rest).map (set :: ·)
  | _ :: _ => none

/-- The set that a choice between single characters, or between sets, comes down to. -/
def mergedSet? (branches : List Regex) : Option CharSet :=
  match sets? branches with
  | some sets =>
    if sets.all (·.only?.isSome) || sets.all (·.only?.isNone) then
      some (sets.foldl .union .empty)
    else none
  | none => none

/-- The bytes of an expression that matches one text only. -/
def bytes? : Regex → Option ByteRun
  | .oneOf set => set.only?.map fun n => (ByteRun.ofRange n n).flatten
  | .sequence parts =>
    parts.foldr (fun part rest =>
      match part, rest with
      | .oneOf set, some bytes => set.only?.map fun n => (ByteRun.ofRange n n).flatten ++ bytes
      | _, _ => none) (some [])
  | _ => none

/-- The room for a choice between texts, of which those that begin alike share their states. -/
def textsSpace (texts : List ByteRun) : Nat :=
  let waysAfter (beginning : ByteRun) : Nat :=
    ((texts.filter beginning.isPrefixOf).filterMap (·[beginning.length]?)).eraseDups.length
  let spaceAfter (beginning : ByteRun) : Nat :=
    if waysAfter beginning = 1 then stateSpace
    else stateSpace + rangeSpace * waysAfter beginning
  stateSpace + sumOf spaceAfter
    (texts.flatMap fun text => (List.range text.length).map text.take).eraseDups

/-- The room for a choice that comes down to a set or to texts. -/
def mergedSpace? (direction : Direction) (branches : List Regex) : Option Nat :=
  match mergedSet? branches, branches.mapM bytes? with
  | some set, _ => some (set.space direction)
  | none, some texts =>
    match direction with
    | .forward => some (textsSpace texts)
    | .backward => some (textsSpace (texts.map List.reverse))
  | none, none => none

/-! ## Repetitions -/

/-- The room for a repetition of what takes `body`. -/
def timesSpace (body : Nat) (mayBeEmpty : Bool) (least : Nat) : Extent → Nat
  | .upTo most =>
    if most = 0 then stateSpace
    else if least = most then least * body
    else if least = 0 ∧ most = 1 then choiceSpace + body + stateSpace
    else (if least = 0 then stateSpace else least * body) + stateSpace +
      (most - least) * (choiceSpace + body)
  | .endless =>
    if least = 0 then
      if mayBeEmpty then body + 2 * choiceSpace + stateSpace else choiceSpace + body
    else least * body + choiceSpace

/-! ## Expressions -/

mutual

/-- The room for an expression. What only ever matches the empty text is repeated at most once. -/
def space (direction : Direction) : Regex → Nat
  | .empty | .start | .finish | .wordEdge _ => stateSpace
  | .never | .ahead .. | .behind .. => 0
  | .oneOf set => set.space direction
  | .sequence parts => totalSpace direction parts
  | .alternatives branches =>
    match mergedSpace? direction branches with
    | some space => space
    | none =>
      2 * stateSpace + forkSpace * branches.length + totalSpace direction branches
  | .group body =>
    match direction with
    | .forward => 2 * stateSpace + body.space direction
    | .backward => body.space direction
  | .repeated body least most _ =>
    if body.width? = some 0 then
      timesSpace (body.space direction) true (min least 1)
        (match most with
          | .upTo n => .upTo (min n 1)
          | .endless => .upTo 1)
    else timesSpace (body.space direction) body.mayBeEmpty least most

/-- The room for several expressions. -/
def totalSpace (direction : Direction) : List Regex → Nat
  | [] => 0
  | e :: rest => e.space direction + totalSpace direction rest

end

/-- The room for the states in front of an expression and after it. -/
def frameSpace : Direction → Nat
  | .forward => 4 * stateSpace
  | .backward => 2 * stateSpace

/-- The most room that an automaton may take. -/
def spaceLimit : Nat := 10485760

/-- The largest count of a repetition. -/
def countLimit : Nat := 0xFFFFFFFF

/-- Whether the bounds of a repetition are in order and no count is too large. -/
def areFeasibleBounds (least : Nat) : Extent → Bool
  | .upTo most => least ≤ most && most ≤ countLimit
  | .endless => least ≤ countLimit

mutual

/-- Whether all repetitions in an expression have feasible bounds. -/
def hasFeasibleBounds : Regex → Bool
  | .empty | .never | .oneOf _ | .start | .finish | .wordEdge _ => true
  | .sequence parts => haveFeasibleBounds parts
  | .alternatives branches => haveFeasibleBounds branches
  | .group body => body.hasFeasibleBounds
  | .repeated body least most _ => areFeasibleBounds least most && body.hasFeasibleBounds
  | .ahead _ body => body.hasFeasibleBounds
  | .behind _ body => body.hasFeasibleBounds

/-- Whether all repetitions in several expressions have feasible bounds. -/
def haveFeasibleBounds : List Regex → Bool
  | [] => true
  | e :: rest => e.hasFeasibleBounds && haveFeasibleBounds rest

end

/-- Whether automata for a plain expression can be made within the limits. -/
def isFeasible (e : Regex) : Bool :=
  e.hasFeasibleBounds &&
    [Direction.forward, .backward].all fun direction =>
      frameSpace direction + e.space direction ≤ spaceLimit

end Regex

end InputMask
