import InputMask.Regex.Basic
import InputMask.Regex.Place

/-!
# Matching plain expressions

A plain expression is matched for all places of a text at once and from the end
backwards: `Regex.reach` gives for a set of places the places from which a match leads
into the set. Nothing has to be tried twice.
-/

namespace InputMask

/-- For a set of places, the places from which a match leads into it. -/
structure Reach where
  into : Places → Places

namespace Reach

/-- The empty match anywhere. -/
def stay : Reach := ⟨id⟩

/-- No match. -/
def nowhere : Reach := ⟨fun _ => 0⟩

/-- The empty match at certain places. -/
def stayAt (places : Places) : Reach := ⟨fun ends => ends &&& places⟩

/-- A match of one character at certain places. -/
def stepAt (places : Places) : Reach := ⟨fun ends => ends.oneBefore &&& places⟩

/-- A match of one expression and then of another. -/
def andThen (first second : Reach) : Reach := ⟨fun ends => first.into (second.into ends)⟩

/-- A match of one expression or of another. -/
def or (a b : Reach) : Reach := ⟨fun ends => a.into ends ||| b.into ends⟩

/-- Applies a function so often, but no more once it changes nothing. -/
def iterate (f : Places → Places) : Nat → Places → Places
  | 0, places => places
  | n + 1, places =>
    let next := f places
    if next = places then places else iterate f n next

/-- Matches in a row. In a text of `size` places more of them than that make no difference. -/
def repeated (size least : Nat) (most : Extent) (body : Reach) : Reach :=
  let further :=
    match most with
    | .upTo n => min (n - least) size
    | .endless => size
  ⟨fun ends =>
    iterate body.into (min least size)
      (iterate (fun places => ends ||| body.into places) further ends)⟩

end Reach

namespace Regex

mutual

/-- The places from which a match leads into a set of places. It is right for plain expressions;
what looks around is taken not to match. -/
def reach (places : List Place) : Regex → Reach
  | .empty => .stay
  | .never | .wordEdge _ | .ahead .. | .behind .. => .nowhere
  | .oneOf set => .stepAt (.ofList (·.after.any set.contains) places)
  | .sequence parts => reachAll places parts
  | .alternatives branches => reachOne places branches
  | .group body => reach places body
  | .repeated body least most _ => (reach places body).repeated places.length least most
  | .start => .stayAt (.ofList (·.before.isNone) places)
  | .finish => .stayAt (.ofList (·.after.isNone) places)

/-- Matches of parts that follow one another. -/
def reachAll (places : List Place) : List Regex → Reach
  | [] => .stay
  | part :: rest => (reach places part).andThen (reachAll places rest)

/-- Matches of one of several branches. -/
def reachOne (places : List Place) : List Regex → Reach
  | [] => .nowhere
  | branch :: rest => (reach places branch).or (reachOne places rest)

end

/-- The places at which a match of a plain expression starts. -/
def startsIn (places : List Place) (e : Regex) : Places :=
  (e.reach places).into (.ofList (fun _ => true) places)

end Regex

end InputMask
