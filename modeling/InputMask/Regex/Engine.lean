import InputMask.Engine
import InputMask.Regex.Reach
import InputMask.Regex.Reader
import InputMask.Regex.Search
import InputMask.Regex.Space

/-!
# The engine of the executable

How a text is checked against an expression. A plain expression is matched as a whole. Any
other is searched for, and what is plain in it is matched beforehand, place by place.

This engine stands in where the executable has no other. It reads the common part of what
engines read, and nothing that is said of masks depends on it: that holds with any engine.
-/

namespace InputMask.Regex

/-- A way to check a text. -/
inductive Method where
  | whole (e : Regex)
  /-- A plan with the number of marks it needs. -/
  | search (plan : Plan Regex) (marks : Nat)
deriving Repr

namespace Method

/-- The places at which a step of a plan succeeds. -/
def test (places : List Place) : Regex → Search.Test
  | .wordEdge negated => (places.map fun p => p.isWordEdge != negated).toArray
  | e => (e.startsIn places).toArray places.length

/-- The method for an expression, if it is feasible: a plain one as a whole, any other step by
step. -/
def ofRegex? (e : Regex) : Option Method :=
  if e.isPlain then
    if e.isFeasible then some (whole e) else none
  else
    let (plan, marks) := Plan.anywhere e
    if plan.tests.all Regex.isFeasible then some (search plan marks) else none

/-- The method for the expression that a text stands for, if it is a feasible one. -/
def read? (text : Text) : Option Method :=
  (Regex.read? text).bind ofRegex?

/-- Whether the expression matches anywhere in a text. -/
def matchesIn (m : Method) (text : Text) : Bool :=
  let places := Place.all text
  match m with
  | whole e => e.startsIn places != 0
  | search plan marks => Search.find (plan.map (test places)) marks

end Method

/-- The engine of the executable. It never gives up. -/
def engine : Engine where
  compile? expression := (Method.read? expression).map fun method text =>
    some (method.matchesIn text)

end InputMask.Regex
