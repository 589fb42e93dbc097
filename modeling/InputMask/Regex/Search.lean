import InputMask.Regex.Plan

/-!
# Searching

`Search.find` carries out a plan. Where there is a choice the search takes the first way and
keeps the other; at a dead end it goes back to the choice that was kept last.

The search is given up, as if there were no match, after more than `Search.deadEndLimit`
dead ends or where more than `Search.openLimit` choices are open at once. So that it always
ends, it is also given a number of steps, `Search.stepLimit`.
-/

namespace InputMask.Search

/-- A step succeeds or fails at each place of the text. -/
abbrev Test := Array Bool

/-- What is still to be done. -/
inductive Task where
  | plan (plan : Plan Test)
  /-- Rounds of a counted loop, after `finished` of them. -/
  | counted (finished : Nat) (isLazy : Bool) (least : Nat) (most : Extent) (body : Plan Test)
  /-- Rounds of a loop that may have empty rounds, after `finished` of them. -/
  | rounds (finished : Nat) (mark : Nat) (isLazy : Bool) (least : Nat) (body : Plan Test)
  /-- Goes on from a place. -/
  | goTo (place : Nat)
  /-- A dead end, which also drops the choices but the first `count`. -/
  | refuse (count : Nat)
deriving Repr

/-- For each loop that may have empty rounds, the place where its last round began that the loop
could have ended before. A loop keeps it when it is left and entered again. -/
abbrev Marks := Array (Option Nat)

/-- A way that has not been tried. -/
structure Choice where
  tasks : List Task
  place : Nat
  marks : Marks
deriving Repr

/-- A search under way. -/
structure State where
  tasks : List Task
  place : Nat
  marks : Marks
  /-- The choices that are open, the latest first. -/
  choices : List Choice
  /-- How many choices are open. -/
  openCount : Nat
  deadEnds : Nat
deriving Repr

/-- The most dead ends that a search may come to. -/
def deadEndLimit : Nat := 1000000

/-- The most choices that may be open. -/
def openLimit : Nat := 1000000

/-- What a step of a search comes to. -/
inductive Progress where
  | underWay (s : State)
  | over (found : Bool)

namespace State

/-- Goes back to the latest choice. -/
def backUp (s : State) : Progress :=
  match s.choices with
  | [] => .over false
  | choice :: rest =>
    if s.deadEnds < deadEndLimit then
      .underWay ⟨choice.tasks, choice.place, choice.marks, rest, s.openCount - 1, s.deadEnds + 1⟩
    else .over false

/-- Goes on with one list of tasks and keeps another as a choice. -/
def choose (first other : List Task) (s : State) : Progress :=
  if s.openCount < openLimit then
    .underWay { s with
      tasks := first
      choices := ⟨other, s.place, s.marks⟩ :: s.choices
      openCount := s.openCount + 1 }
  else .over false

/-- Goes on with a round, or with what comes after the loop, and keeps the other as a choice. -/
def chooseRound (isLazy : Bool) (round after : List Task) (s : State) : Progress :=
  if isLazy then s.choose after round else s.choose round after

/-- Goes on with tasks. -/
def goOn (tasks : List Task) (s : State) : Progress := .underWay { s with tasks }

/-- One step of a plan that is followed by `rest`. -/
def follow (plan : Plan Test) (rest : List Task) (s : State) : Progress :=
  match plan with
  | .done => s.goOn rest
  | .step test width =>
    if test[s.place]?.getD false then .underWay { s with tasks := rest, place := s.place + width }
    else s.backUp
  | .back count =>
    if count ≤ s.place then .underWay { s with tasks := rest, place := s.place - count }
    else s.backUp
  | .both first second => s.goOn (.plan first :: .plan second :: rest)
  | .either first second => s.choose (.plan first :: rest) (.plan second :: rest)
  | .star isLazy body => s.chooseRound isLazy (.plan body :: .plan plan :: rest) rest
  | .plus isLazy body => s.goOn (.plan body :: .plan (.star isLazy body) :: rest)
  | .rounds mark isLazy least body => s.goOn (.rounds 0 mark isLazy least body :: rest)
  | .counted isLazy least most body => s.goOn (.counted 0 isLazy least most body :: rest)
  | .seen body => s.goOn (.plan body :: .goTo s.place :: rest)
  | .unseen body => s.choose [.plan body, .refuse s.openCount] rest

/-- The next round of a counted loop. -/
def count (finished : Nat) (isLazy : Bool) (least : Nat) (most : Extent) (body : Plan Test)
    (rest : List Task) (s : State) : Progress :=
  if most = .upTo finished then s.goOn rest
  else
    let round := .plan body :: .counted (finished + 1) isLazy least most body :: rest
    if finished < least then s.goOn round else s.chooseRound isLazy round rest

/-- The next round of a loop that may have empty rounds. It is a dead end where the last one that
was marked began here too. -/
def goRound (finished mark : Nat) (isLazy : Bool) (least : Nat) (body : Plan Test)
    (rest : List Task) (s : State) : Progress :=
  if finished ≠ 0 ∧ s.marks[mark]? = some (some s.place) then s.backUp
  else
    let round := .plan body :: .rounds (finished + 1) mark isLazy least body :: rest
    if finished < least then s.goOn round
    else
      { s with marks := s.marks.setIfInBounds mark (some s.place) }.chooseRound isLazy round rest

/-- One step of a search. -/
def next (s : State) : Progress :=
  match s.tasks with
  | [] => .over true
  | .plan plan :: rest => s.follow plan rest
  | .counted finished isLazy least most body :: rest => s.count finished isLazy least most body rest
  | .rounds finished mark isLazy least body :: rest =>
    s.goRound finished mark isLazy least body rest
  | .goTo place :: rest => .underWay { s with tasks := rest, place }
  | .refuse count :: _ =>
    { s with choices := s.choices.drop (s.openCount - count), openCount := count }.backUp

/-- Whether the search finds a match within some steps. -/
def run : Nat → State → Bool
  | 0, _ => false
  | steps + 1, s =>
    match s.next with
    | .underWay s => run steps s
    | .over found => found

end State

/-- How many steps a search may take. -/
def stepLimit : Nat := 1000000000000

/-- Whether a plan with so many marks leads from the start of a text to a match. -/
def find (plan : Plan Test) (marks : Nat) : Bool :=
  State.run stepLimit ⟨[.plan plan], 0, Array.replicate marks none, [], 0, 0⟩

end InputMask.Search
