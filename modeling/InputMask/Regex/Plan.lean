import InputMask.Regex.Basic

/-!
# Plans

How an expression that looks around is searched for: its plain parts are steps that either
succeed at a place or do not, and the plan says in which order steps are tried.

`Plan.ofRegex` cuts an expression into steps. In a sequence, the plain parts in front whose
matches have one length make up one step, and so do those at the end; inside a lookaround
nothing follows, so that there a plain expression is one step whatever its length.
-/

namespace InputMask

/-- The order in which steps are tried. -/
inductive Plan (α : Type) where
  /-- Nothing more to do. -/
  | done
  /-- A step that goes on by `width` characters where it succeeds. -/
  | step (test : α) (width : Nat)
  /-- Goes back by some characters. -/
  | back (count : Nat)
  | both (first second : Plan α)
  /-- The first, and where that leads nowhere the second. -/
  | either (first second : Plan α)
  /-- Any number of rounds, none of which is empty. -/
  | star (isLazy : Bool) (body : Plan α)
  /-- One round or more, none of which is empty. -/
  | plus (isLazy : Bool) (body : Plan α)
  /-- Any number of rounds from `least` on. A round that is empty is not gone on from. `mark`
  tells such loops apart. -/
  | rounds (mark : Nat) (isLazy : Bool) (least : Nat) (body : Plan α)
  /-- At least `least` rounds and no more than `most`, even where that is fewer. -/
  | counted (isLazy : Bool) (least : Nat) (most : Extent) (body : Plan α)
  /-- Succeeds where the body does, and stays there. -/
  | seen (body : Plan α)
  /-- Succeeds where the body does not. -/
  | unseen (body : Plan α)
deriving Repr

namespace Plan

variable {α β : Type}

/-- A plan with other tests. -/
def map (f : α → β) : Plan α → Plan β
  | done => done
  | step test width => step (f test) width
  | back count => back count
  | both first second => both (first.map f) (second.map f)
  | either first second => either (first.map f) (second.map f)
  | star isLazy body => star isLazy (body.map f)
  | plus isLazy body => plus isLazy (body.map f)
  | rounds mark isLazy least body => rounds mark isLazy least (body.map f)
  | counted isLazy least most body => counted isLazy least most (body.map f)
  | seen body => seen (body.map f)
  | unseen body => unseen (body.map f)

/-- The tests of all steps. -/
def tests : Plan α → List α
  | done | back _ => []
  | step test _ => [test]
  | both first second | either first second => first.tests ++ second.tests
  | star _ body | plus _ body | rounds _ _ _ body | counted _ _ _ body | seen body | unseen body =>
    body.tests

/-- A plan in which loops that may have empty rounds are numbered from `next` on, and the number
after the last. -/
def numbered (next : Nat) : Plan α → Plan α × Nat
  | done => (done, next)
  | step test width => (step test width, next)
  | back count => (back count, next)
  | both first second =>
    let (first, next) := first.numbered next
    let (second, next) := second.numbered next
    (both first second, next)
  | either first second =>
    let (first, next) := first.numbered next
    let (second, next) := second.numbered next
    (either first second, next)
  | star isLazy body =>
    let (body, next) := body.numbered next
    (star isLazy body, next)
  | plus isLazy body =>
    let (body, next) := body.numbered next
    (plus isLazy body, next)
  | rounds _ isLazy least body =>
    let (body, after) := body.numbered (next + 1)
    (rounds next isLazy least body, after)
  | counted isLazy least most body =>
    let (body, next) := body.numbered next
    (counted isLazy least most body, next)
  | seen body =>
    let (body, next) := body.numbered next
    (seen body, next)
  | unseen body =>
    let (body, next) := body.numbered next
    (unseen body, next)

/-- One plan after another. -/
def andThen : Plan α → Plan α → Plan α
  | done, second => second
  | first, done => first
  | first, second => both first second

/-- Looks for a body, or for there being none. -/
def look (negated : Bool) (body : Plan α) : Plan α :=
  if negated then unseen body else seen body

/-- Looks back for each of several bodies: for all to be missing, or for one to be there. -/
def lookForEach (negated : Bool) : List (Plan α) → Plan α
  | [] => done
  | [body] => look negated body
  | body :: rest =>
    if negated then both (unseen body) (lookForEach negated rest)
    else either (seen body) (lookForEach negated rest)

/-- The rounds of a repetition. -/
def rounded (body : Plan α) (mayBeEmpty : Bool) (least : Nat) (most : Extent) (isLazy : Bool) :
    Plan α :=
  if least = 0 ∧ most = .upTo 1 then if isLazy then either done body else either body done
  else if most = .endless ∧ mayBeEmpty then rounds 0 isLazy least body
  else if most = .endless ∧ least = 0 then star isLazy body
  else if most = .endless ∧ least = 1 then plus isLazy body
  else counted isLazy least most body

/-- Plain parts that follow one another as a single step. -/
def ofPlain : List Regex → Plan Regex
  | [] => done
  | [part] => step part (part.width?.getD 0)
  | parts => step (.sequence parts) ((Regex.totalWidth? parts).getD 0)

/-- Whether a part is plain and its matches have one length. -/
def isRigid (part : Regex) : Bool := part.isPlain && part.width?.isSome

mutual

/-- The plan for an expression. `last` tells that nothing depends on where a match ends. -/
def ofRegex (last : Bool) (e : Regex) : Plan Regex :=
  if last && e.isPlain then ofPlain [e]
  else
    match e with
    | .empty => done
    | .never => step .never 0
    | .oneOf set => step (.oneOf set) 1
    | .start => step .start 0
    | .finish => step .finish 0
    | .wordEdge negated => step (.wordEdge negated) 0
    | .sequence parts => ofParts last (some []) parts
    | .alternatives branches => ofBranches last branches
    | .group body => ofRegex last body
    | .repeated body least most isLazy =>
      let last := last && least = 0 && most = .upTo 1
      rounded (ofRegex last body) body.mayBeEmpty least most isLazy
    | .ahead negated body => look negated (ofRegex true body)
    | .behind negated body =>
      match body.width? with
      | some width => look negated (both (back width) (ofRegex true body))
      | none => lookForEach negated (backForEach body)

/-- The plan for parts that follow one another. `front` has the rigid parts in front that are one
step. -/
def ofParts (last : Bool) (front : Option (List Regex)) (parts : List Regex) : Plan Regex :=
  match parts with
  | [] => ofPlain (front.getD [])
  | part :: rest =>
    if front.isSome && isRigid part then ofParts last (front.map (· ++ [part])) rest
    else
      andThen (ofPlain (front.getD []))
        (if (part :: rest).all fun e => if last then e.isPlain else isRigid e then
          ofPlain (part :: rest)
        else andThen (ofRegex false part) (ofParts last none rest))

/-- The plan for a choice. -/
def ofBranches (last : Bool) (branches : List Regex) : Plan Regex :=
  match branches with
  | [] => step .never 0
  | branch :: rest =>
    if rest.isEmpty then ofRegex last branch
    else either (ofRegex last branch) (ofBranches last rest)

/-- The plans for the branches of a choice, each from where a match would start that ends here. -/
def backForEach (e : Regex) : List (Plan Regex) :=
  match e with
  | .alternatives branches => backForAll branches
  | _ => []

/-- The plans for several expressions, each from where a match would start that ends here. -/
def backForAll (branches : List Regex) : List (Plan Regex) :=
  match branches with
  | [] => []
  | branch :: rest =>
    both (back (branch.width?.getD 0)) (ofRegex true branch) :: backForAll rest

end

/-- The plan for an expression that may match anywhere: from the start of the text, or else from
one character later. -/
def anywhere (e : Regex) : Plan Regex × Nat :=
  numbered 0 (both (star true (step (.oneOf .anything) 1)) (ofRegex false e))

end Plan

end InputMask
