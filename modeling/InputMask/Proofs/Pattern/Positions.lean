import InputMask.Pattern.Reader

/-!
# Reading by positions

A pattern can also be read without taking its text apart: by positions in it, from which
characters are looked up and parts are cut out. Here everything that could go wrong with that is
checked, and is a `Halt` of its own: a character or a part that lies outside a text, a count of open
groups that falls below zero, and a step that brings reading no further.

* `classEnd`, `groupEnd` — the positions of closing brackets.
* `headElement` — the element that a text starts with, and how many characters it uses.
* `branchesFrom`, `sequenceAt` — the branches from a position on, and the sequence of a text.
* `read` — the sequence of a pattern.
-/

namespace InputMask

/-- Why reading by positions ends without a tree. -/
inductive Halt where
  /-- A character or a part of a text was asked for that is not there. -/
  | outOfRange
  /-- A count was to be lowered that is zero. -/
  | belowZero
  /-- A step would not move on, or would read a text inside itself that is no shorter. -/
  | stuck
  /-- The pattern is refused. -/
  | refused (refusal : Refusal)
deriving DecidableEq, Repr

namespace Positions

/-! ## Checked access -/

/-- The character at a position. -/
def charAt (text : Text) (i : Nat) : Except Halt Char :=
  match text[i]? with
  | some c => .ok c
  | none => .error .outOfRange

/-- The part of a text from one position up to another. -/
def part (text : Text) (start stop : Nat) : Except Halt Text :=
  if start ≤ stop ∧ stop ≤ text.length then .ok ((text.take stop).drop start)
  else .error .outOfRange

/-- The part of a text from a position on. -/
def partFrom (text : Text) (start : Nat) : Except Halt Text := part text start text.length

/-- One less than a count. -/
def lower : Nat → Except Halt Nat
  | 0 => .error .belowZero
  | n + 1 => .ok n

/-- The next position, if it lies further on. -/
def onward (pos next : Nat) : Except Halt { n : Nat // pos < n } :=
  if h : pos < next then .ok ⟨next, h⟩ else .error .stuck

/-- A text to be read inside another one, if it is shorter. -/
def inside (body text : Text) : Except Halt { t : Text // t.length < text.length } :=
  if h : body.length < text.length then .ok ⟨body, h⟩ else .error .stuck

/-! ## Closing brackets -/

/-- The position of the first `]` from a position on that is not escaped. -/
def classEndFrom (text : Text) (i : Nat) : Except Halt (Option Nat) :=
  if i < text.length then do
    match ← charAt text i with
    | '\\' => classEndFrom text (i + 2)
    | ']' => return some i
    | _ => classEndFrom text (i + 1)
  else return none
termination_by text.length - i

/-- The position behind a mark, if it stands there. -/
def skip (mark : Char) (text : Text) (i : Nat) : Nat :=
  if text[i]? = some mark then i + 1 else i

/-- The position of the `]` that closes the class at the start of a text. -/
def classEnd (text : Text) : Except Halt (Option Nat) :=
  classEndFrom text (skip ']' text (skip '^' text 1))

/-- The position of the `)` that closes the last of the groups that are open at a position. -/
def groupEndFrom (text : Text) (opened i : Nat) : Except Halt (Option Nat) :=
  if i < text.length then do
    match ← charAt text i with
    | '\\' => groupEndFrom text opened (i + 1 + 1)
    | '[' =>
      match ← classEnd (← partFrom text i) with
      | some stop => groupEndFrom text opened (i + stop + 1)
      | none => groupEndFrom text opened (i + 1)
    | '(' => groupEndFrom text (opened + 1) (i + 1)
    | ')' => do
      let left ← lower opened
      if left = 0 then return some i else groupEndFrom text left (i + 1)
    | _ => groupEndFrom text opened (i + 1)
  else return none
termination_by text.length - i

/-- The position of the `)` that closes the group at the start of a text. -/
def groupEnd (text : Text) : Except Halt (Option Nat) := groupEndFrom text 0 0

/-! ## Elements -/

/-- The repetition that a text starts with, and how many characters it uses. -/
def headRepetition (text : Text) : Except Halt (Option (Repetition × Nat)) :=
  match text.head? with
  | some '*' => return some (⟨0, .endless⟩, 1)
  | some '+' => return some (⟨1, .endless⟩, 1)
  | some '?' => return some (⟨0, .upTo 1⟩, 1)
  | some '{' =>
    match text.findIdx? (· == '}') with
    | some close => return (Repetition.ofBraced? (← part text 1 close)).map (·, close + 1)
    | none => return none
  | _ => return none

/-- What stands between `^.` and `$`, if a condition is of that form. -/
def statedBounds? : Text → Option Text
  | '^' :: '.' :: rest => if rest.getLast? = some '$' then some rest.dropLast else none
  | _ => none

/-- The bounds on the whole length that a condition states. -/
def wholeLength? (content : Text) : Except Halt (Option Repetition) :=
  match statedBounds? content with
  | none => return none
  | some bounds => do
    if bounds.head? = some '{' then
      match ← headRepetition bounds with
      | some (r, used) => return if used = bounds.length then some r else none
      | none => return none
    else return none

/-- The condition `?=`. -/
def ahead (content : Text) : Except Halt Lookaround := do
  match ← wholeLength? content with
  | some r => return ⟨false, content, some r.least, r.most.end?⟩
  | none => return ⟨false, content, none, none⟩

/-- The marks with which the content of a group starts as a condition, and whether they negate. -/
def conditionMarks : List (Text × Bool) :=
  [(['?', '='], false), (['?', '!'], true), (['?', '<', '='], false), (['?', '<', '!'], true)]

/-- The body of a group: its content without the mark `?:` or a name. -/
def body (content : Text) : Except Halt Text :=
  if ['?', ':'].isPrefixOf content then partFrom content 2
  else if ['?', '<'].isPrefixOf content || ['?', 'P', '<'].isPrefixOf content then
    match content.findIdx? (· == '>') with
    | some close => partFrom content (close + 1)
    | none => return content
  else return content

/-- What a group with the given content is. -/
def ofContent (content : Text) : Except Halt Element :=
  match conditionMarks.find? (·.1.isPrefixOf content) with
  | some (mark, negated) => do
    let inner ← partFrom content mark.length
    if mark = ['?', '='] then return .atom (.lookaround (← ahead inner))
    else return .atom (.lookaround ⟨negated, inner, none, none⟩)
  | none => return .group (← body content)

/-- The group or condition that a text starts with, and how many characters it uses. A group that
never closes uses all of them. -/
def headGroup (text : Text) : Except Halt (Element × Nat) := do
  match ← groupEnd text with
  | some stop => return (← ofContent (← part text 1 stop), stop + 1)
  | none => return (← ofContent (← partFrom text 1), text.length)

/-- The escaped character that a text starts with, and how many characters it uses. -/
def headEscape (text : Text) : Element × Nat :=
  match text[1]? with
  | some c => (.atom (Element.ofEscaped c), 2)
  | none => (.atom (.plain ['\\']), 1)

/-- The element that a text starts with, and how many characters it uses. -/
def headElement (text : Text) : Except Halt (Element × Nat) := do
  match ← charAt text 0 with
  | '\\' => return headEscape text
  | '[' =>
    match ← classEnd text with
    | some stop => return (.atom (.charClass (← part text 0 (stop + 1))), stop + 1)
    | none => return (.atom (.plain text), text.length)
  | '(' => headGroup text
  | '.' => return (.atom (.charClass ['.']), 1)
  | '^' => return (.atom (.anchor .start), 1)
  | '$' => return (.atom (.anchor .finish), 1)
  | c => return (.atom (.plain [c]), 1)

/-- The element at a position, and how many characters it uses. -/
def elementAt (text : Text) (pos : Nat) : Except Halt (Element × Nat) := do
  headElement (← partFrom text pos)

/-- The repetition at a position behind something that may be repeated, and the position behind it
and the mark of a lazy one. -/
def timesAt (text : Text) (repeatable : Bool) (pos : Nat) :
    Except Halt (Option Repetition × Nat) := do
  if repeatable then
    match ← headRepetition (← partFrom text pos) with
    | some (r, used) => return (some r, skip '?' text (pos + used))
    | none => return (none, pos)
  else return (none, pos)

/-! ## Sequences -/

mutual

/-- The sequence of a text that stands at a depth, if that is within the limit. -/
def sequenceAt (limit depth : Nat) (text : Text) : Except Halt Sequence :=
  if limit < depth then .error (.refused (.tooDeep limit))
  else return Sequence.ofBranches (← branchesFrom limit depth text 0)
termination_by (text.length, text.length + 1)

/-- The branches of a text from a position on. -/
def branchesFrom (limit depth : Nat) (text : Text) (pos : Nat) : Except Halt (List Sequence) :=
  if pos < text.length then do
    let c ← charAt text pos
    if c = '|' then return [] :: (← branchesFrom limit depth text (pos + 1))
    else
      let (element, used) ← elementAt text pos
      let atom ← (match element with
        | .atom a => return a
        | .group content => do
          let ⟨inner, _⟩ ← inside content text
          return .group (← sequenceAt limit (depth + 1) inner))
      let repeatable := c ∉ Lexeme.repetitionMarks && atom.isRepeatable
      let (times, stop) ← timesAt text repeatable (pos + used)
      let ⟨next, _⟩ ← onward pos stop
      return Sequence.prepend ⟨atom, times⟩ (← branchesFrom limit depth text next)
  else return [[]]
termination_by (text.length, text.length - pos)

end

/-- Reads a pattern whose groups stand at most `limit` deep. -/
def read (text : Text) (limit : Nat) : Except Halt Sequence := sequenceAt limit 0 text

end Positions

end InputMask
