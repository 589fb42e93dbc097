import InputMask.Regex.Class
import InputMask.Regex.Times

/-!
# Reading regular expressions

`Regex.read?` reads a whole text from left to right and keeps the groups that are
still open on a stack. What is no expression is refused: a class or group that is not
closed, a bracket that closes nothing, a repetition with nothing before it, an unknown
escape, and groups that stand `Regex.depthLimit` deep inside one another.
-/

namespace InputMask.Regex

/-! ## Single expressions -/

/-- What an escaped character matches. A digit refers back to a group; groups keep nothing, so
that it never matches. -/
def ofEscaped? (c : Char) : Option Regex :=
  if c = 'b' then some (.wordEdge false)
  else if c = 'B' then some (.wordEdge true)
  else if c.isDigit then some .never
  else
    match CharSet.ofLetter? c with
    | some set => some (.oneOf set)
    | none => (CharSet.escaped? c).map fun e => .oneOf (.single e)

/-- Whether a brace follows an escaped `b` or `B`. What it would mean is left open. -/
def isBracedEdge (c : Char) (after : Text) : Bool :=
  (c = 'b' || c = 'B') && after.head? = some '{'

/-- The expression that starts with `c`, which neither opens nor closes a group and is no bar. -/
def readSingle? (c : Char) (rest : Text) : Option (Regex × Text) :=
  match c with
  | '.' => some (.oneOf .inLine, rest)
  | '^' => some (.start, rest)
  | '$' => some (.finish, rest)
  | '*' | '+' | '?' => none
  | '\\' =>
    match rest with
    | [] => none
    | e :: after => if isBracedEdge e after then none else (ofEscaped? e).map (·, after)
  | '[' => (CharSet.read? rest).map fun (set, after) => (.oneOf set, after)
  | _ => some (.oneOf (.single c), rest)

/-! ## Groups -/

/-- What a group is for. -/
inductive GroupKind where
  /-- Only to hold its parts together. -/
  | plain
  | capture
  | ahead (negated : Bool)
  | behind (negated : Bool)
deriving DecidableEq, Repr

namespace GroupKind

/-- The expression that a group of the kind is. One can look back only for what is bounded. -/
def wrap? : GroupKind → Regex → Option Regex
  | plain, body => some body
  | capture, body => some (.group body)
  | ahead negated, body => some (.ahead negated body)
  | behind negated, body => if body.isBounded then some (.behind negated body) else none

/-- Whether a character may stand in the name of a group. -/
def isNameChar (c : Char) : Bool := Unicode.isAlphanumeric c || c == '_'

/-- The body after a name. A name is not empty and ends with `>`. -/
def afterName? (text : Text) : Option Text :=
  match text.takeWhile isNameChar, text.dropWhile isNameChar with
  | _ :: _, '>' :: body => some body
  | _, _ => none

/-- The kind of the group whose `(` stands in front of a text, with the text after the mark of
the kind. -/
def read? : Text → Option (GroupKind × Text)
  | '?' :: '=' :: body => some (ahead false, body)
  | '?' :: '!' :: body => some (ahead true, body)
  | '?' :: '<' :: '=' :: body => some (behind false, body)
  | '?' :: '<' :: '!' :: body => some (behind true, body)
  | '?' :: '<' :: name => (afterName? name).map (capture, ·)
  | '?' :: 'P' :: '<' :: name => (afterName? name).map (capture, ·)
  | '?' :: ':' :: body => some (plain, body)
  | '?' :: _ => none
  | body => some (capture, body)

end GroupKind

/-- A group that is still open, with what has been read of it, the latest first. -/
structure OpenGroup where
  kind : GroupKind
  /-- The branches before the last bar. -/
  branches : List Regex
  /-- The parts after the last bar. -/
  parts : List Regex
deriving Repr

namespace OpenGroup

/-- A group of which nothing has been read. -/
def ofKind (kind : GroupKind) : OpenGroup := ⟨kind, [], []⟩

/-- Adds a part. The empty expression adds nothing. -/
def push (part : Regex) (g : OpenGroup) : OpenGroup :=
  match part with
  | .empty => g
  | _ => { g with parts := part :: g.parts }

/-- The branch that the parts make up. -/
def branch (g : OpenGroup) : Regex :=
  match g.parts.reverse with
  | [] => .empty
  | [part] => part
  | parts => .sequence parts

/-- Ends a branch at a bar. -/
def bar (g : OpenGroup) : OpenGroup :=
  { g with branches := g.branch :: g.branches, parts := [] }

/-- What the group holds. -/
def body (g : OpenGroup) : Regex :=
  match g.branches with
  | [] => g.branch
  | branches => .alternatives (g.branch :: branches).reverse

end OpenGroup

/-! ## What is read is part of the text -/

theorem length_of_readSingle? {c : Char} {text rest : Text} {e : Regex}
    (h : readSingle? c text = some (e, rest)) : rest.length ≤ text.length := by
  unfold readSingle? at h
  split at h
  case h_7 =>
    split at h
    · cases h
    · split at h
      · cases h
      · obtain ⟨_, _, he⟩ := Option.map_eq_some_iff.1 h
        cases he
        simp
  case h_8 =>
    obtain ⟨⟨set, after⟩, hs, he⟩ := Option.map_eq_some_iff.1 h
    cases he
    exact Nat.le_of_lt (CharSet.length_of_read? hs)
  all_goals
    cases h
    try exact Nat.le_refl _

theorem GroupKind.length_of_afterName? {text body : Text} (h : afterName? text = some body) :
    body.length < text.length := by
  unfold afterName? at h
  split at h
  · rename_i hd
    have := (List.dropWhile_sublist isNameChar (l := text)).length_le
    cases h
    simp [hd] at this
    omega
  · cases h

theorem GroupKind.length_of_read? {text body : Text} {kind : GroupKind}
    (h : read? text = some (kind, body)) : body.length ≤ text.length := by
  unfold read? at h
  split at h
  case h_5 | h_6 =>
    obtain ⟨_, hn, he⟩ := Option.map_eq_some_iff.1 h
    have := length_of_afterName? hn
    cases he
    simp
    omega
  all_goals
    cases h
    try simp
    try omega

/-! ## Expressions -/

/-- Groups may stand inside one another only less deep than this. -/
def depthLimit : Nat := 64

/-- Reads the rest of an expression. `inner` is the innermost open group and `outer` holds the
groups around it; the last of them stands for the expression as a whole. -/
def readOn? (inner : OpenGroup) (outer : List OpenGroup) (text : Text) : Option Regex :=
  match text with
  | [] =>
    match outer with
    | [] => some inner.body
    | _ :: _ => none
  | '|' :: rest => readOn? inner.bar outer rest
  | '(' :: rest =>
    if outer.length + 1 < depthLimit then
      match _h : GroupKind.read? rest with
      | some (kind, body) => readOn? (.ofKind kind) (inner :: outer) body
      | none => none
    else none
  | ')' :: rest =>
    match outer with
    | [] => none
    | around :: others =>
      match inner.kind.wrap? inner.body with
      | none => none
      | some whole =>
        match _h : Times.readAfter? whole rest with
        | some (part, after) => readOn? (around.push part) others after
        | none => none
  | c :: rest =>
    match _hs : readSingle? c rest with
    | none => none
    | some (single, after) =>
      match _h : Times.readAfter? single after with
      | some (part, last) => readOn? (inner.push part) outer last
      | none => none
termination_by text.length
decreasing_by
  · simp
  · have := GroupKind.length_of_read? _h
    simp
    omega
  · have := Times.length_of_readAfter? _h
    simp
    omega
  · have := length_of_readSingle? _hs
    have := Times.length_of_readAfter? _h
    simp
    omega

/-- Reads an expression, if the whole text is one. -/
def read? (text : Text) : Option Regex :=
  readOn? (.ofKind .plain) [] text

end InputMask.Regex
