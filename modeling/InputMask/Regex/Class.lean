import InputMask.Regex.Basic

/-!
# Escapes and classes

What a backslash makes of the character after it, and the set that stands between
brackets.

* Members are characters, ranges such as `a-z`, sets named by an escaped letter, classes
  inside the class, and sets with a name of their own such as `[:digit:]`.
* `^` in front takes the complement. After it, hyphens are members, and so is a `]` that
  stands first.
* `&&`, `--` and `~~` join what stands before with what follows: what is in both, only in
  the first, in one but not the other. The leftmost comes first.

A class is read twice. `Member.readAll?` finds the `]` that ends it, by counting brackets;
`OpenClass.readOn?` makes the set. Where the two disagree on the end there is no class.
-/

namespace InputMask.CharSet

/-! ## Escapes -/

/-- The set that an escaped letter names. -/
def ofLetter? : Char → Option CharSet
  | 'd' => some digit
  | 'D' => some (complement digit)
  | 'w' => some word
  | 'W' => some (complement word)
  | 's' => some blank
  | 'S' => some (complement blank)
  | _ => none

/-- The character that an escaped character stands for. Of the letters only those of the control
characters stand for one, and digits never do. -/
def escaped? : Char → Option Char
  | 'n' => some '\n'
  | 't' => some '\t'
  | 'r' => some '\r'
  | 'f' => some '\x0c'
  | 'v' => some '\x0b'
  | 'a' => some '\x07'
  | 'e' => some '\x1b'
  | c => if c.isAlphanum then none else some c

/-- The characters that mean something in an expression. -/
def marks : Text := "\\.+*?()|[]\x7b\x7d^$#&-~".toList

/-! ## Members -/

/-- A member of a class as it is written. -/
inductive Member where
  /-- A character that may mean something. -/
  | plain (c : Char)
  /-- A mark that stands for itself. -/
  | escaped (c : Char)
  /-- A set named by an escaped letter. -/
  | named (set : CharSet)
deriving DecidableEq, Repr

namespace Member

/-- A character that was escaped. Only a mark needs it. -/
def ofEscaped (c : Char) : Member :=
  if marks.contains c then escaped c else plain c

/-- What an escaped character means in a class. -/
def ofEscaped? (c : Char) : Option Member :=
  if c = 'b' then some (plain '\x08')
  else (ofLetter? c).map named <|> (escaped? c).map ofEscaped

/-- The character that a member is. -/
def char? : Member → Option Char
  | plain c | escaped c => some c
  | named _ => none

/-- The set that a member is when it stands alone. -/
def set : Member → CharSet
  | plain c | escaped c => single c
  | named s => s

/-- The range from one member to another. It must run upwards between two characters. -/
def rangeTo? (low high : Member) : Option CharSet :=
  match low.char?, high.char? with
  | some a, some b => if a ≤ b then some (range a b) else none
  | _, _ => none

/-- Reads members up to the `]` that ends them, and that one too. Brackets that were opened on
the way are closed first. -/
def readAll? (opened : Nat) : Text → Option (List Member × Text)
  | [] => none
  | '\\' :: [] => none
  | '\\' :: c :: rest =>
    match ofEscaped? c, readAll? opened rest with
    | some member, some (members, after) => some (member :: members, after)
    | _, _ => none
  | c :: rest =>
    if c = ']' ∧ opened = 0 then some ([plain c], rest)
    else
      let inside := if c = '[' then opened + 1 else if c = ']' then opened - 1 else opened
      (readAll? inside rest).map fun (members, after) => (plain c :: members, after)

/-- Reads all members. A `]` that stands first, or after `^`, does not end them. -/
def read? : Text → Option (List Member × Text)
  | '^' :: ']' :: rest =>
    (readAll? 0 rest).map fun (members, after) => (plain '^' :: plain ']' :: members, after)
  | ']' :: rest =>
    (readAll? 0 rest).map fun (members, after) => (plain ']' :: members, after)
  | text => readAll? 0 text

/-- The members after a text that stands in front of them. -/
def after? : Text → List Member → Option (List Member)
  | [], members => some members
  | c :: text, plain d :: members => if c = d then after? text members else none
  | _ :: _, _ => none

end Member

/-! ## Sets with a name -/

/-- The union of several ranges. -/
def ofRanges (ranges : List (Char × Char)) : CharSet :=
  ranges.foldl (fun set (low, high) => union set (range low high)) empty

/-- The sets that have a name. All of them hold ASCII characters only. -/
def namedSets : List (Text × CharSet) :=
  [("alnum".toList, ofRanges [('0', '9'), ('A', 'Z'), ('a', 'z')]),
   ("alpha".toList, ofRanges [('A', 'Z'), ('a', 'z')]),
   ("ascii".toList, ofRanges [('\x00', '\x7f')]),
   ("blank".toList, ofRanges [('\t', '\t'), (' ', ' ')]),
   ("cntrl".toList, ofRanges [('\x00', '\x1f'), ('\x7f', '\x7f')]),
   ("digit".toList, ofRanges [('0', '9')]),
   ("graph".toList, ofRanges [('!', '~')]),
   ("lower".toList, ofRanges [('a', 'z')]),
   ("print".toList, ofRanges [(' ', '~')]),
   ("punct".toList, ofRanges [('!', '/'), (':', '@'), ('[', '\x60'), ('\x7b', '~')]),
   ("space".toList, ofRanges [('\t', '\r'), (' ', ' ')]),
   ("upper".toList, ofRanges [('A', 'Z')]),
   ("word".toList, ofRanges [('0', '9'), ('A', 'Z'), ('_', '_'), ('a', 'z')]),
   ("xdigit".toList, ofRanges [('0', '9'), ('A', 'F'), ('a', 'f')])]

/-- The set whose name stands in front of members, with the members after the name's `:]`. -/
def ofName? (members : List Member) : Option (CharSet × List Member) :=
  namedSets.findSome? fun (name, set) =>
    (Member.after? (name ++ [':', ']']) members).map (set, ·)

/-- The named set whose `[` stands in front of members: `[:digit:]`, or with `^` its complement. -/
def ofBracketedName? : List Member → Option (CharSet × List Member)
  | .plain ':' :: .plain '^' :: rest =>
    (ofName? rest).map fun (set, after) => (complement set, after)
  | .plain ':' :: rest => ofName? rest
  | _ => none

/-! ## Classes -/

/-- What two sets are joined by. -/
inductive Operator where
  | intersection
  | difference
  | symmetricDifference
deriving DecidableEq, Repr

/-- The set that an operator makes of two. -/
def Operator.apply : Operator → CharSet → CharSet → CharSet
  | intersection => CharSet.intersection
  | difference => CharSet.difference
  | symmetricDifference => CharSet.symmetricDifference

/-- A class that is still open. -/
structure OpenClass where
  isNegated : Bool
  /-- What stands before the last operator. -/
  left : Option (CharSet × Operator)
  /-- The members after the last operator. -/
  items : CharSet
deriving Repr

namespace OpenClass

/-- Adds a set to the members. -/
def add (set : CharSet) (c : OpenClass) : OpenClass := { c with items := .union c.items set }

/-- What has been read, apart from negation. -/
def joined (c : OpenClass) : CharSet :=
  match c.left with
  | none => c.items
  | some (set, operator) => operator.apply set c.items

/-- Goes on after an operator. -/
def join (operator : Operator) (c : OpenClass) : OpenClass :=
  { c with left := some (c.joined, operator), items := .empty }

/-- The set of a class that is closed. -/
def set (c : OpenClass) : CharSet := if c.isNegated then .complement c.joined else c.joined

/-- The hyphens, or else the `]`, with which members start. -/
def leading : List Member → CharSet × List Member
  | .plain '-' :: rest => (single '-', rest.dropWhile (· = .plain '-'))
  | .plain ']' :: rest => (single ']', rest)
  | members => (empty, members)

/-- The class whose `[` stands in front of members, as far as its first members go. -/
def start : List Member → OpenClass × List Member
  | .plain '^' :: rest => (⟨true, none, (leading rest).1⟩, (leading rest).2)
  | members => (⟨false, none, (leading members).1⟩, (leading members).2)

theorem length_leading (members : List Member) :
    (leading members).2.length ≤ members.length := by
  unfold leading
  split
  · have := (List.dropWhile_sublist (fun m => decide (m = Member.plain '-'))
      (l := ‹List Member›)).length_le
    simp
    omega
  · simp
  · simp

theorem length_start (members : List Member) : (start members).2.length ≤ members.length := by
  unfold start
  split
  · have := length_leading ‹List Member›
    simp
    omega
  · exact length_leading _

end OpenClass

theorem Member.length_after? {text : Text} {members left : List Member}
    (h : after? text members = some left) : left.length ≤ members.length := by
  fun_induction after? text members with
  | case1 => simp_all
  | case2 text d members ih =>
    have := ih h
    simp
    omega
  | case3 => cases h
  | case4 => cases h

theorem length_ofName? {members left : List Member} {set : CharSet}
    (h : ofName? members = some (set, left)) : left.length ≤ members.length := by
  obtain ⟨⟨name, s⟩, -, hs⟩ := List.exists_of_findSome?_eq_some h
  obtain ⟨_, ha, he⟩ := Option.map_eq_some_iff.1 hs
  cases he
  exact Member.length_after? ha

theorem length_ofBracketedName? {members left : List Member} {set : CharSet}
    (h : ofBracketedName? members = some (set, left)) : left.length ≤ members.length := by
  unfold ofBracketedName? at h
  split at h
  · obtain ⟨_, hn, he⟩ := Option.map_eq_some_iff.1 h
    have := length_ofName? hn
    cases he
    simp
    omega
  · have := length_ofName? h
    simp
    omega
  · cases h

/-- The set of a class of which `inner` is the innermost open one, given the members that follow.
They end with the class. -/
def OpenClass.readOn? (inner : OpenClass) (outer : List OpenClass) (members : List Member) :
    Option CharSet :=
  match members with
  | [] => none
  | .plain ']' :: rest =>
    match outer with
    | [] => if rest.isEmpty then some inner.set else none
    | around :: others => readOn? (around.add inner.set) others rest
  | .plain '[' :: rest =>
    match _h : ofBracketedName? rest with
    | some (set, after) => readOn? (inner.add set) outer after
    | none => readOn? (start rest).1 (inner :: outer) (start rest).2
  | .plain '&' :: .plain '&' :: rest => readOn? (inner.join .intersection) outer rest
  | .plain '-' :: .plain '-' :: rest => readOn? (inner.join .difference) outer rest
  | .plain '~' :: .plain '~' :: rest => readOn? (inner.join .symmetricDifference) outer rest
  | low :: .plain '-' :: high :: rest =>
    if high = .plain ']' ∨ high = .plain '-' then
      readOn? (inner.add low.set) outer (.plain '-' :: high :: rest)
    else
      match low.rangeTo? high with
      | some between => readOn? (inner.add between) outer rest
      | none => none
  | member :: rest => readOn? (inner.add member.set) outer rest
termination_by members.length
decreasing_by
  · simp
  · have := length_ofBracketedName? _h
    simp
    omega
  · have := length_start rest
    simp
    omega
  all_goals
    simp only [List.length_cons]
    omega

/-- The class whose `[` stands in front of a text, with the text after its `]`. -/
def read? (text : Text) : Option (CharSet × Text) :=
  match Member.read? text with
  | none => none
  | some (members, after) =>
    ((OpenClass.start members).1.readOn? [] (OpenClass.start members).2).map (·, after)

/-! ## A class is part of the text it is read from -/

theorem Member.length_of_readAll? {text after : Text} {opened : Nat} {members : List Member}
    (h : readAll? opened text = some (members, after)) : after.length < text.length := by
  fun_induction readAll? opened text generalizing members with
  | case3 opened c rest member others left hr _ ih =>
    simp at h
    obtain ⟨-, rfl⟩ := h
    have := ih hr
    simp
    omega
  | case5 => simp_all
  | case6 opened c rest _ _ _ _ =>
    rename_i ih
    obtain ⟨⟨m, a⟩, hm, he⟩ := Option.map_eq_some_iff.1 h
    obtain ⟨-, rfl⟩ := Prod.mk.inj he
    have := ih hm
    simp
    omega
  | _ => simp_all

theorem Member.length_of_read? {text after : Text} {members : List Member}
    (h : read? text = some (members, after)) : after.length < text.length := by
  unfold read? at h
  split at h
  · obtain ⟨⟨m, a⟩, hm, he⟩ := Option.map_eq_some_iff.1 h
    obtain ⟨-, rfl⟩ := Prod.mk.inj he
    have := length_of_readAll? hm
    simp
    omega
  · obtain ⟨⟨m, a⟩, hm, he⟩ := Option.map_eq_some_iff.1 h
    obtain ⟨-, rfl⟩ := Prod.mk.inj he
    have := length_of_readAll? hm
    simp
    omega
  · exact length_of_readAll? h

theorem length_of_read? {text after : Text} {set : CharSet}
    (h : read? text = some (set, after)) : after.length < text.length := by
  unfold read? at h
  split at h
  · cases h
  · rename_i hm
    obtain ⟨_, -, he⟩ := Option.map_eq_some_iff.1 h
    cases he
    exact Member.length_of_read? hm

end InputMask.CharSet
