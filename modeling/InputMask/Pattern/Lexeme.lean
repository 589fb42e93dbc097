import InputMask.Pattern.Basic
import InputMask.Pattern.Brackets

/-!
# Lexemes

A `Lexeme` is what stands at the head of a pattern text: an element, the repetition
after it, and the text that is left. The body of a group is cut out but not yet read.

Nothing is malformed. A class that never closes is fixed text up to the end, a group
that never closes has all that is left as its body, and a repetition mark with nothing
before it stands for itself.
-/

namespace InputMask

/-- An element of a pattern, read as far as it goes without reading inside a group. -/
inductive Element where
  | atom (a : Atom)
  | group (body : Text)
deriving Repr, BEq

namespace Element

/-- The letters that, escaped, name a class of characters. -/
def classLetters : List Char := ['d', 'D', 'w', 'W', 's', 'S']

/-- The control character that an escaped letter stands for. -/
def control? : Char → Option Char
  | 'n' => some '\n'
  | 't' => some '\t'
  | 'r' => some '\r'
  | 'f' => some '\x0c'
  | 'v' => some '\x0b'
  | '0' => some '\x00'
  | _ => none

/-- What an escaped character means. -/
def ofEscaped (c : Char) : Atom :=
  if c ∈ classLetters then .charClass ['\\', c]
  else if c = 'b' ∨ c = 'B' then .anchor .wordEdge
  else .literal ['\\', c] [(control? c).getD c]

/-- The bounds on the whole length that a condition states: `^.{n}$` and its like. -/
def wholeLength? : Text → Option Repetition
  | '^' :: '.' :: '{' :: rest =>
    match Repetition.read? ('{' :: rest) with
    | some (r, ['$']) => some r
    | _ => none
  | _ => none

/-- The condition `?=`. It is the one that can bound the whole length. -/
def ahead (text : Text) : Lookaround :=
  match wholeLength? text with
  | some r => ⟨false, text, some r.least, r.most.end?⟩
  | none => ⟨false, text, none, none⟩

/-- The condition that a group states if its content starts as one. -/
def condition? : Text → Option Lookaround
  | '?' :: '=' :: text => some (ahead text)
  | '?' :: '!' :: text => some ⟨true, text, none, none⟩
  | '?' :: '<' :: '=' :: text => some ⟨false, text, none, none⟩
  | '?' :: '<' :: '!' :: text => some ⟨true, text, none, none⟩
  | _ => none

/-- The content of a group without a name in front of it; `name` starts after the `<`, and a
name that never ends is none. -/
def withoutName (content name : Text) : Text :=
  match name.splitAt? '>' with
  | some (_, body) => body
  | none => content

/-- The body of a group: its content without the mark `?:` or a name. -/
def bodyOf : Text → Text
  | '?' :: ':' :: body => body
  | '?' :: '<' :: name => withoutName ('?' :: '<' :: name) name
  | '?' :: 'P' :: '<' :: name => withoutName ('?' :: 'P' :: '<' :: name) name
  | content => content

/-- What a group with the given content is. -/
def ofContent (content : Text) : Element :=
  match condition? content with
  | some l => .atom (.lookaround l)
  | none => .group (bodyOf content)

/-- The element that starts with `c`, with the text after it. -/
def read (c : Char) (rest : Text) : Element × Text :=
  match c with
  | '\\' =>
    match rest with
    | [] => (.atom (.plain ['\\']), [])
    | e :: after => (.atom (ofEscaped e), after)
  | '[' =>
    match Brackets.splitClass? rest with
    | some (members, after) => (.atom (.charClass ('[' :: members ++ [']'])), after)
    | none => (.atom (.plain ('[' :: rest)), [])
  | '(' =>
    match Brackets.splitGroup? 0 rest with
    | some (content, after) => (ofContent content, after)
    | none => (ofContent rest, [])
  | '.' => (.atom (.charClass ['.']), rest)
  | '^' => (.atom (.anchor .start), rest)
  | '$' => (.atom (.anchor .finish), rest)
  | _ => (.atom (.plain [c]), rest)

/-- Whether a repetition may be written after the element. -/
def isRepeatable : Element → Bool
  | atom a => a.isRepeatable
  | group _ => true

end Element

/-- The head of a pattern text: an element, how often it occurs, and the text that is left. -/
structure Lexeme where
  element : Element
  times : Option Repetition
  rest : Text
deriving Repr, BEq

namespace Lexeme

/-- The marks with which a repetition begins. -/
def repetitionMarks : List Char := ['*', '+', '?', '{']

/-- The text without the mark of a lazy repetition in front. It changes nothing here. -/
def withoutLazyMark : Text → Text
  | '?' :: rest => rest
  | rest => rest

/-- The lexeme that starts with `c`. -/
def read (c : Char) (text : Text) : Lexeme :=
  let (element, rest) := Element.read c text
  if c ∈ repetitionMarks ∨ !element.isRepeatable then ⟨element, none, rest⟩
  else
    match Repetition.read? rest with
    | some (r, after) => ⟨element, some r, withoutLazyMark after⟩
    | none => ⟨element, none, rest⟩

end Lexeme

/-! ## A lexeme is part of the text it is read from -/

theorem Element.length_withoutName {content name : Text} (h : name.length ≤ content.length) :
    (withoutName content name).length ≤ content.length := by
  unfold withoutName
  split
  · rename_i hs
    have := congrArg List.length (Text.eq_of_splitAt? hs)
    simp at this
    omega
  · exact Nat.le_refl _

theorem Element.length_bodyOf (content : Text) : (bodyOf content).length ≤ content.length := by
  fun_cases bodyOf content
  · simp; omega
  · exact length_withoutName (by simp; omega)
  · exact length_withoutName (by simp; omega)
  · exact Nat.le_refl _

theorem Element.length_of_ofContent {content body : Text} (h : ofContent content = .group body) :
    body.length ≤ content.length := by
  unfold ofContent at h
  split at h
  · cases h
  · cases h
    exact length_bodyOf content

theorem Element.length_read (c : Char) (text : Text) :
    (read c text).2.length ≤ text.length := by
  unfold read
  split
  · split <;> simp
  · split
    · rename_i h
      simp [Brackets.splitClass?_eq h]
      omega
    · simp
  · split
    · rename_i h
      simp [Brackets.splitGroup?_eq h]
      omega
    · simp
  all_goals exact Nat.le_refl _

theorem Element.length_of_read_group {c : Char} {text body : Text}
    (h : (read c text).1 = .group body) : body.length ≤ text.length := by
  unfold read at h
  split at h
  · split at h <;> cases h
  · split at h <;> cases h
  · split at h
    · rename_i hs
      have := length_of_ofContent h
      simp [Brackets.splitGroup?_eq hs]
      omega
    · exact length_of_ofContent h
  all_goals cases h

theorem Lexeme.length_withoutLazyMark (text : Text) :
    (withoutLazyMark text).length ≤ text.length := by
  fun_cases withoutLazyMark text <;> simp

theorem Lexeme.element_read (c : Char) (text : Text) :
    (read c text).element = (Element.read c text).1 := by
  simp only [read]
  split
  · rfl
  · split <;> rfl

/-- What a lexeme leaves over is no longer than the text after its first character. -/
theorem Lexeme.length_read (c : Char) (text : Text) :
    (read c text).rest.length ≤ text.length := by
  have h := Element.length_read c text
  simp only [read]
  split
  · exact h
  · split
    · rename_i r after hr
      have := Repetition.length_lt_of_read? hr
      have := length_withoutLazyMark after
      change (withoutLazyMark after).length ≤ text.length
      omega
    · exact h

/-- The body of a group is no longer than the text after the first character. -/
theorem Lexeme.length_of_read_group {c : Char} {text body : Text}
    (h : (read c text).element = .group body) : body.length ≤ text.length :=
  Element.length_of_read_group (by rwa [element_read] at h)

end InputMask
