import InputMask.Text.Basic

/-!
# Closing brackets

Where a class or a group ends. Both scans step over escaped characters, and the
scan for the end of a group also steps over the classes in it, so that a bracket
which is a member of a class closes nothing.

* `splitClass?` — the members of a class and the text after its `]`.
* `splitGroup?` — the content of a group and the text after its `)`.

The `_eq` lemmas say that nothing is lost: the parts and the bracket between them
make up the text again.
-/

namespace InputMask.Brackets

/-- Puts characters in front of the first of two parts. -/
def onto (front : Text) (parts : Text × Text) : Text × Text :=
  (front ++ parts.1, parts.2)

/-- Splits at the first `]` that is not escaped. -/
def splitMembers? : Text → Option (Text × Text)
  | '\\' :: c :: rest => (splitMembers? rest).map (onto ['\\', c])
  | ']' :: rest => some ([], rest)
  | c :: rest => (splitMembers? rest).map (onto [c])
  | [] => none

/-- The mark of a negated class and a `]` that, standing first, is a member. -/
def splitHead : Text → Text × Text
  | '^' :: ']' :: rest => (['^', ']'], rest)
  | '^' :: rest => (['^'], rest)
  | ']' :: rest => ([']'], rest)
  | rest => ([], rest)

/-- Splits the text after a `[` into what the class holds and what follows its `]`. -/
def splitClass? (text : Text) : Option (Text × Text) :=
  (splitMembers? (splitHead text).2).map (onto (splitHead text).1)

theorem map_onto_eq_some {front content after : Text} {parts : Option (Text × Text)} :
    parts.map (onto front) = some (content, after) ↔
      ∃ inner, parts = some (inner, after) ∧ content = front ++ inner := by
  rcases parts with _ | ⟨inner, rest⟩
  · simp
  · simp only [onto, Option.map_some, Option.some.injEq, Prod.mk.injEq]
    constructor
    · rintro ⟨rfl, rfl⟩
      exact ⟨inner, ⟨rfl, rfl⟩, rfl⟩
    · rintro ⟨_, ⟨rfl, rfl⟩, rfl⟩
      exact ⟨rfl, rfl⟩

theorem splitMembers?_eq {text members after : Text}
    (h : splitMembers? text = some (members, after)) : text = members ++ ']' :: after := by
  fun_induction splitMembers? text generalizing members with
  | case1 c rest ih | case3 c rest _ _ ih =>
    obtain ⟨inner, hi, rfl⟩ := map_onto_eq_some.1 h
    simp [ih hi]
  | case2 rest => simp_all
  | case4 => simp at h

theorem splitHead_eq (text : Text) : (splitHead text).1 ++ (splitHead text).2 = text := by
  fun_cases splitHead text <;> simp

theorem splitClass?_eq {text members after : Text}
    (h : splitClass? text = some (members, after)) : text = members ++ ']' :: after := by
  obtain ⟨inner, hi, rfl⟩ := map_onto_eq_some.1 h
  have := splitHead_eq text
  rw [splitMembers?_eq hi] at this
  simpa using this.symm

/-- Splits at the `)` that closes the group whose `(` stands in front of the text. `opened` is
the number of groups opened since and not yet closed. -/
def splitGroup? (opened : Nat) (text : Text) : Option (Text × Text) :=
  match text with
  | '\\' :: c :: rest => (splitGroup? opened rest).map (onto ['\\', c])
  | '[' :: rest =>
    match _h : splitClass? rest with
    | some (members, after) => (splitGroup? opened after).map (onto ('[' :: members ++ [']']))
    | none => (splitGroup? opened rest).map (onto ['['])
  | '(' :: rest => (splitGroup? (opened + 1) rest).map (onto ['('])
  | ')' :: rest =>
    match opened with
    | 0 => some ([], rest)
    | n + 1 => (splitGroup? n rest).map (onto [')'])
  | c :: rest => (splitGroup? opened rest).map (onto [c])
  | [] => none
termination_by text.length
decreasing_by
  all_goals first
    | (simp; done)
    | (simp; omega)
    | (simp [splitClass?_eq ‹splitClass? _ = some _›]; omega)

theorem splitGroup?_eq {opened : Nat} {text content after : Text}
    (h : splitGroup? opened text = some (content, after)) : text = content ++ ')' :: after := by
  fun_induction splitGroup? opened text generalizing content with
  | case1 opened c rest ih =>
    obtain ⟨inner, hi, rfl⟩ := map_onto_eq_some.1 h
    simp [ih hi]
  | case2 opened rest members after hc ih =>
    obtain ⟨inner, hi, rfl⟩ := map_onto_eq_some.1 h
    simp [splitClass?_eq hc, ih hi]
  | case5 => simp_all
  | case8 => simp at h
  | case3 | case4 | case6 | case7 =>
    obtain ⟨inner, hi, rfl⟩ := map_onto_eq_some.1 h
    simp_all

end InputMask.Brackets
