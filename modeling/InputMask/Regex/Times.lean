import InputMask.Regex.Basic

/-!
# Repetitions in regular expressions

`?`, `*`, `+` and the braces `{n}`, `{n,}`, `{n,m}`, `{,m}` and `{,}`. A brace that
is none of these is no repetition. `Times.readAfter?` reads what follows an expression;
its length lemma says that it reads from the front.
-/

namespace InputMask.Regex

/-- A repetition in a text: its bounds and the text after it. -/
structure Times where
  least : Nat
  most : Extent
  isLazy : Bool
  rest : Text
deriving Repr

namespace Times

/-- The count at the start of a text. -/
def readCount? (text : Text) : Option (Nat × Text) :=
  (Count.read? (text.takeWhile Char.isDigit)).map (·, text.dropWhile Char.isDigit)

/-- The second count and the end of a brace. Without a count there is no upper bound. -/
def readMost? (least : Nat) (text : Text) : Option Times :=
  match readCount? text with
  | some (n, '}' :: rest) => some ⟨least, boundOf n, false, rest⟩
  | some _ => none
  | none =>
    match text with
    | '}' :: rest => some ⟨least, .endless, false, rest⟩
    | _ => none

/-- The counts after the opening brace. If there is only a second one, the first is zero. -/
def readBraces? (text : Text) : Option Times :=
  match readCount? text with
  | some (n, '}' :: rest) => some ⟨n, boundOf n, false, rest⟩
  | some (n, ',' :: rest) => readMost? n rest
  | some _ => none
  | none =>
    match text with
    | ',' :: rest => readMost? 0 rest
    | _ => none

/-- The repetition at the start of a text. -/
def read? : Text → Option Times
  | '?' :: rest => some ⟨0, .upTo 1, false, rest⟩
  | '*' :: rest => some ⟨0, .endless, false, rest⟩
  | '+' :: rest => some ⟨1, .endless, false, rest⟩
  | '{' :: rest => readBraces? rest
  | _ => none

/-- The repetition with the mark after it, which makes it lazy. -/
def withLazyMark (times : Times) : Times :=
  match times.rest with
  | '?' :: rest => { times with isLazy := true, rest := rest }
  | _ => times

/-- An expression with the repetition that follows it, if one does. It is refused where the
expression is not repeatable. -/
def readAfter? (body : Regex) (text : Text) : Option (Regex × Text) :=
  match (read? text).map withLazyMark with
  | none => some (body, text)
  | some times =>
    if body.isRepeatable then
      some (.repeated body times.least times.most times.isLazy, times.rest)
    else none

/-! ## A repetition is part of the text it is read from -/

theorem length_of_readCount? {text rest : Text} {n : Nat}
    (h : readCount? text = some (n, rest)) : rest.length ≤ text.length := by
  obtain ⟨m, -, he⟩ := Option.map_eq_some_iff.1 h
  obtain ⟨-, rfl⟩ := Prod.mk.inj he
  exact (List.dropWhile_sublist _).length_le

theorem length_of_readMost? {text : Text} {least : Nat} {times : Times}
    (h : readMost? least text = some times) : times.rest.length < text.length := by
  unfold readMost? at h
  split at h
  · rename_i hn
    have := length_of_readCount? hn
    cases h
    simp at this ⊢
    omega
  · cases h
  · split at h
    · cases h
      simp
    · cases h

theorem length_of_readBraces? {text : Text} {times : Times}
    (h : readBraces? text = some times) : times.rest.length < text.length := by
  unfold readBraces? at h
  split at h
  · rename_i hn
    have := length_of_readCount? hn
    cases h
    simp at this ⊢
    omega
  · rename_i hn
    have := length_of_readCount? hn
    have := length_of_readMost? h
    simp at *
    omega
  · cases h
  · split at h
    · have := length_of_readMost? h
      simp
      omega
    · cases h

theorem length_of_read? {text : Text} {times : Times} (h : read? text = some times) :
    times.rest.length < text.length := by
  unfold read? at h
  split at h
  · cases h; simp
  · cases h; simp
  · cases h; simp
  · have := length_of_readBraces? h
    simp
    omega
  · cases h

theorem length_withLazyMark (times : Times) :
    times.withLazyMark.rest.length ≤ times.rest.length := by
  unfold withLazyMark
  split
  · rename_i h
    simp [h]
  · exact Nat.le_refl _

/-- What is left after an expression and its repetition is no longer than what was there. -/
theorem length_of_readAfter? {body e : Regex} {text rest : Text}
    (h : readAfter? body text = some (e, rest)) : rest.length ≤ text.length := by
  unfold readAfter? at h
  split at h
  · cases h
    exact Nat.le_refl _
  · rename_i times ht
    obtain ⟨t, hr, rfl⟩ := Option.map_eq_some_iff.1 ht
    have := length_of_read? hr
    have := length_withLazyMark t
    split at h
    · cases h
      omega
    · cases h

end Times

end InputMask.Regex
