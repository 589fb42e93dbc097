/-!
# Texts

Everything the library reads, shows or compares is a `Text`: a list of
characters. Positions and lengths count characters; only the room that a text
takes is measured in bytes of UTF-8.

* `Text.bytes` — the room a text takes.
* `Text.copies`, `Text.repeated` — a text written several times in a row, without
  and with the check that the result can be held at all.
* `Text.behind` — the same check for a text that is put behind another.
* `Text.notAfter` — the order of code points.
* `Text.splitAt?` — the two sides of the first occurrence of a character.
-/

namespace InputMask

/-- A text is the list of its characters. -/
abbrev Text := List Char

/-- The one way in which building a text can fail. -/
inductive TextError where
  /-- The text would need more than `Text.capacity` bytes. -/
  | tooLong
deriving DecidableEq, Repr

/-- The words in which a failure is reported. -/
def TextError.message : TextError → String
  | .tooLong => "capacity overflow"

/-- A computation in two parts gives a value only if both parts do. -/
theorem TextError.bind_eq_ok {α β : Type} {x : Except TextError α} {f : α → Except TextError β}
    {b : β} : x >>= f = .ok b ↔ ∃ a, x = .ok a ∧ f a = .ok b := by
  constructor
  · intro h
    cases x with
    | error e => cases h
    | ok a => exact ⟨a, rfl, h⟩
  · rintro ⟨a, rfl, h⟩
    exact h

namespace Text

/-- The most bytes that one text may take: the largest number of 63 bits. -/
def capacity : Nat := 0x7FFFFFFFFFFFFFFF

/-- The bytes of UTF-8 that a text takes. -/
def bytes : Text → Nat
  | [] => 0
  | c :: rest => c.utf8Size + bytes rest

/-- A text written `n` times in a row. Nothing written often is still nothing, so the
empty text is not counted out. -/
def copies (n : Nat) (text : Text) : Text :=
  if text.isEmpty then [] else (List.replicate n text).flatten

/-- A text written `n` times in a row, refused when the result cannot be held. -/
def repeated (n : Nat) (text : Text) : Except TextError Text :=
  if text.bytes * n ≤ capacity then .ok (text.copies n) else .error .tooLong

/-- A text that is put behind `used` bytes of another one, refused when both together cannot be
held. -/
def behind (used : Nat) (text : Text) : Except TextError Text :=
  if used + text.bytes ≤ capacity then .ok text else .error .tooLong

/-- Whether a text can be written out as a list of characters, with four bytes for each. -/
def isListable (text : Text) : Bool :=
  4 * text.length ≤ capacity

/-- Whether a text does not come after another in the order of code points. -/
def notAfter : Text → Text → Bool
  | [], _ => true
  | _ :: _, [] => false
  | a :: as, b :: bs => a.toNat < b.toNat || (a == b && notAfter as bs)

/-- The parts of a text before and after the first `mark` in it. -/
def splitAt? (mark : Char) : Text → Option (Text × Text)
  | [] => none
  | c :: rest =>
    if c = mark then some ([], rest)
    else (splitAt? mark rest).map fun (before, after) => (c :: before, after)

@[simp] theorem bytes_nil : bytes [] = 0 := rfl

@[simp] theorem bytes_cons (c : Char) (rest : Text) :
    bytes (c :: rest) = c.utf8Size + bytes rest := rfl

theorem bytes_append (a b : Text) : bytes (a ++ b) = bytes a + bytes b := by
  induction a with
  | nil => simp
  | cons c rest ih => simp [ih, Nat.add_assoc]

/-- `copies` is plain repetition; the empty text is only answered sooner. -/
theorem copies_eq_flatten (n : Nat) (text : Text) :
    copies n text = (List.replicate n text).flatten := by
  cases text <;> simp [copies]

/-- Nothing happens to a text that is put behind another, as long as both fit. -/
theorem behind_eq_ok {used : Nat} {text put : Text} :
    behind used text = .ok put ↔ used + text.bytes ≤ capacity ∧ put = text := by
  unfold behind
  split
  · simp_all [eq_comm]
  · simp
    omega

/-- The two sides and the mark between them make up the text again. -/
theorem eq_of_splitAt? {mark : Char} {text before after : Text}
    (h : splitAt? mark text = some (before, after)) : text = before ++ mark :: after := by
  induction text generalizing before with
  | nil => simp [splitAt?] at h
  | cons c rest ih =>
    rw [splitAt?] at h
    split at h
    · simp_all
    · obtain ⟨⟨b, a⟩, hb, hab⟩ := Option.map_eq_some_iff.1 h
      obtain ⟨rfl, rfl⟩ := Prod.mk.inj hab
      simp [ih hb]

end Text

end InputMask
