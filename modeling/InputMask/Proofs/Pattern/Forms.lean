import InputMask.Repetition
import Mathlib.Data.List.Induction

/-!
# The forms of a repetition

What is read as a repetition is stated apart from the reader: the texts between braces are
numerals with their place value, alone, before a comma, or on both sides of one. A text has a
repetition at its start exactly if one of the six forms stands there, and then only one does.

* `Count.Numeral`, `Repetition.Braced`, `Repetition.Form` — the numerals, the texts between
  braces and the six forms, each with what it says.
* `Count.read?_eq_some_iff`, `Repetition.ofBraced?_eq_some_iff`,
  `Repetition.read?_eq_some_iff` — each reader accepts these texts and no other.
* `Repetition.Form.eq_of_prefix` — none of the forms begins another one.
* `Repetition.least_le_of_read?` — the bounds that are read are in order.
-/

namespace InputMask

/-! ## Splitting at a mark -/

namespace Text

theorem splitAt?_eq_none {mark : Char} {text : Text} (h : mark ∉ text) :
    splitAt? mark text = none := by
  induction text with
  | nil => rfl
  | cons c rest ih =>
    obtain ⟨hc, hrest⟩ := List.ne_and_not_mem_of_not_mem_cons h
    rw [splitAt?, if_neg (Ne.symm hc), ih hrest, Option.map_none]

/-- A text is split at the first mark in it. -/
theorem splitAt?_append {mark : Char} {before : Text} (h : mark ∉ before) (after : Text) :
    splitAt? mark (before ++ mark :: after) = some (before, after) := by
  induction before with
  | nil => simp [splitAt?]
  | cons c rest ih =>
    obtain ⟨hc, hrest⟩ := List.ne_and_not_mem_of_not_mem_cons h
    rw [List.cons_append, splitAt?, if_neg (Ne.symm hc), ih hrest, Option.map_some]

/-- There is no mark in front of the first one. -/
theorem notMem_of_splitAt? {mark : Char} {text before after : Text}
    (h : splitAt? mark text = some (before, after)) : mark ∉ before := by
  induction text generalizing before with
  | nil => cases h
  | cons c rest ih =>
    rw [splitAt?] at h
    split at h
    · cases h
      exact List.not_mem_nil
    · rename_i hc
      obtain ⟨⟨front, back⟩, hfront, hparts⟩ := Option.map_eq_some_iff.1 h
      cases hparts
      exact List.not_mem_cons_of_ne_of_not_mem (Ne.symm hc) (ih hfront)

end Text

/-! ## Numerals -/

namespace Count

/-- The decimal numerals of a number: digits, at least one, each worth ten times the one after
it. Zeros may stand in front. -/
inductive Numeral : Text → Nat → Prop
  | digit {c : Char} (hc : c.isDigit = true) : Numeral [c] (c.toNat - '0'.toNat)
  | snoc {text : Text} {n : Nat} {c : Char} (front : Numeral text n) (hc : c.isDigit = true) :
    Numeral (text ++ [c]) (10 * n + (c.toNat - '0'.toNat))

namespace Numeral

variable {text : Text} {n : Nat}

theorem ne_nil (h : Numeral text n) : text ≠ [] := by
  cases h <;> simp

theorem isDigit (h : Numeral text n) : ∀ c ∈ text, c.isDigit = true := by
  induction h with
  | digit hc => simpa using hc
  | snoc _ hc ih => exact List.forall_mem_append.2 ⟨ih, List.forall_mem_singleton.2 hc⟩

theorem notMem (h : Numeral text n) {c : Char} (hc : c.isDigit = false) : c ∉ text := by
  intro hmem
  rw [h.isDigit c hmem] at hc
  cases hc

theorem ofDigitChars_eq (h : Numeral text n) : Nat.ofDigitChars 10 text 0 = n := by
  induction h with
  | digit hc => simp [Nat.ofDigitChars]
  | snoc _ _ ih => rw [Nat.ofDigitChars_append, ih]; simp [Nat.ofDigitChars]

/-- Digits in a row are a numeral of the number that their places give. -/
theorem of_digits (hne : text ≠ []) (hdigits : ∀ c ∈ text, c.isDigit = true) :
    Numeral text (Nat.ofDigitChars 10 text 0) := by
  induction text using List.reverseRecOn with
  | nil => exact absurd rfl hne
  | append_singleton front c ih =>
    obtain ⟨hfront, hc⟩ := List.forall_mem_append.1 hdigits
    have hc : c.isDigit = true := hc c (List.mem_singleton_self c)
    rcases eq_or_ne front [] with rfl | hfrontne
    · simpa [Nat.ofDigitChars] using digit hc
    · simpa [Nat.ofDigitChars] using snoc (ih hfrontne hfront) hc

end Numeral

/-- A text is read as a count exactly if it is a numeral of one. -/
theorem read?_eq_some_iff {text : Text} {n : Nat} :
    read? text = some n ↔ Numeral text n ∧ n ≤ ceiling := by
  rw [read?]
  constructor
  · intro h
    split at h
    · cases h
    · rename_i hword
      obtain ⟨hne, hdigits⟩ : text ≠ [] ∧ ∀ c ∈ text, c.isDigit = true := by simpa using hword
      obtain ⟨hle, hvalue⟩ : Nat.ofDigitChars 10 text 0 ≤ ceiling ∧
        Nat.ofDigitChars 10 text 0 = n := by simpa using h
      subst hvalue
      exact ⟨.of_digits hne hdigits, hle⟩
  · rintro ⟨hnumeral, hle⟩
    have hword : ¬ (text.isEmpty || !text.all Char.isDigit) = true := by
      simpa using ⟨hnumeral.ne_nil, hnumeral.isDigit⟩
    rw [if_neg hword, hnumeral.ofDigitChars_eq]
    exact if_pos hle

end Count

/-! ## Repetitions -/

namespace Repetition

/-- What may stand between braces, and how often it says that the item occurs. -/
inductive Braced : Text → Repetition → Prop
  | fixed {text : Text} {n : Nat} (h : Count.Numeral text n) (hle : n ≤ Count.ceiling) :
    Braced text ⟨n, .upTo n⟩
  | endless {text : Text} {n : Nat} (h : Count.Numeral text n) (hle : n ≤ Count.ceiling) :
    Braced (text ++ [',']) ⟨n, .endless⟩
  | range {least most : Text} {n m : Nat} (hleast : Count.Numeral least n)
    (hmost : Count.Numeral most m) (hnm : n ≤ m) (hle : m ≤ Count.ceiling) :
    Braced (least ++ ',' :: most) ⟨n, .upTo m⟩

/-- The six forms of a repetition. -/
inductive Form : Text → Repetition → Prop
  | star : Form ['*'] ⟨0, .endless⟩
  | plus : Form ['+'] ⟨1, .endless⟩
  | mark : Form ['?'] ⟨0, .upTo 1⟩
  | braced {body : Text} {r : Repetition} (h : Braced body r) : Form ('{' :: body ++ ['}']) r

theorem Braced.notMem {body : Text} {r : Repetition} (h : Braced body r) : '}' ∉ body := by
  cases h with
  | fixed h _ => exact h.notMem (by decide)
  | endless h _ => simpa using h.notMem (c := '}') (by decide)
  | range hleast hmost _ _ =>
    simpa using ⟨hleast.notMem (c := '}') (by decide), hmost.notMem (c := '}') (by decide)⟩

/-- What stands between braces is read exactly if it is a count, a count and a comma, or two
counts in order. -/
theorem ofBraced?_eq_some_iff {body : Text} {r : Repetition} :
    ofBraced? body = some r ↔ Braced body r := by
  constructor
  · intro h
    rw [ofBraced?] at h
    split at h
    · obtain ⟨n, hn, rfl⟩ := Option.map_eq_some_iff.1 h
      obtain ⟨hn, hle⟩ := Count.read?_eq_some_iff.1 hn
      exact .fixed hn hle
    · rename_i least hsplit
      obtain ⟨n, hn, rfl⟩ := Option.map_eq_some_iff.1 h
      obtain ⟨hn, hle⟩ := Count.read?_eq_some_iff.1 hn
      rw [Text.eq_of_splitAt? hsplit]
      exact .endless hn hle
    · rename_i least most _ hsplit
      obtain ⟨n, hn, h⟩ := Option.bind_eq_some_iff.1 h
      obtain ⟨m, hm, h⟩ := Option.bind_eq_some_iff.1 h
      obtain ⟨hnm, hr⟩ := Option.ite_none_right_eq_some.1 h
      cases hr
      obtain ⟨hn, -⟩ := Count.read?_eq_some_iff.1 hn
      obtain ⟨hm, hle⟩ := Count.read?_eq_some_iff.1 hm
      rw [Text.eq_of_splitAt? hsplit]
      exact .range hn hm hnm hle
  · intro h
    have hcomma : ∀ {text n}, Count.Numeral text n → ',' ∉ text := fun h => h.notMem (by decide)
    cases h with
    | fixed h hle =>
      rw [ofBraced?, Text.splitAt?_eq_none (hcomma h), Count.read?_eq_some_iff.2 ⟨h, hle⟩,
        Option.map_some]
    | endless h hle =>
      rw [ofBraced?, Text.splitAt?_append (hcomma h) []]
      simp only [Count.read?_eq_some_iff.2 ⟨h, hle⟩, Option.map_some]
    | @range least most n m hleast hmost hnm hle =>
      obtain ⟨d, ds, rfl⟩ := List.exists_cons_of_ne_nil hmost.ne_nil
      rw [ofBraced?, Text.splitAt?_append (hcomma hleast)]
      simp only [Count.read?_eq_some_iff.2 ⟨hmost, hle⟩,
        Count.read?_eq_some_iff.2 ⟨hleast, Nat.le_trans hnm hle⟩, Option.bind_eq_bind,
        Option.bind_some, if_pos hnm]

/-- What stands between braces is read up to the closing one. -/
theorem read?_braced {body : Text} {r : Repetition} (hbody : '}' ∉ body)
    (h : ofBraced? body = some r) (rest : Text) :
    read? ('{' :: body ++ '}' :: rest) = some (r, rest) := by
  rw [List.cons_append, read?, Text.splitAt?_append hbody]
  simp [h]

/-- A text begins with a repetition exactly if one of the forms stands at its start: the
repetition is what that form says, and what stands after the form is left. -/
theorem read?_eq_some_iff {text rest : Text} {r : Repetition} :
    read? text = some (r, rest) ↔ ∃ form, Form form r ∧ text = form ++ rest := by
  constructor
  · intro h
    unfold read? at h
    split at h
    · cases h
      exact ⟨['*'], .star, rfl⟩
    · cases h
      exact ⟨['+'], .plus, rfl⟩
    · cases h
      exact ⟨['?'], .mark, rfl⟩
    · obtain ⟨⟨body, after⟩, hsplit, h⟩ := Option.bind_eq_some_iff.1 h
      obtain ⟨q, hq, h⟩ := Option.bind_eq_some_iff.1 h
      cases h
      refine ⟨'{' :: body ++ ['}'], .braced (ofBraced?_eq_some_iff.1 hq), ?_⟩
      rw [Text.eq_of_splitAt? hsplit]
      simp
    · cases h
  · rintro ⟨form, hform, rfl⟩
    cases hform with
    | star | plus | mark => rfl
    | braced h => simpa using read?_braced h.notMem (ofBraced?_eq_some_iff.2 h) rest

/-- None of the forms begins another one: a text has at most one of them at its start. -/
theorem Form.eq_of_prefix {form form' text : Text} {r r' : Repetition} (h : Form form r)
    (h' : Form form' r') (hp : form <+: text) (hp' : form' <+: text) : form = form' ∧ r = r' := by
  obtain ⟨rest, rfl⟩ := hp
  obtain ⟨rest', hrest'⟩ := hp'
  have hread : read? (form ++ rest) = some (r, rest) := read?_eq_some_iff.2 ⟨form, h, rfl⟩
  rw [read?_eq_some_iff.2 ⟨form', h', hrest'.symm⟩] at hread
  cases hread
  exact ⟨(List.append_cancel_right hrest').symm, rfl⟩

/-- Where none of the forms stands, there is no repetition. -/
theorem read?_eq_none_iff {text : Text} :
    read? text = none ↔ ∀ form r, Form form r → ¬ form <+: text := by
  rw [Option.eq_none_iff_forall_ne_some]
  constructor
  · rintro hnone form r hform ⟨rest, rfl⟩
    exact hnone (r, rest) (read?_eq_some_iff.2 ⟨form, hform, rfl⟩)
  · rintro hnone ⟨r, rest⟩ h
    obtain ⟨form, hform, rfl⟩ := read?_eq_some_iff.1 h
    exact hnone form r hform (List.prefix_append form rest)

/-- The bounds that a form says are in order. -/
theorem Form.least_le {form : Text} {r : Repetition} {m : Nat} (h : Form form r)
    (hm : r.most = .upTo m) : r.least ≤ m := by
  cases h with
  | star | plus => cases hm
  | mark => exact Nat.zero_le _
  | braced h =>
    cases h with
    | fixed =>
      cases hm
      exact Nat.le_refl _
    | endless => cases hm
    | range _ _ hnm _ =>
      cases hm
      exact hnm

/-- A repetition that is read can be met: its bounds are in order. -/
theorem least_le_of_read? {text rest : Text} {r : Repetition} {m : Nat}
    (h : read? text = some (r, rest)) (hm : r.most = .upTo m) : r.least ≤ m := by
  obtain ⟨form, hform, -⟩ := read?_eq_some_iff.1 h
  exact hform.least_le hm

end Repetition

end InputMask
