import InputMask.Proofs.Pattern.Forms

/-!
# Repetitions are read as they are written

The spelling of a repetition is one of the forms in which repetitions are read, so it is read
back whatever follows it.

* `Count.Numeral.numeral` — the decimal numeral of a number is one of its numerals.
* `Repetition.form_spelling` — a repetition whose bounds are counts in order is spelled in one
  of the forms.
* `Repetition.read?_spelling` — so it is read back.
* `Repetition.reads_exactly_forms` — what is read as a repetition, and what is not.
-/

namespace InputMask

/-! ## Numerals -/

namespace Count

theorem isDigit_of_mem_numeral {n : Nat} {c : Char} (h : c ∈ numeral n) : c.isDigit = true :=
  Nat.isDigit_of_mem_toDigits (by decide) (by decide) h

/-- A count in decimal is a numeral of it. -/
theorem Numeral.numeral (n : Nat) : Numeral (numeral n) n := by
  have hne : Count.numeral n ≠ [] := Nat.toDigits_ne_nil
  have hvalue : Nat.ofDigitChars 10 (Count.numeral n) 0 = n := Nat.ofDigitChars_ten_toDigits
  simpa only [hvalue] using of_digits hne fun _ => isDigit_of_mem_numeral

end Count

/-! ## Repetitions -/

namespace Repetition

/-- The bounds of a repetition can be written down and read back: they are counts, and in order. -/
structure Spellable (r : Repetition) : Prop where
  least_le : r.least ≤ Count.ceiling
  most_le : ∀ m, r.most = .upTo m → r.least ≤ m ∧ m ≤ Count.ceiling

/-- Each of the spellings is one of the forms. -/
theorem form_spelling {r : Repetition} (h : r.Spellable) : Form r.spelling r := by
  obtain ⟨least, most⟩ := r
  fun_cases spelling ⟨least, most⟩ with
  | case1 hmost hleast =>
    obtain rfl : least = 0 := hleast
    obtain rfl : most = .endless := hmost
    exact .star
  | case2 hmost hleast =>
    obtain rfl : least = 1 := hleast
    obtain rfl : most = .endless := hmost
    exact .plus
  | case3 hmost hleast =>
    obtain rfl : least = 0 := hleast
    obtain rfl : most = .upTo 1 := hmost
    exact .mark
  | case4 hmost =>
    obtain rfl : most = .endless := hmost
    simpa using Form.braced (.endless (.numeral least) h.least_le)
  | case5 hmost =>
    obtain rfl : most = .upTo least := hmost
    exact .braced (.fixed (.numeral least) h.least_le)
  | case6 n hmost =>
    obtain rfl : most = .upTo n := hmost
    obtain ⟨hnm, hm⟩ := h.most_le n rfl
    simpa using Form.braced (.range (.numeral least) (.numeral n) hnm hm)

/-- **A repetition is read back** as it is written, whatever stands after it. -/
theorem read?_spelling {r : Repetition} (h : r.Spellable) (rest : Text) :
    read? (r.spelling ++ rest) = some (r, rest) :=
  read?_eq_some_iff.2 ⟨r.spelling, form_spelling h, rfl⟩

/-- **A repetition is read exactly where one of its forms stands**, with the bounds that the form
says and up to its end, and is not read where none stands. The spelling of a repetition whose
bounds are in order is such a form, and is read back whatever follows it. -/
theorem reads_exactly_forms (text : Text) :
    (∀ r rest, read? text = some (r, rest) ↔ ∃ form, Form form r ∧ text = form ++ rest) ∧
    (read? text = none ↔ ∀ form r, Form form r → ¬ form <+: text) ∧
    ∀ r : Repetition, r.Spellable → read? (r.spelling ++ text) = some (r, text) :=
  ⟨fun _ _ => read?_eq_some_iff, read?_eq_none_iff, fun _ h => read?_spelling h text⟩

/-- Zeros in front are read with the number, and what is another repetition behind the first one
is left. -/
theorem reads_form_before_repetition :
    Repetition.Spellable ⟨2, .upTo 10⟩ ∧
    read? "{2,10}{3}?".toList = some (⟨2, .upTo 10⟩, "{3}?".toList) ∧
    read? "{02,010}{3}?".toList = some (⟨2, .upTo 10⟩, "{3}?".toList) := by
  have hspellable : Repetition.Spellable ⟨2, .upTo 10⟩ := by
    refine ⟨by decide, fun m hm => ?_⟩
    cases hm
    decide
  have hleast : Count.Numeral "02".toList 2 :=
    .of_digits (by decide) (List.all_eq_true.1 (by decide))
  have hmost : Count.Numeral "010".toList 10 :=
    .of_digits (by decide) (List.all_eq_true.1 (by decide))
  have hform : Form "{02,010}".toList ⟨2, .upTo 10⟩ :=
    .braced (.range hleast hmost (by decide) (by decide))
  exact ⟨hspellable, (reads_exactly_forms "{3}?".toList).2.2 _ hspellable,
    ((reads_exactly_forms "{02,010}{3}?".toList).1 _ _).2 ⟨_, hform, rfl⟩⟩

end Repetition

end InputMask
