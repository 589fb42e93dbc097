import InputMask.Proofs.Filling.LeftOver

/-!
# Where a filled text ends

Fixed text waits for a typed character to stand in front of. So a text for which slots have
been filled and everything typed has been read ends with something that was typed: with the
last typed character in a slot, or with fixed text that was typed as well.

* `Filling.EndsTyped` — the two ways in which a text can end with what was typed.
* `Filling.Halts` — once a slot is filled and nothing is left to read, the text ends like that.
  `halts_keptBy`: slots and fixed text keep this, and with them every layout.
* `Layout.fill_ends_typed` — how the text of a filled layout ends.
-/

namespace InputMask

namespace Filling

/-- The shown text ends with what was typed: with a slot that took the last typed character that
counts, or with one of some fixed texts, of which something counts. The latter was typed as well:
what counts of it are the last typed characters that count, and the typed text has begun like
the shown text to its end. -/
inductive EndsTyped (typed : Typed) (texts : List Text) (f : Filling) : Prop
  | slot {front : List Cell} {c : Char} (hshown : f.shown = front ++ [⟨c, .typed⟩])
    (hlast : [c] <:+ typed.input)
  | echo {front : List Cell} {text : Text} (hmem : text ∈ texts)
    (hcounts : text.filter typed.counts ≠ [])
    (hshown : f.shown = front ++ Cell.ofText .echoed text)
    (hskipped : text.filter typed.counts <:+ typed.input) (hraw : f.text <+: typed.raw)

section

variable {typed : Typed} {texts : List Text} {f g : Filling}

theorem taken_of_isLeading (h : f.isLeading = true) : f.taken = 0 := by
  simpa using (Bool.and_eq_true_iff.1 h).1

/-- How a text ends depends on nothing but what is shown. -/
theorem EndsTyped.of_shown_eq (h : EndsTyped typed texts f) (hshown : g.shown = f.shown) :
    EndsTyped typed texts g := by
  cases h with
  | slot hend hlast => exact .slot (hshown.trans hend) hlast
  | echo hmem hcounts hend hskipped hraw =>
    have htext : g.text = f.text := congrArg (List.map Cell.char) hshown
    exact .echo hmem hcounts (hshown.trans hend) hskipped (htext ▸ hraw)

/-- Once a slot has been filled and nothing is left to read, the text ends with what was typed. -/
structure Halts (typed : Typed) (texts : List Text) (f : Filling) : Prop extends
    Accounts typed f where
  endsTyped : 0 < f.taken → f.pending = [] → EndsTyped typed texts f

/-- What is left to read is the end of the typed characters that count. -/
theorem Accounts.pending_suffix (h : Accounts typed f) : f.pending <:+ typed.input :=
  ⟨f.used, h.input_eq.symm⟩

/-- Slots that read what is left to the last character end the text with it. -/
theorem Accounts.endsTyped_take (h : Accounts typed f) {n : Nat} (hp : f.pending ≠ [])
    (hspent : (f.take n).pending = []) : EndsTyped typed texts (f.take n) := by
  rw [take_of_pending_ne_nil hp] at hspent ⊢
  have hall : f.pending.take n = f.pending := List.take_of_length_le (List.drop_eq_nil_iff.1 hspent)
  obtain ⟨front, c, hlast⟩ : ∃ front c, f.pending = front ++ [c] := by
    simpa using (List.eq_nil_or_concat f.pending).resolve_left hp
  have hshown : f.shown ++ Cell.ofText .typed (f.pending.take n) =
      (f.shown ++ Cell.ofText .typed front) ++ [⟨c, .typed⟩] := by
    rw [hall, hlast]
    simp [Cell.ofText]
  have hend : [c] <:+ f.pending := ⟨front, hlast.symm⟩
  exact .slot hshown (hend.trans h.pending_suffix)

/-- Fixed text that was typed as well, and with which all that was left is skipped, ends the text
with what was typed. -/
theorem Accounts.endsTyped_place (h : Accounts typed f) {text : Text} (hmem : text ∈ texts)
    (hp : f.pending ≠ []) (hecho : f.Echoes typed text)
    (hspent : (f.place typed text).pending = []) :
    EndsTyped typed texts (f.place typed text) := by
  have hplaces := places typed text (.inl hp)
  have hshown : (f.place typed text).shown = f.shown ++ Cell.ofText .echoed text := by
    rw [place_of_echoes (.inl hp) hecho]
    rfl
  rw [hplaces.pending_of_echoes hecho, List.drop_eq_nil_iff] at hspent
  obtain ⟨hcounts, hraw, hskipped⟩ := hecho
  have hall : text.filter typed.counts = f.pending := hskipped.eq_of_length_le hspent
  refine .echo hmem hcounts hshown ?_ ?_
  · rw [hall]
    exact h.pending_suffix
  · rw [hplaces.text_eq]
    exact hraw

theorem Halts.take (h : Halts typed texts f) (n : Nat) : Halts typed texts (f.take n) where
  toAccounts := h.toAccounts.take n
  endsTyped htaken hspent := by
    by_cases hp : f.pending = []
    · rw [take_of_pending_nil hp] at htaken ⊢
      exact (h.endsTyped htaken hp).of_shown_eq rfl
    · exact h.toAccounts.endsTyped_take hp hspent

/-- Fixed text is no longer shown behind the last typed character; in front of it nothing is read
with the text, unless it was typed as well. -/
theorem Halts.place (h : Halts typed texts f) {text : Text} (hmem : text ∈ texts) :
    Halts typed texts (f.place typed text) where
  toAccounts := h.toAccounts.place text
  endsTyped htaken hspent := by
    by_cases hp : f.pending = []
    · cases hleading : f.isLeading with
      | true =>
        -- no slot has been filled in front of leading text, and none is filled by it
        rw [(places typed text (.inr hleading)).taken_eq, taken_of_isLeading hleading] at htaken
        exact absurd htaken (Nat.lt_irrefl 0)
      | false =>
        rw [place_of_stopping hp hleading] at htaken ⊢
        exact (h.endsTyped htaken hp).of_shown_eq rfl
    · by_cases hecho : f.Echoes typed text
      · exact h.toAccounts.endsTyped_place hmem hp hecho hspent
      · rw [(places typed text (.inl hp)).pending_of_not hecho] at hspent
        exact absurd hspent hp

theorem halts_keptBy (typed : Typed) (texts : List Text) :
    KeptBy typed texts (Halts typed texts) where
  take n _ hf := hf.take n
  place _ hmem _ hf := hf.place hmem
  inBranch b f hf := ⟨(accounts_kept typed).inBranch b f hf.toAccounts,
    fun htaken hspent => (hf.endsTyped htaken hspent).of_shown_eq rfl⟩

end

end Filling

/-- **No separator waits at the end of a text.**  If a slot has been filled and nothing is left to
read, the text ends with the last typed character in a slot, or with fixed text of the layout that
was typed as well. -/
theorem Layout.fill_ends_typed (l : Layout) (typed : Typed) (htaken : 0 < (l.fill typed).taken)
    (hspent : (l.fill typed).pending = []) : Filling.EndsTyped typed l.texts (l.fill typed) := by
  have hstart : Filling.Halts typed l.texts (.start typed) :=
    ⟨Filling.accounts_start typed, fun h => absurd h (Nat.lt_irrefl 0)⟩
  have hfill := (Filling.halts_keptBy typed l.texts).fillAll l _ (List.Subset.refl _) hstart
  exact hfill.endsTyped htaken hspent

/-- The first branch shows a dash and reads nothing with it. The fixed text of the second was typed
as well, and what counts of it is the last digit; what stands behind the choice is not shown. -/
theorem Layout.fill_ends_typed_with_echo :
    ∃ (l : Layout) (typed : Typed), 0 < (l.fill typed).taken ∧ (l.fill typed).pending = [] ∧
      (l.fill typed).text = "1/7.".toList ∧
      Filling.EndsTyped typed l.texts (l.fill typed) := by
  refine ⟨[.slots 1, .either [[.fixed ['-']], [.fixed "/7.".toList]], .fixed ['!']],
    ⟨"1/7.".toList, Char.isDigit⟩, by decide, by decide, by decide, ?_⟩
  exact Layout.fill_ends_typed _ _ (by decide) (by decide)

end InputMask
