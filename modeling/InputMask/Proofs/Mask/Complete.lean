import InputMask.Proofs.Layout.Fills
import InputMask.Proofs.Layout.Literals
import InputMask.Proofs.Mask.Display

/-!
# Displaying complete texts

A text that matches a straight pattern in full, and whose typed part counts, is displayed
as it is. One thing is left out by design: fixed text is only shown once something comes
after it, so silent text at the end is not.

* `ReadsBack.of_fills` — a text that fills the front of a layout is in its form, if nothing
  is shown after it. `Layout.fill_of_fills`: so it is given back.
* `Mask.exists_filled_layout` — a straight pattern can be laid out if its longest matches can be
  held.
* `Mask.display_complete` — a complete text is displayed up to silent text at its end.
-/

namespace InputMask

/-! ## Full texts are read back -/

section

variable {counts : Char → Bool} {begun : Bool}

/-- Something counts in a text that fills steps of which slots come first. -/
theorem Fills.counted_of_slots {n : Nat} {rest : List Step} {w : Text}
    (h : Fills counts (.slots n :: rest) w) (hn : n ≠ 0) : w.filter counts ≠ [] := by
  obtain ⟨u, v, rfl, rfl, hu, -⟩ := h.of_slots
  rw [List.filter_append, List.filter_eq_self.2 hu]
  exact List.append_ne_nil_of_left_ne_nil (by simpa using hn) _

theorem Text.isListable_append {u v : Text} (h : Text.isListable (u ++ v) = true) :
    Text.isListable u = true ∧ Text.isListable v = true := by
  simp only [Text.isListable, List.length_append, decide_eq_true_eq] at h ⊢
  omega

/-- A text that fills the steps in front, and no more, is read back if what counts in it can be
listed and the steps behind show nothing once slots have been filled. -/
theorem ReadsBack.of_fills {front back : List Step} {w : Text} (h : Fills counts front w)
    (hnormal : normalSteps front) (hend : EndsCounted counts begun front)
    (hlist : Text.isListable (w.filter counts) = true)
    (hback : ∀ b, (begun = true ∨ (∃ n, .slots n ∈ front) → b = true) →
      ReadsBack counts b back []) : ReadsBack counts begun (front ++ back) w := by
  induction h generalizing begun with
  | nil =>
    refine hback begun fun hb => ?_
    rcases hb with hb | ⟨n, hn⟩
    · exact hb
    · cases hn
  | @slots u v rest hu hv ih =>
    have hune : u ≠ [] := List.ne_nil_of_length_pos (Nat.pos_of_ne_zero hnormal.1)
    rw [List.filter_append] at hlist
    refine .filled hune hu (ih hnormal.2.2 hend.of_slots (Text.isListable_append hlist).2 ?_)
    exact fun b hb => hback b fun _ => hb (Or.inl rfl)
  | @fixed v rest text hv ih =>
    rw [List.filter_append] at hlist
    obtain ⟨htextlist, hvlist⟩ := Text.isListable_append hlist
    refine .shown ?_ htextlist
      (ih hnormal.2.2 hend.of_fixed hvlist fun b hb => hback b fun hor => hb ?_)
    · intro hbegun hnil
      obtain ⟨htext, hvnil⟩ := List.append_eq_nil_iff.1 (List.filter_append .. ▸ hnil)
      cases hv with
      | nil => exact hend [] text rfl (Or.inl hbegun) htext
      | slots hx hy => exact (Fills.slots hx hy).counted_of_slots hnormal.2.2.1 hvnil
      | fixed other hy => exact hnormal.2.1 _ rfl trivial
    · rcases hor with hb | ⟨n, hn⟩
      · exact Or.inl hb
      · exact Or.inr ⟨n, by simpa using hn⟩

/-- A text that fills a layout is in its form. -/
theorem ReadsBack.of_fills_layout {l : Layout} (hnormal : l.Normal)
    (hend : ¬ l.EndsSilently counts) {w : Text} (h : Fills counts l w)
    (hlist : Text.isListable (w.filter counts) = true) : ReadsBack counts false l w := by
  rw [← List.append_nil l]
  exact .of_fills h hnormal (Layout.endsCounted hend) hlist fun b _ => .nil b

/-- A text that fills a layout is in its form without the silent text at its end. -/
theorem ReadsBack.of_fills_silent {front : List Step} {text : Text}
    (hnormal : normalSteps (front ++ [.fixed text])) (hslots : ∃ n, .slots n ∈ front)
    {w : Text} (h : Fills counts (front ++ [.fixed text]) w)
    (hlist : Text.isListable (w.filter counts) = true) :
    ∃ u, w = u ++ text ∧ ReadsBack counts false (front ++ [.fixed text]) u := by
  obtain ⟨u, v, rfl, hu, hv⟩ := h.of_append
  obtain rfl : v = text := by
    cases hv with
    | fixed _ hnil => cases hnil; simp
  -- two fixed texts never stand side by side, so the front does not end in one
  have hend : EndsCounted counts false front := by
    rintro first other rfl - -
    rw [List.append_assoc] at hnormal
    exact (normalSteps_back hnormal).2.1 _ rfl trivial
  rw [List.filter_append] at hlist
  refine ⟨u, rfl, .of_fills hu (normalSteps_front hnormal) hend (Text.isListable_append hlist).1
    fun b hb => ?_⟩
  rw [hb (Or.inr hslots)]
  exact .waiting v []

/-- A text that fills a layout is given back up to silent text at its end, and there is room for
that. -/
theorem Layout.fill_of_fills {l : Layout} (hnormal : l.Normal) {w : Text} (h : Fills counts l w)
    (hroom : w.bytes ≤ Text.capacity) (hlist : Text.isListable (w.filter counts) = true) :
    l.fillFits ⟨w, counts⟩ = true ∧
      (¬ l.EndsSilently counts → (l.fill ⟨w, counts⟩).text = w) ∧
      ∀ front text, l = front ++ [.fixed text] → (∃ n, .slots n ∈ front) →
        (∀ c ∈ text, counts c = false) → (l.fill ⟨w, counts⟩).text ++ text = w := by
  have hfull : ¬ l.EndsSilently counts → l.fillFits ⟨w, counts⟩ = true ∧
      (l.fill ⟨w, counts⟩).text = w :=
    fun hend => (ReadsBack.of_fills_layout hnormal hend h hlist).given_back hroom
  have hsilent : ∀ front text, l = front ++ [.fixed text] → (∃ n, .slots n ∈ front) →
      (∀ c ∈ text, counts c = false) → l.fillFits ⟨w, counts⟩ = true ∧
        (l.fill ⟨w, counts⟩).text ++ text = w := by
    rintro front text rfl hslots htext
    obtain ⟨u, rfl, hback⟩ := ReadsBack.of_fills_silent hnormal hslots h hlist
    rw [Text.bytes_append] at hroom
    exact ⟨hback.fillFits htext (by omega), by rw [hback.text_fill htext]⟩
  refine ⟨?_, fun hend => (hfull hend).2, fun front text hl hslots htext =>
    (hsilent front text hl hslots htext).2⟩
  by_cases hend : l.EndsSilently counts
  · obtain ⟨front, text, hl, hslots, htext⟩ := hend
    exact (hsilent front text hl hslots htext).1
  · exact (hfull hend).1

end

/-! ## Straight patterns can be laid out -/

mutual

theorem Piece.exists_steps (limit : Nat) : ∀ piece : Piece, piece.Everywhere Piece.Straight →
    ∃ steps, piece.steps limit = .ok steps
  | ⟨.literal _ meant, times⟩, h => by
    have honce : Repetition.isAtMostOnce times = true := h.1.isAtMostOnce fun text => by simp
    rw [Piece.steps, if_pos honce]
    exact ⟨_, rfl⟩
  | ⟨.charClass _, _⟩, _ => ⟨_, rfl⟩
  | ⟨.group body, times⟩, h => by
    have honce : Repetition.isAtMostOnce times = true := h.1.isAtMostOnce fun text => by simp
    rw [Piece.steps, if_pos honce]
    exact exists_stepsOfAll limit body h.2
  | ⟨.choice branches, _⟩, h => absurd rfl (h.1.not_choice branches)
  | ⟨.anchor _, _⟩, _ => ⟨_, rfl⟩
  | ⟨.lookaround _, _⟩, _ => ⟨_, rfl⟩

theorem exists_stepsOfAll (limit : Nat) : ∀ pieces : List Piece,
    everywhereInAll Piece.Straight pieces → ∃ steps, stepsOfAll limit pieces = .ok steps
  | [], _ => ⟨[], rfl⟩
  | piece :: rest, h => by
    obtain ⟨front, hf⟩ := Piece.exists_steps limit piece h.1
    obtain ⟨back, hb⟩ := exists_stepsOfAll limit rest h.2
    refine ⟨front ++ back, ?_⟩
    rw [stepsOfAll, hf, hb]
    rfl

end

/-- A letter counts, whatever the settings. -/
theorem Settings.counts_letter (settings : Settings) : settings.counts 'a' = true := by
  have h : Unicode.isAlphanumeric 'a' = true := by decide
  rw [Settings.counts, h, Bool.true_or]

namespace Mask

variable {m : Mask} {s : Sequence}

/-- The layout of a straight pattern can be held if the longest matches can, and those that are
typed fill it. -/
theorem exists_filled_layout (hs : m.reading = .ok s) (hstraight : s.Straight) {w : Text}
    (hw : w ∈ s.languageOver (m.settings.counts · = true)) (hlong : s.longest = .upTo w.length)
    (hroom : w.bytes ≤ Text.capacity) :
    ∃ l, m.layout = .ok l ∧ Fills m.settings.counts l w := by
  have hsound := sound_of_reading hs
  obtain ⟨steps, hsteps⟩ := exists_stepsOfAll m.settings.limit s hstraight
  obtain ⟨l, hmerge⟩ := (Sequence.fills_steps hsound hstraight m.settings.counts_letter hsteps hw
    hlong).exists_merge hroom (le_ceiling_of_longestOfAll hlong)
  have hlayout : s.layout m.settings.limit = .ok l :=
    Sequence.layout_eq_ok.2 ⟨steps, hsteps, hmerge⟩
  exact ⟨l, (layout_of_reading hs).trans hlayout,
    Sequence.fills_layout hsound hstraight m.settings.counts_letter hlayout hw hlong⟩

/-- A text is displayed as the layout is filled with it, if there is room for that. -/
theorem exists_display (hs : m.reading = .ok s) (hstated : s.statedLength? = none) {l : Layout}
    (hl : m.layout = .ok l) {raw : Text} (hfits : l.fillFits (m.typed raw) = true) :
    ∃ d, m.display raw = .ok d ∧ d.text = (l.fill (m.typed raw)).text := by
  obtain ⟨a, ha⟩ : ∃ a, m.analysis = .ok a := by
    rw [analysis, hs]
    exact Sequence.exists_analysis_of_layout (layout_of_reading hs ▸ hl)
  refine ⟨l.display s.longest (m.typed raw), ?_, text_display hs hl (m.typed raw)⟩
  rw [display_eq_present hs hl ha, longest_of_analysis hs hstated ha]
  exact Layout.present_eq_ok.2 ⟨hfits, rfl⟩

/-- **A complete text is displayed as it is**, up to text at its end of which nothing counts: in
a pattern without alternatives in which only classes are repeated, for a longest match whose
characters in classes all count. The match is a text that can be held, and those of its characters
that count can be listed. -/
theorem display_complete (hs : m.reading = .ok s) (hstated : s.statedLength? = none)
    (hstraight : s.Straight) {n : Nat} (hn : s.longest = .upTo n) {w : Text}
    (hw : w ∈ s.languageOver (m.settings.counts · = true)) (hlength : w.length = n)
    (hroom : w.bytes ≤ Text.capacity)
    (hlist : Text.isListable (m.settings.countedOf w) = true) :
    ∃ l d, m.layout = .ok l ∧ m.display w = .ok d ∧
      (¬ l.EndsSilently m.settings.counts → d.text = w) ∧
      ∀ front text, l = front ++ [.fixed text] → (∃ n, .slots n ∈ front) →
        (∀ c ∈ text, m.settings.counts c = false) → d.text ++ text = w := by
  obtain ⟨l, hl, hfills⟩ := exists_filled_layout hs hstraight hw (by rw [hn, hlength]) hroom
  have hnormal : l.Normal := Sequence.normal_layout (layout_of_reading hs ▸ hl)
  obtain ⟨hfits, hfull, hsilent⟩ := Layout.fill_of_fills hnormal hfills hroom hlist
  obtain ⟨d, hd, htext⟩ := exists_display hs hstated hl hfits
  rw [typed] at htext
  rw [← htext] at hfull hsilent
  exact ⟨l, d, hl, hd, hfull, hsilent⟩

/-- A digit in fixed text, a group, and a class that is repeated. -/
theorem display_complete_group :
    ∃ d, Mask.display ⟨"7([0-9]{2}-)x".toList, {}⟩ "712-x".toList = .ok d ∧
      d.text = "712-x".toList := by
  have hs : Mask.reading ⟨"7([0-9]{2}-)x".toList, {}⟩ =
      .ok [⟨.plain ['7'], none⟩, ⟨.group [⟨.charClass "[0-9]".toList, some ⟨2, .upTo 2⟩⟩,
        ⟨.plain ['-'], none⟩], none⟩, ⟨.plain ['x'], none⟩] := by cbv
  have hl : Mask.layout ⟨"7([0-9]{2}-)x".toList, {}⟩ =
      .ok [.fixed ['7'], .slots 2, .fixed ['-', 'x']] := by cbv
  have hcounts : ∀ c ∈ ['1', '2'], Settings.counts {} c = true := by
    have h1 : Settings.counts {} '1' = true := by decide
    have h2 : Settings.counts {} '2' = true := by decide
    simp [h1, h2]
  have hdigits : ['1', '2'] ∈ Piece.language (Settings.counts {} · = true)
      ⟨.charClass "[0-9]".toList, some ⟨2, .upTo 2⟩⟩ :=
    ⟨2, ⟨Nat.le_refl 2, fun m hm => (Extent.upTo.inj hm).le⟩, mem_pow_class.2 ⟨rfl, hcounts⟩⟩
  have hgroup : ['1', '2', '-'] ∈ languageOfAll (Settings.counts {} · = true)
      [⟨.charClass "[0-9]".toList, some ⟨2, .upTo 2⟩⟩, ⟨.plain ['-'], none⟩] :=
    Language.append_mem_mul hdigits (Language.append_mem_mul (a := ['-']) rfl Language.nil_mem_one)
  obtain ⟨l, d, hl', hd, htext, -⟩ := display_complete hs (by decide)
    (by simp [Sequence.Straight, Sequence.Everywhere, everywhereInAll, Piece.Everywhere,
      Atom.Everywhere, Piece.straight_iff, Atom.plain])
    (n := 5) (by decide)
    (Language.append_mem_mul (a := ['7']) rfl (Language.append_mem_mul hgroup
      (Language.append_mem_mul (a := ['x']) rfl Language.nil_mem_one)))
    rfl (by decide) (by decide)
  refine ⟨d, hd, htext ?_⟩
  rintro ⟨front, text, h, -, hsilent⟩
  obtain rfl := Except.ok.inj (hl.symm.trans hl')
  have hlast := congrArg List.getLast? h
  simp at hlast
  have := hsilent 'x' (by simp [← hlast])
  exact absurd this (by decide)

/-- The dash at the end counts for nothing and is not shown again. -/
theorem display_drops_final_dash :
    ∃ s, Mask.reading ⟨"[0-9]{2}-".toList, {}⟩ = .ok s ∧ s.statedLength? = none ∧ s.Straight ∧
      s.longest = .upTo 3 ∧
      "12-".toList ∈ s.languageOver (Settings.counts {} · = true) ∧ "12-".toList.length = 3 ∧
      Mask.display ⟨"[0-9]{2}-".toList, {}⟩ "12-".toList = .ok ⟨"12".toList, 2⟩ ∧
      "12".toList ≠ "12-".toList := by
  have hs : Mask.reading ⟨"[0-9]{2}-".toList, {}⟩ =
      .ok [⟨.charClass "[0-9]".toList, some ⟨2, .upTo 2⟩⟩, ⟨.plain ['-'], none⟩] := by cbv
  refine ⟨_, hs, by decide, ?_, by decide, ?_, rfl, by cbv, by decide⟩
  · simp [Sequence.Straight, Sequence.Everywhere, everywhereInAll, Piece.Everywhere,
      Atom.Everywhere, Piece.straight_iff, Atom.plain]
  · refine Language.append_mem_mul (a := ['1', '2']) ?_
      (Language.append_mem_mul (a := ['-']) rfl Language.nil_mem_one)
    refine ⟨2, ⟨Nat.le_refl 2, fun m hm => (Extent.upTo.inj hm).le⟩, mem_pow_class.2 ⟨rfl, ?_⟩⟩
    have h1 : Settings.counts {} '1' = true := by decide
    have h2 : Settings.counts {} '2' = true := by decide
    simp [h1, h2]

end Mask

end InputMask
