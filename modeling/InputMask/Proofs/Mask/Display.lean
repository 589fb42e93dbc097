import InputMask.Mask.Basic
import InputMask.Proofs.Filling.Cursor
import InputMask.Proofs.Filling.Readback
import InputMask.Proofs.Layout.Width
import InputMask.Proofs.Mask.Answered

/-!
# What a mask displays

A mask displays what its layout is filled with, cut off at the longest length, and always with
the cursor at the end. Where the pattern states no length nothing is cut off.

* `Mask.cursor_at_end` — the cursor, in every filling on the way and in every display.
* `Mask.display_eq` — the display as a filled layout.
* `Mask.display_idempotent` — a displayed text is displayed as it is, by masks without
  alternatives that do not end in silent text.
-/

namespace InputMask

/-! ## Displays -/

/-- What is presented is what is displayed, as long as everything can be held. -/
theorem Layout.present_eq_ok {l : Layout} {longest : Extent} {typed : Typed} {d : Display} :
    l.present longest typed = .ok d ↔ l.fillFits typed = true ∧ d = l.display longest typed := by
  unfold present
  cases l.fillFits typed <;> simp [eq_comm]

/-- Displays with the cursor at the end are told apart by their texts. -/
theorem Display.eq_of_text_eq {d e : Display} (hd : d.cursor = d.text.length)
    (he : e.cursor = e.text.length) (h : d.text = e.text) : d = e := by
  obtain ⟨text, cursor⟩ := d
  obtain ⟨text', cursor'⟩ := e
  obtain rfl : text = text' := h
  obtain rfl : cursor = text.length := hd
  obtain rfl : cursor' = text.length := he
  rfl

namespace Mask

/-- **The cursor is always at the end of the text.**  However far a layout has been filled, in every
branch that is tried too, the characters counted as taken or as inserted are those of the text;
so the cursor of a display is the length of its text, cut off or not. A mask displays like that
whenever it displays anything, and it does exactly if its layout, its inventory and what is written
on the way fit. -/
theorem cursor_at_end (l : Layout) (longest : Extent) (typed : Typed) (m : Mask) (raw : Text) :
    (∀ f, Filling.Reached typed (.start typed) l f → f.taken + f.inserted = f.text.length) ∧
      (l.display longest typed).cursor = (l.display longest typed).text.length ∧
      (∀ d, m.display raw = .ok d → d.cursor = d.text.length) ∧
      ((∃ d, m.display raw = .ok d) ↔ m.canAnswer (.display raw) = true) := by
  refine ⟨fun f hf => ?_, l.cursor_display longest typed, fun d hd => ?_,
    (m.display_sized raw).exists_iff⟩
  · rw [Filling.length_text]
    exact hf.counted
  · unfold display at hd
    split at hd
    · obtain ⟨layout, -, hd⟩ := TextError.bind_eq_ok.1 hd
      obtain ⟨analysis, -, hd⟩ := TextError.bind_eq_ok.1 hd
      rw [(Layout.present_eq_ok.1 hd).2]
      exact layout.cursor_display analysis.longest (m.typed raw)
    · cases hd
      rfl

/-- The first branch skips the digit of its fixed text, which was typed as well, and is tried in
vain. A mask with a stated length cuts its text off in the middle. -/
theorem cursor_at_end_tried_and_cut_off :
    ∃ (l : Layout) (typed : Typed) (f : Filling) (m : Mask) (d : Display),
      Filling.Reached typed (.start typed) l f ∧ f.text = "1-7".toList ∧ f.used = "17".toList ∧
      (l.fill typed).text = "1789".toList ∧ f.taken + f.inserted = f.text.length ∧
      m.display "1234".toList = .ok d ∧ d.text = "1-2".toList ∧ d.cursor = d.text.length := by
  let typed : Typed := ⟨"1-789".toList, Char.isDigit⟩
  let behind : Filling := (Filling.start typed).take 1
  let m : Mask := ⟨"(?=^.{3}$)[0-9]-[0-9]+".toList, {}⟩
  have hreached : Filling.Reached typed (.start typed)
      [.slots 1, .either [[.fixed "-7".toList, .slots 1], [.slots 3]]]
      ({ behind with inBranch := true }.place typed "-7".toList) :=
    .step rfl (.branch rfl (List.mem_cons_self ..) (.step rfl .here))
  have hdisplay : m.display "1234".toList = .ok ⟨"1-2".toList, 3⟩ := by cbv
  obtain ⟨hcount, -, hcursor, -⟩ := cursor_at_end _ .endless typed m "1234".toList
  exact ⟨_, typed, _, m, _, hreached, by decide, by decide, by decide, hcount _ hreached, hdisplay,
    rfl, hcursor _ hdisplay⟩

section

variable {m : Mask} {s : Sequence} {l : Layout}

theorem layout_of_reading (hs : m.reading = .ok s) : m.layout = s.layout m.settings.limit := by
  rw [layout, hs]
  rfl

theorem sound_of_reading (hs : m.reading = .ok s) : s.Sound := Sequence.sound_of_read hs

/-- Where there is a layout and an analysis, typed text is laid out by them. -/
theorem display_eq_present (hs : m.reading = .ok s) (hl : m.layout = .ok l) {a : Analysis}
    (ha : m.analysis = .ok a) (raw : Text) :
    m.display raw = l.present a.longest (m.typed raw) := by
  rw [display, hs, hl, ha]
  rfl

/-- Nothing is laid out without an analysis. -/
theorem exists_analysis_of_display (hs : m.reading = .ok s) {raw : Text} {d : Display}
    (hd : m.display raw = .ok d) : ∃ a, m.analysis = .ok a := by
  rw [display, hs] at hd
  obtain ⟨_, -, hd⟩ := TextError.bind_eq_ok.1 hd
  obtain ⟨a, ha, -⟩ := TextError.bind_eq_ok.1 hd
  exact ⟨a, ha⟩

theorem longest_of_analysis (hs : m.reading = .ok s) (hstated : s.statedLength? = none)
    {a : Analysis} (ha : m.analysis = .ok a) : a.longest = s.longest := by
  rw [analysis, hs] at ha
  exact Analysis.longest_ofSequence hstated ha

/-- A mask that displays one text displays every text for which there is room, and as its layout is
filled with it. -/
theorem display_eq (hs : m.reading = .ok s) (hstated : s.statedLength? = none)
    (hl : m.layout = .ok l) {raw : Text} {d : Display} (hd : m.display raw = .ok d)
    (other : Text) : m.display other = l.present s.longest (m.typed other) := by
  obtain ⟨a, ha⟩ := exists_analysis_of_display hs hd
  rw [← longest_of_analysis hs hstated ha]
  exact display_eq_present hs hl ha other

/-- Nothing that is filled is cut off. -/
theorem text_display (hs : m.reading = .ok s) (hl : m.layout = .ok l) (typed : Typed) :
    (l.display s.longest typed).text = (l.fill typed).text :=
  Sequence.text_display (sound_of_reading hs) (layout_of_reading hs ▸ hl) typed

/-! ## Displaying what is displayed -/

/-- What a linear layout shows is in its form. -/
theorem readsBack_text_fill (hnormal : l.Normal) (hlinear : l.Linear) {typed : Typed}
    (hend : ¬ l.EndsSilently typed.counts) (hfits : l.fillFits typed = true) :
    ReadsBack typed.counts false l (l.fill typed).text := by
  obtain ⟨w, hw, hback, -⟩ := readsBack_fillAll (f := .start typed) hnormal hlinear rfl rfl
    (fun c hc => (List.mem_filter.1 hc).2) (Layout.endsCounted hend) hfits
  have hw : (l.fill typed).text = w := hw
  exact hw ▸ hback

/-- **A displayed text is displayed as it is**, with the same cursor, whenever the layout has
no alternatives and does not end in text of which nothing counts. -/
theorem display_idempotent (hs : m.reading = .ok s) (hstated : s.statedLength? = none)
    (hl : m.layout = .ok l) (hlinear : l.Linear) (hend : ¬ l.EndsSilently m.settings.counts)
    {raw : Text} {d : Display} (hd : m.display raw = .ok d) : m.display d.text = .ok d := by
  have hall := display_eq hs hstated hl hd
  obtain ⟨hfits, rfl⟩ := Layout.present_eq_ok.1 ((hall raw).symm.trans hd)
  have hnormal : l.Normal := Sequence.normal_layout (layout_of_reading hs ▸ hl)
  have hback : ReadsBack m.settings.counts false l (l.fill (m.typed raw)).text :=
    readsBack_text_fill hnormal hlinear hend hfits
  obtain ⟨hfits', htext⟩ := hback.given_back (Layout.fits_fill hfits)
  rw [hall, Layout.present_eq_ok, text_display hs hl]
  refine ⟨hfits', Display.eq_of_text_eq (l.cursor_display _ _) (l.cursor_display _ _) ?_⟩
  rw [text_display hs hl, text_display hs hl]
  exact htext.symm

/-- Fixed text with a digit in it, in front of slots for digits. -/
theorem display_idempotent_digit_in_text :
    Mask.display ⟨"x[0-9]{2}-7[0-9]".toList, {}⟩ "123".toList = .ok ⟨"x12-73".toList, 6⟩ ∧
      Mask.display ⟨"x[0-9]{2}-7[0-9]".toList, {}⟩ "x12-73".toList =
        .ok ⟨"x12-73".toList, 6⟩ := by
  have hs : Mask.reading ⟨"x[0-9]{2}-7[0-9]".toList, {}⟩ =
      .ok [⟨.plain ['x'], none⟩, ⟨.charClass "[0-9]".toList, some ⟨2, .upTo 2⟩⟩,
        ⟨.plain ['-'], none⟩, ⟨.plain ['7'], none⟩, ⟨.charClass "[0-9]".toList, none⟩] := by cbv
  have hl : Mask.layout ⟨"x[0-9]{2}-7[0-9]".toList, {}⟩ =
      .ok [.fixed ['x'], .slots 2, .fixed ['-', '7'], .slots 1] := by cbv
  have hd : Mask.display ⟨"x[0-9]{2}-7[0-9]".toList, {}⟩ "123".toList =
      .ok ⟨"x12-73".toList, 6⟩ := by cbv
  refine ⟨hd, display_idempotent hs (by decide) hl ?_ ?_ hd⟩
  · intro branches h
    simp at h
  · rintro ⟨front, text, h, -, -⟩
    have hlast := congrArg List.getLast? h
    simp at hlast

end

end Mask

end InputMask
