import InputMask.Proofs.Layout.Literals
import InputMask.Proofs.Layout.Room
import InputMask.Proofs.Mask.Display

/-!
# Displays and templates

A mask without alternatives whose fixed text does not count displays typed text as its
template, with the typed characters in the places of the placeholders. A template with a
character in place of every placeholder matches the pattern, and the literals of the pattern
stand in it where the analysis says.

* `Mask.display_fills_template` — how far the template is displayed, and that typing more
  only adds to it.
* `Mask.full_template_matches` — a full template matches, if no literal lies inside slots.
* `Mask.template_shows_literals` — the template shows each literal at its place.
-/

namespace InputMask

/-- Cutting off keeps one display the beginning of another. -/
theorem Layout.display_prefix {l : Layout} {typed other : Typed}
    (h : (l.fill typed).text <+: (l.fill other).text) (longest : Extent) :
    (l.display longest typed).text <+: (l.display longest other).text := by
  cases longest with
  | endless => exact h
  | upTo n => exact h.take n

namespace Mask

variable {m : Mask} {s : Sequence} {l : Layout}

/-- **A display is the filled template**, for a mask without alternatives in whose fixed text
nothing counts. The template is a row of fixed characters and placeholders; what is filled
is this row with the typed characters that count in the places of the placeholders, up to the
last of them, or up to the first placeholder if there are none, or the whole row if there are more
than fit in. So the more is typed, the more is displayed, as long as what is shown can be held. -/
theorem display_fills_template (hs : m.reading = .ok s) (hl : m.layout = .ok l)
    (hlinear : l.Linear) (hsilent : l.Silent m.settings.counts) (raw : Text) :
    (∀ text, m.template = .ok text → text = l.row.map (·.getD m.settings.placeholder)) ∧
    l.row.Cut (m.settings.countedOf raw) (l.fill (m.typed raw)).text ∧
    ∀ other, m.settings.countedOf raw <+: m.settings.countedOf other →
      (l.fill (m.typed raw)).text <+: (l.fill (m.typed other)).text ∧
      ∀ d, m.display raw = .ok d → (l.fill (m.typed other)).text.bytes ≤ Text.capacity →
        ∃ e, m.display other = .ok e ∧ d.text <+: e.text := by
  have hnormal : l.Normal := Sequence.normal_layout (layout_of_reading hs ▸ hl)
  have hfill : ∀ raw, (l.fill (m.typed raw)).text =
      l.row.shown false (m.settings.countedOf raw) :=
    fun raw => Layout.text_fill_row hnormal hlinear (m.typed raw) hsilent
  refine ⟨fun text ht => ?_, ?_, fun other hother => ?_⟩
  · rw [template, hl] at ht
    exact Layout.template_eq ht
  · rw [hfill]
    exact Row.cut_shown _ _
  · have hfront : (l.fill (m.typed raw)).text <+: (l.fill (m.typed other)).text := by
      obtain ⟨more, hmore⟩ := hother
      rw [hfill, hfill, ← hmore]
      exact Row.shown_prefix false l.row _ more
    refine ⟨hfront, fun d hd hroom => ?_⟩
    obtain ⟨a, ha⟩ := exists_analysis_of_display hs hd
    have hall := display_eq_present hs hl ha
    obtain ⟨-, rfl⟩ := Layout.present_eq_ok.1 ((hall raw).symm.trans hd)
    have hfits : l.fillFits (m.typed other) = true :=
      (Layout.fillFits_iff_of_silent hlinear hsilent).2 hroom
    exact ⟨_, (hall other).trans (Layout.present_eq_ok.2 ⟨hfits, rfl⟩),
      Layout.display_prefix hfront a.longest⟩

/-- A time in a frame: three digits end in the third slot, and a fifth one brings the end of the
frame. -/
theorem display_fills_template_time :
    ∃ l, Mask.layout ⟨"#(\\d{2}): \\d{2}!".toList, {}⟩ = .ok l ∧
      l.row.Cut "123".toList (l.fill ⟨"123".toList, Settings.counts {}⟩).text ∧
      ∃ e, Mask.display ⟨"#(\\d{2}): \\d{2}!".toList, {}⟩ "12345".toList = .ok e ∧
        "#12: 3".toList <+: e.text := by
  have hs : Mask.reading ⟨"#(\\d{2}): \\d{2}!".toList, {}⟩ =
      .ok [⟨.plain ['#'], none⟩,
        ⟨.group [⟨.charClass "\\d".toList, some ⟨2, .upTo 2⟩⟩], none⟩, ⟨.plain [':'], none⟩,
        ⟨.plain [' '], none⟩, ⟨.charClass "\\d".toList, some ⟨2, .upTo 2⟩⟩,
        ⟨.plain ['!'], none⟩] := by cbv
  have hl : Mask.layout ⟨"#(\\d{2}): \\d{2}!".toList, {}⟩ =
      .ok [.fixed ['#'], .slots 2, .fixed ": ".toList, .slots 2, .fixed ['!']] := by cbv
  have hd : Mask.display ⟨"#(\\d{2}): \\d{2}!".toList, {}⟩ "123".toList =
      .ok ⟨"#12: 3".toList, 6⟩ := by cbv
  have hlinear : Layout.Linear
      [.fixed ['#'], .slots 2, .fixed ": ".toList, .slots 2, .fixed ['!']] := by
    intro branches h
    simp at h
  have hsilent : Layout.Silent (Settings.counts {})
      [.fixed ['#'], .slots 2, .fixed ": ".toList, .slots 2, .fixed ['!']] := by
    have hframe : Settings.counts {} '#' = false ∧ Settings.counts {} '!' = false := by decide
    have hinside : Settings.counts {} ':' = false ∧ Settings.counts {} ' ' = false := by decide
    intro text ht c hc
    have hmark : c = '#' ∨ c = '!' ∨ c = ':' ∨ c = ' ' := by grind
    rcases hmark with rfl | rfl | rfl | rfl <;> simp [hframe, hinside]
  have hroom : Text.bytes (Layout.fill
      [.fixed ['#'], .slots 2, .fixed ": ".toList, .slots 2, .fixed ['!']]
      ⟨"12345".toList, Settings.counts {}⟩).text ≤ Text.capacity := by
    clear hs hl hd hlinear hsilent
    cbv
  have hthree : Settings.counts {} '1' = true ∧ Settings.counts {} '2' = true ∧
      Settings.counts {} '3' = true := by decide
  have hcounted : Settings.countedOf {} "123".toList = "123".toList := by
    simp [Settings.countedOf, hthree]
  obtain ⟨-, hcut, hmore⟩ := display_fills_template hs hl hlinear hsilent "123".toList
  obtain ⟨-, hdisplay⟩ :=
    hmore "12345".toList ((List.prefix_append "123".toList "45".toList).filter _)
  exact ⟨_, hl, hcounted ▸ hcut, hdisplay _ hd hroom⟩

/-! ## Full templates -/

/-- **A full template is a match**, for a pattern that has a longest length and has no literal
inside of what is laid out as slots. The template is a row of fixed characters and placeholders,
and any text in which other characters stand in place of the placeholders matches the pattern. -/
theorem full_template_matches (hs : m.reading = .ok s) (hl : m.layout = .ok l) {n : Nat}
    (hn : s.longest = .upTo n) (hwordless : s.WordlessSlots) :
    (∀ text, m.template = .ok text → text = l.row.map (·.getD m.settings.placeholder)) ∧
    ∀ w, l.row.Admits w → w ∈ s.language := by
  constructor
  · intro text ht
    rw [template, hl] at ht
    exact Layout.template_eq ht
  · intro w hw
    have hlayout : s.layout m.settings.limit = .ok l := layout_of_reading hs ▸ hl
    exact Sequence.mem_language_of_admits (sound_of_reading hs) hwordless hn hlayout hw

/-- An optional choice, of which the first branch is shown, branches of classes that differ in
length, and repeated text. -/
theorem full_template_matches_branches :
    ∃ s, Mask.reading ⟨"(a\\d|b)?(\\w|\\d{2}){2}(uv){2}".toList, {}⟩ = .ok s ∧
      Mask.template ⟨"(a\\d|b)?(\\w|\\d{2}){2}(uv){2}".toList, {}⟩ =
        .ok "a#####uvuv".toList ∧
      "a1?2-zuvuv".toList ∈ s.language := by
  have hs : Mask.reading ⟨"(a\\d|b)?(\\w|\\d{2}){2}(uv){2}".toList, {}⟩ =
      .ok [⟨.group [⟨.choice [[⟨.plain ['a'], none⟩, ⟨.charClass "\\d".toList, none⟩],
          [⟨.plain ['b'], none⟩]], none⟩], some ⟨0, .upTo 1⟩⟩,
        ⟨.group [⟨.choice [[⟨.charClass "\\w".toList, none⟩],
          [⟨.charClass "\\d".toList, some ⟨2, .upTo 2⟩⟩]], none⟩], some ⟨2, .upTo 2⟩⟩,
        ⟨.group [⟨.plain ['u'], none⟩, ⟨.plain ['v'], none⟩], some ⟨2, .upTo 2⟩⟩] := by cbv
  have hl : Mask.layout ⟨"(a\\d|b)?(\\w|\\d{2}){2}(uv){2}".toList, {}⟩ =
      .ok [.either [[.fixed ['a'], .slots 1], [.fixed ['b']]], .slots 4,
        .fixed "uvuv".toList] := by cbv
  have hwordless : Sequence.WordlessSlots
      [⟨.group [⟨.choice [[⟨.plain ['a'], none⟩, ⟨.charClass "\\d".toList, none⟩],
          [⟨.plain ['b'], none⟩]], none⟩], some ⟨0, .upTo 1⟩⟩,
        ⟨.group [⟨.choice [[⟨.charClass "\\w".toList, none⟩],
          [⟨.charClass "\\d".toList, some ⟨2, .upTo 2⟩⟩]], none⟩], some ⟨2, .upTo 2⟩⟩,
        ⟨.group [⟨.plain ['u'], none⟩, ⟨.plain ['v'], none⟩], some ⟨2, .upTo 2⟩⟩] := by
    have hrepeated : ∃ text, Atom.fixedText
        (.group [⟨.plain ['u'], none⟩, ⟨.plain ['v'], none⟩]) = .ok (some text) :=
      ⟨['u', 'v'], by cbv⟩
    simpa [Sequence.WordlessSlots, wordlessSlotsInAll, wordlessSlotsInAny, Piece.WordlessSlots,
      Atom.WordlessSlots, everywhereInAll, everywhereInAny, Piece.Everywhere, Atom.Everywhere,
      Piece.BecomesSlots, Piece.TakesSlots, Piece.NoLiteral, Atom.plain, Atom.isRepeatable,
      Repetition.isAtMostOnce, Repetition.count?, Repetition.fixedCount?] using hrepeated
  obtain ⟨-, hmatch⟩ := full_template_matches hs hl (n := 10) (by decide) hwordless
  refine ⟨_, hs, by cbv, hmatch _ ?_⟩
  simp [Row.Admits, Layout.row, rowOfAll, rowOfFirst, Step.row, List.replicate]

/-! ## Literals in templates -/

/-- **The template shows the literals of the inventory**, each at its place, and is as long as the
longest match, for a mask without alternatives whose pattern has a longest length. Wherever the
layout and its template can be held, there is an inventory too. -/
theorem template_shows_literals (hs : m.reading = .ok s) {n : Nat} (hn : s.longest = .upTo n)
    (hl : m.layout = .ok l) (hlinear : l.Linear)
    (hfits : l.templateFits m.settings.placeholder = true) :
    ∃ text a, m.template = .ok text ∧ m.analysis = .ok a ∧ text.length = n ∧
      ∀ e ∈ a.literals, e.position + e.text.length ≤ n ∧
        (text.drop e.position).take e.text.length = e.text := by
  have hsound := sound_of_reading hs
  have hlayout : s.layout m.settings.limit = .ok l := layout_of_reading hs ▸ hl
  obtain ⟨text, htext⟩ := (l.exists_template_iff m.settings.placeholder).2 hfits
  obtain ⟨a, ha⟩ := Sequence.exists_analysis_of_layout hlayout
  have htemplate : text = l.row.map (·.getD m.settings.placeholder) := Layout.template_eq htext
  have hlength : text.length = n := by
    rw [htemplate, List.length_map]
    calc l.row.length = l.width := length_rowOfAll hlinear
      _ = n := Sequence.width_layout hsound hlayout hn
  refine ⟨text, a, ?_, ?_, hlength, fun e he => ?_⟩
  · rw [template, hl]
    exact htext
  · rw [analysis, hs]
    exact ha
  · have hlies : e.LiesIn 0 text := by
      rw [htemplate]
      exact Sequence.layout_shows hsound hn hlayout hlinear ha m.settings.placeholder e he
    rw [← hlength]
    exact hlies.take_drop_eq

/-- The optional group is laid out, and its dash is joined with the text of the other group and with
the repeated letter. The inventory only notes what stands behind the optional group. -/
theorem template_shows_literals_joined :
    ∃ text a, Mask.template ⟨"(\\+\\d{2}-)?(x-)y{3}\\d{4}".toList, {}⟩ = .ok text ∧
      Mask.analysis ⟨"(\\+\\d{2}-)?(x-)y{3}\\d{4}".toList, {}⟩ = .ok a ∧ text.length = 13 ∧
      a.literals = [⟨['x'], 4⟩, ⟨['-'], 5⟩, ⟨"yyy".toList, 6⟩] ∧
      (text.drop 6).take 3 = "yyy".toList := by
  have hs : Mask.reading ⟨"(\\+\\d{2}-)?(x-)y{3}\\d{4}".toList, {}⟩ =
      .ok [⟨.group [⟨.literal "\\+".toList ['+'], none⟩,
          ⟨.charClass "\\d".toList, some ⟨2, .upTo 2⟩⟩, ⟨.plain ['-'], none⟩], some ⟨0, .upTo 1⟩⟩,
        ⟨.group [⟨.plain ['x'], none⟩, ⟨.plain ['-'], none⟩], none⟩,
        ⟨.plain ['y'], some ⟨3, .upTo 3⟩⟩, ⟨.charClass "\\d".toList, some ⟨4, .upTo 4⟩⟩] := by cbv
  have hl : Mask.layout ⟨"(\\+\\d{2}-)?(x-)y{3}\\d{4}".toList, {}⟩ =
      .ok [.fixed ['+'], .slots 2, .fixed "-x-yyy".toList, .slots 4] := by cbv
  have hliterals : Mask.analysis ⟨"(\\+\\d{2}-)?(x-)y{3}\\d{4}".toList, {}⟩ =
      .ok ⟨.upTo 13, 9, [⟨['x'], 4⟩, ⟨['-'], 5⟩, ⟨"yyy".toList, 6⟩]⟩ := by cbv
  have hlinear : Layout.Linear [.fixed ['+'], .slots 2, .fixed "-x-yyy".toList, .slots 4] := by
    intro branches h
    simp at h
  obtain ⟨text, a, htext, ha, hlength, hplaces⟩ :=
    template_shows_literals hs (n := 13) (by decide) hl hlinear (by decide)
  obtain rfl := Except.ok.inj (ha.symm.trans hliterals)
  exact ⟨text, _, htext, ha, hlength, rfl, (hplaces ⟨"yyy".toList, 6⟩ (by decide)).2⟩

end Mask

end InputMask
