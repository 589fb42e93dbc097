import InputMask.Proofs.Layout.Width

/-!
# Layouts of bounded patterns

The limit for parts without an upper bound has no say in the layout of a pattern that has
a longest length. Such a layout is as wide as the longest match, so a display that is cut
off there is not cut off at all.

* `stepsOfAll_eq` — the steps of sound pieces do not depend on the limit, if their longest
  length has an end.
* `Sequence.layout_bounded` — one layout for all limits, exactly as wide as the longest match
  is long, and never filled beyond it.
-/

namespace InputMask

theorem Piece.slots_eq {piece : Piece} {m : Nat} (h : piece.longest = .upTo m)
    (limit other : Nat) : piece.slots other = piece.slots limit := by
  simp [Piece.slots, h, Extent.end?]

mutual

/-- The limit only matters for slots, and there only without an upper bound. What stands inside a
piece has an upper bound wherever it is laid out by itself. -/
theorem Piece.steps_eq (limit other : Nat) : ∀ piece : Piece, piece.Everywhere Piece.Sound →
    ∀ m, piece.longest = .upTo m → piece.steps other = piece.steps limit
  | ⟨.literal written meant, times⟩, _, m, hm => by
    rw [Piece.steps, Piece.steps, Piece.slots_eq hm limit other]
  | ⟨.charClass text, times⟩, _, m, hm => by
    rw [Piece.steps, Piece.steps, Piece.slots_eq hm limit other]
  | ⟨.group body, times⟩, h, m, hm => by
    rw [Piece.steps, Piece.steps]
    split
    · rename_i honce
      exact stepsOfAll_eq limit other body h.2 m (Repetition.eq_upTo_of_atMostOnce honce hm)
    · rw [Piece.slots_eq hm limit other]
  | ⟨.choice branches, times⟩, h, m, hm => by
    obtain rfl : times = none := h.1.times_eq_none rfl
    rw [Piece.steps, Piece.steps, layoutsOf_eq limit other branches h.2 m hm]
  | ⟨.anchor _, _⟩, _, _, _ => rfl
  | ⟨.lookaround _, _⟩, _, _, _ => rfl

theorem stepsOfAll_eq (limit other : Nat) : ∀ pieces : List Piece,
    everywhereInAll Piece.Sound pieces → ∀ m, longestOfAll pieces = .upTo m →
    stepsOfAll other pieces = stepsOfAll limit pieces
  | [], _, _, _ => rfl
  | piece :: rest, h, m, hm => by
    rw [longestOfAll] at hm
    obtain ⟨a, b, ha, hb, -, -⟩ := Extent.add_eq_upTo hm
    rw [stepsOfAll, stepsOfAll, Piece.steps_eq limit other piece h.1 a ha,
      stepsOfAll_eq limit other rest h.2 b hb]

theorem layoutsOf_eq (limit other : Nat) : ∀ branches : List (List Piece),
    everywhereInAny Piece.Sound branches → ∀ m, longestOfAny branches = .upTo m →
    layoutsOf other branches = layoutsOf limit branches
  | [], _, _, _ => rfl
  | branch :: rest, h, m, hm => by
    rw [longestOfAny] at hm
    obtain ⟨a, b, ha, hb, -⟩ := Extent.max_eq_upTo hm
    rw [layoutsOf, layoutsOf, stepsOfAll_eq limit other branch h.1 a ha,
      layoutsOf_eq limit other rest h.2 b hb]

end

/-- A layout of a bounded pattern is its layout for every limit. -/
theorem Sequence.layout_eq_of_bounded {s : Sequence} (hs : s.Sound) {m : Nat}
    (hm : s.longest = .upTo m) (limit other : Nat) : s.layout other = s.layout limit :=
  congrArg (· >>= Layout.merge) (stepsOfAll_eq limit other s hs m hm)

/-- **A bounded pattern has one layout**, whatever the limit for unbounded parts. It is exactly as
wide as the longest match is long; so whatever is typed and whatever counts, no more than that is
shown, and cutting it off there changes nothing. -/
theorem Sequence.layout_bounded {text : Text} {depth : Nat} {s : Sequence}
    (h : Sequence.read text depth = .ok s) {m : Nat} (hm : s.longest = .upTo m) {limit : Nat}
    {l : Layout} (hl : s.layout limit = .ok l) :
    (∀ other, s.layout other = .ok l) ∧ l.width = m ∧
      ∀ typed : Typed, (l.fill typed).text.length ≤ m ∧
        l.display (.upTo m) typed = l.display .endless typed := by
  have hs : s.Sound := Sequence.sound_of_read h
  have hwidth : l.width = m := Sequence.width_layout hs hl hm
  refine ⟨fun other => ?_, hwidth, fun typed => ⟨?_, ?_⟩⟩
  · rw [Sequence.layout_eq_of_bounded hs hm limit other, hl]
  · rw [← hwidth]
    exact l.length_fill_le typed
  · exact Layout.display_of_width_le (Nat.le_of_eq hwidth) typed

/-- Repeated text, an optional choice, text in line and slots. -/
theorem Sequence.layout_bounded_optional_choice :
    ∃ s l, Sequence.read "(ab){2}(x|[0-9]{2})?-\\d{3}".toList 64 = .ok s ∧
      s.layout 256 = .ok l ∧ s.layout 1 = .ok l ∧ l.width = 10 ∧
      (l.fill ⟨"1234567".toList, Char.isDigit⟩).text.length ≤ 10 := by
  have h : Sequence.read "(ab){2}(x|[0-9]{2})?-\\d{3}".toList 64 =
      .ok [⟨.group [⟨.plain ['a'], none⟩, ⟨.plain ['b'], none⟩], some ⟨2, .upTo 2⟩⟩,
        ⟨.group [⟨.choice [[⟨.plain ['x'], none⟩],
          [⟨.charClass "[0-9]".toList, some ⟨2, .upTo 2⟩⟩]], none⟩], some ⟨0, .upTo 1⟩⟩,
        ⟨.plain ['-'], none⟩, ⟨.charClass "\\d".toList, some ⟨3, .upTo 3⟩⟩] := by cbv
  have hl : Sequence.layout 256
      [⟨.group [⟨.plain ['a'], none⟩, ⟨.plain ['b'], none⟩], some ⟨2, .upTo 2⟩⟩,
        ⟨.group [⟨.choice [[⟨.plain ['x'], none⟩],
          [⟨.charClass "[0-9]".toList, some ⟨2, .upTo 2⟩⟩]], none⟩], some ⟨0, .upTo 1⟩⟩,
        ⟨.plain ['-'], none⟩, ⟨.charClass "\\d".toList, some ⟨3, .upTo 3⟩⟩] =
      .ok [.fixed "abab".toList, .either [[.fixed ['x']], [.slots 2]], .fixed ['-'],
        .slots 3] := by cbv
  obtain ⟨hall, hwidth, hfill⟩ := Sequence.layout_bounded h (m := 10) (by decide) hl
  exact ⟨_, _, h, hl, hall 1, hwidth, (hfill _).1⟩

end InputMask
