import InputMask.Proofs.Analysis.StatedLength
import InputMask.Proofs.Pattern.Bare
import InputMask.Proofs.Pattern.WellMade

/-!
# The range of lengths

The shortest and the longest length are worked out apart from each other, and either of them can
be replaced by one that the pattern states. By the structure of the pattern they are in order,
and so are the two bounds of a stated length. They are out of order only if a stated least length
without an upper bound meets a longest length by structure that is below it; and then no match
is as long as the pattern demands.

* `Sequence.shortest_le_longest` — the lengths by structure are in order.
* `Sequence.bounds_of_statedLength?` — so are the bounds of a stated length.
* `Analysis.exists_endless_of_longest_lt` — when the lengths of an analysis are not in order.
* `Analysis.shortest_le_longest_iff` — exactly when they are.
-/

namespace InputMask

/-- What a piece states is written in it. -/
theorem Piece.WellMade.of_statedLength? {p : Piece} (h : p.WellMade) {l : Lookaround}
    (hl : p.statedLength? = some l) : l.statesLength = true ∧ l.StatesAsWritten := by
  obtain ⟨atom, times⟩ := p
  obtain ⟨hatom, -, -, -, -⟩ := h
  unfold Piece.statedLength? at hl
  split at hl
  · rename_i heq
    split at hl <;> cases hl
    cases heq
    cases hatom with
    | lookaround hwritten => exact ⟨‹_›, hwritten⟩
  · cases hl

namespace Sequence

variable {s : Sequence}

/-- **By structure the shortest length is at most the longest**: the shortest match lies between
them. -/
theorem shortest_le_longest (h : s.Sound) {m : Nat} (hm : s.longest = .upTo m) :
    s.shortest ≤ m := by
  obtain ⟨w, hw, -, hshortest⟩ := exists_shortest h
  have hmeasures := measures_longest h
  rw [hm] at hmeasures
  calc s.shortest = min w.length Count.ceiling := hshortest
    _ ≤ w.length := Nat.min_le_left _ _
    _ ≤ m := hmeasures.length_le hw

/-- Any tree that is read is made of pieces that are well made. -/
theorem everywhere_wellMade_of_read {text : Text} {limit : Nat}
    (h : Sequence.read text limit = .ok s) : s.Everywhere Piece.WellMade := by
  obtain ⟨branches, hreads, rfl⟩ := exists_reads_of_read h
  exact hreads.wellMade.ofBranches.everywhere

/-- **The bounds of a stated length are in order**, and there always is a least one. -/
theorem bounds_of_statedLength? {text : Text} {limit : Nat}
    (h : Sequence.read text limit = .ok s) {l : Lookaround} (hl : s.statedLength? = some l) :
    ∃ n, l.least = some n ∧ ∀ m, l.most = some m → n ≤ m := by
  obtain ⟨piece, hpiece, hstated⟩ := exists_of_statedLength? (everywhere_wellMade_of_read h) hl
  obtain ⟨hstates, hwritten⟩ := hpiece.of_statedLength? hstated
  obtain ⟨-, brace, r, -, -, hread, hleast, hmost⟩ := hwritten hstates
  refine ⟨r.least, hleast, fun m hm => ?_⟩
  rw [hmost] at hm
  cases hend : r.most with
  | endless =>
    rw [hend] at hm
    cases hm
  | upTo n =>
    rw [hend] at hm
    cases hm
    exact Repetition.least_le_of_read? hread hend

end Sequence

namespace Analysis

variable {text : Text} {limit : Nat} {s : Sequence} {a : Analysis} {m : Nat}

/-- If the longest length is below the shortest, the pattern states a least length alone: the
shortest length is what it states, and the longest one is left to the structure. -/
theorem exists_endless_of_longest_lt (hs : Sequence.read text limit = .ok s)
    (ha : Analysis.ofSequence s = .ok a) (hm : a.longest = .upTo m) (hlt : m < a.shortest) :
    ∃ l, s.statedLength? = some l ∧ l.least = some a.shortest ∧ l.most = none ∧
      s.longest = .upTo m := by
  have hsound := Sequence.sound_of_read hs
  cases hl : s.statedLength? with
  | none =>
    rw [longest_ofSequence hl ha] at hm
    rw [shortest_of_ofSequence hl ha] at hlt
    exact absurd (Sequence.shortest_le_longest hsound hm) (Nat.not_le_of_lt hlt)
  | some l =>
    obtain ⟨hlongest, hshortest⟩ := lengths_of_stated hl ha
    obtain ⟨n, hleast, hbounds⟩ := Sequence.bounds_of_statedLength? hs hl
    rw [hleast] at hshortest
    obtain rfl : a.shortest = n := hshortest
    rw [hm] at hlongest
    refine ⟨l, rfl, hleast, ?_⟩
    cases hmost : l.most with
    | none =>
      rw [hmost] at hlongest
      exact ⟨rfl, hlongest.symm⟩
    | some k =>
      rw [hmost] at hlongest
      obtain rfl : m = k := Extent.upTo.inj hlongest
      exact absurd (hbounds m hmost) (Nat.not_le_of_lt hlt)

/-- **The range of lengths is empty only if the pattern contradicts itself.**  If there is a
longest length, the shortest one is at most that, unless the stated length is a least one alone,
beyond the longest; and then no match of the pattern is as long as it states. -/
theorem shortest_le_longest_iff (hs : Sequence.read text limit = .ok s)
    (ha : Analysis.ofSequence s = .ok a) (hm : a.longest = .upTo m) :
    (a.shortest ≤ m ↔ ∀ l n, s.statedLength? = some l → l.least = some n → l.most = none →
      n ≤ m) ∧
    (m < a.shortest → ∃ l, s.statedLength? = some l ∧ l.least = some a.shortest ∧
      l.most = none ∧ ∀ w ∈ s.language, ¬ l.Admits w.length) := by
  refine ⟨⟨?_, ?_⟩, ?_⟩
  · intro hle l n hl hleast _
    obtain ⟨-, hshortest⟩ := lengths_of_stated hl ha
    rw [hleast] at hshortest
    obtain rfl : a.shortest = n := hshortest
    exact hle
  · intro hall
    by_contra hlt
    obtain ⟨l, hl, hleast, hmost, -⟩ := exists_endless_of_longest_lt hs ha hm (Nat.lt_of_not_le hlt)
    exact hlt (hall l a.shortest hl hleast hmost)
  · intro hlt
    obtain ⟨l, hl, hleast, hmost, hlongest⟩ := exists_endless_of_longest_lt hs ha hm hlt
    refine ⟨l, hl, hleast, hmost, fun w hw hadmits => ?_⟩
    have hmeasures := Sequence.measures_longest (Sequence.sound_of_read hs)
    rw [hlongest] at hmeasures
    have hle : a.shortest ≤ w.length := hadmits.least_le _ hleast
    exact absurd (hle.trans (hmeasures.length_le hw)) (Nat.not_le_of_lt hlt)

/-- Two digits and no more, but at least five characters. -/
theorem shortest_beyond_longest :
    ∃ s a, Sequence.read "(?=^.{5,}$)[0-9]{2}".toList 64 = .ok s ∧
      Analysis.ofSequence s = .ok a ∧ a.longest = .upTo 2 ∧ ¬ a.shortest ≤ 2 := by
  have hs : Sequence.read "(?=^.{5,}$)[0-9]{2}".toList 64 =
      .ok [⟨.lookaround ⟨false, "^.{5,}$".toList, some 5, none⟩, none⟩,
        ⟨.charClass "[0-9]".toList, some ⟨2, .upTo 2⟩⟩] := by cbv
  exact ⟨_, ⟨.upTo 2, 5, []⟩, hs, by cbv, rfl, by decide⟩

/-- The second branch states a least length that no branch reaches. -/
theorem shortest_le_longest_iff_second_branch :
    ∃ s a, Sequence.read "[0-9]|(?=^.{4,}$)[a-z]{2,3}".toList 64 = .ok s ∧
      Analysis.ofSequence s = .ok a ∧ a.longest = .upTo 3 ∧ a.shortest = 4 ∧
      ∃ l, s.statedLength? = some l ∧ l.most = none ∧
        ∀ w ∈ s.language, ¬ l.Admits w.length := by
  have hs : Sequence.read "[0-9]|(?=^.{4,}$)[a-z]{2,3}".toList 64 =
      .ok [⟨.choice [[⟨.charClass "[0-9]".toList, none⟩],
        [⟨.lookaround ⟨false, "^.{4,}$".toList, some 4, none⟩, none⟩,
          ⟨.charClass "[a-z]".toList, some ⟨2, .upTo 3⟩⟩]], none⟩] := by cbv
  have ha : Analysis.ofSequence [⟨.choice [[⟨.charClass "[0-9]".toList, none⟩],
        [⟨.lookaround ⟨false, "^.{4,}$".toList, some 4, none⟩, none⟩,
          ⟨.charClass "[a-z]".toList, some ⟨2, .upTo 3⟩⟩]], none⟩] =
      .ok ⟨.upTo 3, 4, []⟩ := by cbv
  obtain ⟨l, hl, -, hmost, hnone⟩ := (shortest_le_longest_iff hs ha rfl).2 (by decide)
  exact ⟨_, _, hs, ha, rfl, rfl, l, hl, hmost, hnone⟩

end Analysis

end InputMask
