import InputMask.Proofs.Analysis.Inventory
import InputMask.Proofs.Analysis.Longest
import InputMask.Proofs.Analysis.Shortest
import InputMask.Proofs.Pattern.Canonical

/-!
# Stated lengths bound the matches

A length that a pattern states takes the place of the lengths that follow from its structure,
and it does so for the whole pattern, also if it is stated in one of several branches. So what
the analysis says of the length of a match is true of a match of the branch that states it, as
long as the match keeps to what is stated there. A match of another branch it bounds only if
that match happens to keep to the same length.

* `Sequence.mem_language_iff_lines` — a match of a sequence is a match of one of its lines.
* `Sequence.statedLength?_eq_head?` — the stated length is the first one in any of the lines.
* `Analysis.admits_iff` — the analysis admits a match exactly if the stated length does.
* `Analysis.stated_length_admits` — it admits the matches of the line that states the length.
-/

namespace InputMask

/-- The condition allows for a whole text of `n` characters. -/
structure Lookaround.Admits (l : Lookaround) (n : Nat) : Prop where
  least_le : ∀ k, l.least = some k → k ≤ n
  le_most : ∀ m, l.most = some m → n ≤ m

/-- Between its shortest and its longest length, the analysis allows for a match of `n`
characters. -/
structure Analysis.Admits (a : Analysis) (n : Nat) : Prop where
  shortest_le : a.shortest ≤ n
  le_longest : ∀ m, a.longest = .upTo m → n ≤ m

namespace Sequence

/-! ## Lines -/

/-- A match of a sequence is a match of one of its lines. -/
theorem mem_language_iff_lines (s : Sequence) {w : Text} :
    w ∈ s.language ↔ ∃ line ∈ s.lines, w ∈ line.language := by
  fun_cases lines s
  case case1 branches =>
    show w ∈ languageOfAny (fun _ => True) branches * 1 ↔ _
    rw [mul_one]
    exact mem_languageOfAny
  case case2 => simp

/-! ## Stated lengths -/

/-- The conditions directly in a sequence that state a length. -/
def statedLengths (s : Sequence) : List Lookaround := s.filterMap Piece.statedLength?

/-- **The stated length is the first one**, in the order in which they are written, of those
that stand directly in a line. -/
theorem statedLength?_eq_head? {s : Sequence} (h : s.Shaped) :
    s.statedLength? = (s.lines.flatMap statedLengths).head? := by
  have hhead : ∀ line : Sequence, line.statedLengths.head? = line.findSome? Piece.statedLength? :=
    fun line => List.head?_filterMap
  cases h with
  | line h =>
    have hnone : s.findSome? Piece.statedInBranch? = none := by
      rw [List.findSome?_eq_none_iff]
      intro piece hpiece
      obtain ⟨atom, times⟩ := piece
      have hatom : atom.isChoice = false := h _ hpiece
      cases atom <;> first | rfl | cases hatom
    rw [statedLength?, hnone, Option.or_none, lines_of_isLine h, List.flatMap_singleton, hhead]
  | choice branches =>
    show (none : Option Lookaround).or (List.findSome? Piece.statedInBranch? _) = _
    rw [Option.none_or, lines, List.head?_flatMap]
    simp [Piece.statedInBranch?, hhead]

end Sequence

namespace Analysis

/-! ## The analysis of a pattern that states a length -/

variable {s : Sequence} {l : Lookaround} {a : Analysis}

theorem lengths_of_stated (hl : s.statedLength? = some l) (ha : Analysis.ofSequence s = .ok a) :
    a.longest = (l.most.map Extent.upTo).getD s.longest ∧
      a.shortest = l.least.getD s.shortest := by
  obtain ⟨literals, -, ha⟩ := TextError.bind_eq_ok.1 ha
  obtain rfl := Except.ok.inj ha
  simp [hl]

/-- The lengths that follow from the structure of a sound sequence hold for every match, so the
analysis admits a match exactly if the stated length does. A side on which the condition has no
bound is left to the structure. -/
theorem admits_iff (hsound : s.Sound) (hl : s.statedLength? = some l)
    (ha : Analysis.ofSequence s = .ok a) {w : Text} (hw : w ∈ s.language) :
    a.Admits w.length ↔ l.Admits w.length := by
  obtain ⟨hlongest, hshortest⟩ := lengths_of_stated hl ha
  constructor
  · rintro ⟨hle, hge⟩
    refine ⟨?_, ?_⟩
    · intro k hk
      rwa [hshortest, hk] at hle
    · intro m hm
      apply hge
      rw [hlongest, hm]
      rfl
  · rintro ⟨hle, hge⟩
    refine ⟨?_, ?_⟩
    · rw [hshortest]
      cases hk : l.least with
      | some k => exact hle k hk
      | none =>
        obtain ⟨shortest, -, hmin, hcount⟩ := Sequence.exists_shortest hsound
        have hw := hmin w hw
        show s.shortest ≤ w.length
        omega
    · intro m hm
      rw [hlongest] at hm
      cases hmost : l.most with
      | some n =>
        rw [hmost] at hm
        obtain rfl : n = m := Extent.upTo.inj hm
        exact hge n hmost
      | none =>
        rw [hmost] at hm
        have hmeasures := Sequence.measures_longest hsound
        rw [show s.longest = .upTo m from hm] at hmeasures
        exact hmeasures.length_le hw

/-- **A stated length bounds the matches of the line that states it.**  For a pattern whose
inventory can be held, the length that the analysis goes by is the first that is stated in any
line. The analysis admits each match of a line that states it, if the match keeps to all that is
stated in that line; a match of another line it admits exactly if the match keeps to the length
it goes by. -/
theorem stated_length_admits {text : Text} {limit : Nat}
    (hs : Sequence.read text limit = .ok s) (hl : s.statedLength? = some l)
    (hfit : s.literalsFit = true) :
    ∃ a, Analysis.ofSequence s = .ok a ∧
      (s.lines.flatMap Sequence.statedLengths).head? = some l ∧
      (∀ line ∈ s.lines, l ∈ line.statedLengths → ∀ w ∈ line.language,
        (∀ stated ∈ line.statedLengths, stated.Admits w.length) → a.Admits w.length) ∧
      ∀ w ∈ s.language, a.Admits w.length ↔ l.Admits w.length := by
  obtain ⟨a, ha⟩ := (Analysis.exists_ofSequence_iff s).2 hfit
  have hsound := Sequence.sound_of_read hs
  refine ⟨a, ha, ?_, ?_, ?_⟩
  · rw [← Sequence.statedLength?_eq_head? (Sequence.shaped_of_read hs)]
    exact hl
  · intro line hline hmem w hw hadmits
    have hmatch : w ∈ s.language := s.mem_language_iff_lines.2 ⟨line, hline, hw⟩
    exact (admits_iff hsound hl ha hmatch).2 (hadmits l hmem)
  · intro w hw
    exact admits_iff hsound hl ha hw

/-- The second branch states a length after other pieces, and then one without an upper bound. -/
theorem stated_length_admits_second_branch :
    ∃ s a, Sequence.read "[0-9]+|x(?=^.{2,4}$)[a-z]+(?=^.{3,}$)".toList 64 = .ok s ∧
      Analysis.ofSequence s = .ok a ∧ a.longest = .upTo 4 ∧
      ∃ line ∈ s.lines, "xab".toList ∈ line.language ∧ a.Admits "xab".toList.length := by
  have hs : Sequence.read "[0-9]+|x(?=^.{2,4}$)[a-z]+(?=^.{3,}$)".toList 64 =
      .ok [⟨.choice [[⟨.charClass "[0-9]".toList, some ⟨1, .endless⟩⟩],
        [⟨.plain ['x'], none⟩, ⟨.lookaround ⟨false, "^.{2,4}$".toList, some 2, some 4⟩, none⟩,
          ⟨.charClass "[a-z]".toList, some ⟨1, .endless⟩⟩,
          ⟨.lookaround ⟨false, "^.{3,}$".toList, some 3, none⟩, none⟩]], none⟩] := by cbv
  obtain ⟨a, ha, -, hline, -⟩ := stated_length_admits hs rfl (by decide)
  have hletters : "ab".toList ∈ Piece.language (fun _ => True)
      ⟨.charClass "[a-z]".toList, some ⟨1, .endless⟩⟩ :=
    ⟨2, ⟨by decide, by simp⟩, mem_pow_class.2 ⟨rfl, fun _ _ => trivial⟩⟩
  have hmatch : "xab".toList ∈ Sequence.language
      [⟨.plain ['x'], none⟩, ⟨.lookaround ⟨false, "^.{2,4}$".toList, some 2, some 4⟩, none⟩,
        ⟨.charClass "[a-z]".toList, some ⟨1, .endless⟩⟩,
        ⟨.lookaround ⟨false, "^.{3,}$".toList, some 3, none⟩, none⟩] :=
    Language.append_mem_mul (a := ['x']) rfl (Language.append_mem_mul (a := []) rfl
      (Language.append_mem_mul hletters (Language.append_mem_mul (a := []) rfl rfl)))
  have hlongest : a.longest = .upTo 4 :=
    (lengths_of_stated (l := ⟨false, "^.{2,4}$".toList, some 2, some 4⟩) rfl ha).1
  refine ⟨_, a, hs, ha, hlongest, _, .tail _ (.head _), hmatch, ?_⟩
  apply hline _ (.tail _ (.head _)) (.head _) _ hmatch
  show ∀ stated ∈ [(⟨false, "^.{2,4}$".toList, some 2, some 4⟩ : Lookaround),
    ⟨false, "^.{3,}$".toList, some 3, none⟩], stated.Admits 3
  rw [List.forall_mem_cons, List.forall_mem_singleton]
  exact ⟨⟨by simp, by simp⟩, ⟨by simp, by simp⟩⟩

/-- A branch that states no length has matches which the analysis does not admit: the length
that another branch states is taken for the whole pattern. -/
theorem stated_length_rules_out_other_branch :
    ∃ s l a, Sequence.read "(?=^.{3}$)[a-z]+|[0-9]+".toList 64 = .ok s ∧
      s.statedLength? = some l ∧ Analysis.ofSequence s = .ok a ∧ a.longest = .upTo 3 ∧
      ∃ line ∈ s.lines, line.statedLengths = [] ∧ "12345".toList ∈ line.language ∧
        "12345".toList ∈ s.language ∧ ¬ a.Admits "12345".toList.length := by
  have hs : Sequence.read "(?=^.{3}$)[a-z]+|[0-9]+".toList 64 =
      .ok [⟨.choice [[⟨.lookaround ⟨false, "^.{3}$".toList, some 3, some 3⟩, none⟩,
          ⟨.charClass "[a-z]".toList, some ⟨1, .endless⟩⟩],
        [⟨.charClass "[0-9]".toList, some ⟨1, .endless⟩⟩]], none⟩] := by cbv
  have hdigits : "12345".toList ∈ Piece.language (fun _ => True)
      ⟨.charClass "[0-9]".toList, some ⟨1, .endless⟩⟩ :=
    ⟨5, ⟨by decide, by simp⟩, mem_pow_class.2 ⟨rfl, fun _ _ => trivial⟩⟩
  have hmatch : "12345".toList ∈ Sequence.language
      [⟨.charClass "[0-9]".toList, some ⟨1, .endless⟩⟩] :=
    Language.append_mem_mul hdigits (b := []) rfl
  refine ⟨_, _, ⟨.upTo 3, 3, []⟩, hs, rfl, rfl, rfl, _, .tail _ (.head _), rfl, hmatch,
    (Sequence.mem_language_iff_lines _).2 ⟨_, .tail _ (.head _), hmatch⟩, ?_⟩
  intro hadmits
  have hle := hadmits.le_longest 3 rfl
  exact absurd hle (by decide)

end Analysis

end InputMask
