import InputMask.Proofs.Layout.Room
import InputMask.Proofs.Pattern.Everywhere
import InputMask.Proofs.Pattern.FixedText

/-!
# Where a pattern is fixed text

Pieces have a fixed text exactly if nothing in them can vary, and then this text is all that they
match and all that their layout holds.

* `Piece.Fixed` — a piece by itself does not vary.
* `exists_fixedTextOfAll_iff` — there is a fixed text exactly if no piece varies, at any depth, and
  the text can be held.
* `Layout.Spells` — steps that come to one text, whatever stands behind them.
* `stepsOfAll_spell` — steps of pieces that have a fixed text come to this text.
* `Sequence.fixedText_only_match` — the fixed text of a sequence, as its match and its layout.
-/

namespace InputMask

/-! ## When there is a fixed text -/

/-- A piece is no class and offers no choice, and it occurs once or a fixed number of times. -/
structure Piece.Fixed (p : Piece) : Prop where
  not_class : ∀ text, p.atom ≠ .charClass text
  not_choice : ∀ branches, p.atom ≠ .choice branches
  most_eq : ∀ r, p.times = some r → r.most = .upTo r.least

namespace Repetition

theorem isSome_count?_iff {times : Option Repetition} :
    (count? times).isSome = true ↔ ∀ r, times = some r → r.most = .upTo r.least := by
  cases times with
  | none => simp [count?]
  | some r => simp [count?, fixedCount?]

/-- What occurs a fixed number of times and at most once occurs once. -/
theorem eq_one_of_isAtMostOnce {times : Option Repetition} {n : Nat}
    (honce : isAtMostOnce times = true) (hn : count? times = some n) : n = 1 := by
  cases times with
  | none => exact (Option.some.inj hn).symm
  | some r =>
    have hmost : r.most = .upTo 1 := by simpa [isAtMostOnce] using honce
    obtain ⟨hfixed, rfl⟩ : r.most = .upTo r.least ∧ r.least = n := by
      simpa [count?, fixedCount?] using hn
    exact Extent.upTo.inj (hfixed.symm.trans hmost)

end Repetition

mutual

/-- The text of an atom has a size if the atom is neither class nor choice and nothing inside it
varies. -/
theorem Atom.isSome_fixedBytes?_iff : ∀ atom : Atom, atom.fixedBytes?.isSome = true ↔
    (∀ text, atom ≠ .charClass text) ∧ (∀ branches, atom ≠ .choice branches) ∧
      atom.Everywhere Piece.Fixed
  | .literal _ _ | .charClass _ | .choice _ | .anchor _ | .lookaround _ => by
    simp [Atom.fixedBytes?, Atom.Everywhere]
  | .group body => by
    simpa [Atom.fixedBytes?, Atom.Everywhere] using isSome_fixedBytesOfAll?_iff body

theorem Piece.isSome_fixedBytes?_iff : ∀ piece : Piece,
    piece.fixedBytes?.isSome = true ↔ piece.Everywhere Piece.Fixed
  | ⟨atom, times⟩ => by
    have hcount : (Repetition.count? times).isSome = true ↔
        ∀ r, times = some r → r.most = .upTo r.least := Repetition.isSome_count?_iff
    have hatom := Atom.isSome_fixedBytes?_iff atom
    have hpiece : (Piece.fixedBytes? ⟨atom, times⟩).isSome = true ↔
        (Repetition.count? times).isSome = true ∧ atom.fixedBytes?.isSome = true := by
      rw [Piece.fixedBytes?]
      cases Repetition.count? times <;> simp
    rw [hpiece, hcount, hatom]
    constructor
    · rintro ⟨hmost, hclass, hchoice, hinside⟩
      exact ⟨⟨hclass, hchoice, hmost⟩, hinside⟩
    · rintro ⟨⟨hclass, hchoice, hmost⟩, hinside⟩
      exact ⟨hmost, hclass, hchoice, hinside⟩

theorem isSome_fixedBytesOfAll?_iff : ∀ pieces : List Piece,
    (fixedBytesOfAll? pieces).isSome = true ↔ everywhereInAll Piece.Fixed pieces
  | [] => by simp [fixedBytesOfAll?, everywhereInAll]
  | piece :: rest => by
    have hfirst := Piece.isSome_fixedBytes?_iff piece
    have hrest := isSome_fixedBytesOfAll?_iff rest
    rw [everywhereInAll, ← hfirst, ← hrest, fixedBytesOfAll?]
    cases piece.fixedBytes? <;> simp

end

/-- **There is a fixed text exactly if nothing varies and the text can be held.** -/
theorem exists_fixedTextOfAll_iff (pieces : List Piece) (used : Nat) :
    (∃ text, fixedTextOfAll used pieces = .ok (some text)) ↔
      everywhereInAll Piece.Fixed pieces ∧ fixedTextFitsInAll used pieces = true := by
  have hsized := fixedTextOfAll_sized pieces used
  rw [← isSome_fixedBytesOfAll?_iff, ← hsized.exists_iff]
  constructor
  · rintro ⟨text, h⟩
    have hbytes := hsized.size_eq _ h
    exact ⟨by rw [← hbytes]; rfl, some text, h⟩
  · rintro ⟨hsome, found, h⟩
    rw [← hsized.size_eq found h] at hsome
    cases found with
    | none => cases hsome
    | some text => exact ⟨text, h⟩

/-! ## What is laid out for it -/

namespace Layout

/-- Steps come to a text that can be held if, whatever stands behind them, a single step with this
text could stand in their place. -/
structure Spells (steps : List Step) (text : Text) : Prop where
  fits : text.bytes ≤ Text.capacity
  merge_append : ∀ rest, merge (steps ++ rest) = merge rest >>= join (.fixed text)

theorem Spells.nil : Spells [] [] where
  fits := Nat.zero_le _
  merge_append _ := (bind_pure _).symm

theorem Spells.single {text : Text} (h : text.bytes ≤ Text.capacity) :
    Spells [.fixed text] text where
  fits := h
  merge_append := merge_cons _

theorem join_text {s t : Text} (hs : s ≠ []) (rest : Layout) :
    join (.fixed s) (.fixed t :: rest) =
      if s.bytes + t.bytes ≤ Text.capacity then .ok (.fixed (s ++ t) :: rest)
      else .error .tooLong := by
  obtain ⟨c, s, rfl⟩ := List.exists_cons_of_ne_nil hs
  rw [join, Text.behind]
  · split <;> rfl
  · exact hs

/-- Fixed text in front of fixed text is joined with it, if both together can be held. -/
theorem join_join {s t : Text} (h : Text.bytes (s ++ t) ≤ Text.capacity) (l : Layout) :
    join (.fixed t) l >>= join (.fixed s) = join (.fixed (s ++ t)) l := by
  rw [Text.bytes_append] at h
  by_cases hs : s = []
  · rw [hs]
    exact bind_pure _
  by_cases ht : t = []
  · rw [ht, List.append_nil]
    rfl
  have hst : s ++ t ≠ [] := List.append_ne_nil_of_left_ne_nil hs t
  obtain ⟨c, s', rfl⟩ := List.exists_cons_of_ne_nil hs
  obtain ⟨d, t', rfl⟩ := List.exists_cons_of_ne_nil ht
  -- whether there is a fixed text behind both decides what the inner join gives
  rcases l with _ | ⟨_ | u | _, rest⟩
  case cons.fixed =>
    have hsum : Text.bytes (c :: s') + Text.bytes (d :: t' ++ u) =
        Text.bytes (c :: s' ++ d :: t') + u.bytes := by
      rw [Text.bytes_append, Text.bytes_append, Nat.add_assoc]
    rw [join_text ht, join_text hst]
    by_cases hroom : Text.bytes (d :: t') + u.bytes ≤ Text.capacity
    · rw [if_pos hroom, List.append_assoc, ← hsum]
      exact join_text hs rest
    · rw [if_neg hroom, if_neg (by rw [Text.bytes_append]; omega)]
      rfl
  all_goals exact (join_text hs _).trans (if_pos h)

theorem Spells.append {front back : List Step} {s t : Text} (hs : Spells front s)
    (ht : Spells back t) (h : Text.bytes (s ++ t) ≤ Text.capacity) :
    Spells (front ++ back) (s ++ t) where
  fits := h
  merge_append rest := by
    rw [List.append_assoc, hs.merge_append, ht.merge_append, bind_assoc]
    exact bind_congr fun l => join_join h l

/-- The layout of steps that come to a text is this text alone, or nothing if it is empty. -/
theorem Spells.merge_eq {steps : List Step} {text : Text} (h : Spells steps text) :
    merge steps = merge [.fixed text] := by
  rw [← List.append_nil steps, h.merge_append, merge_cons]

/-- A single text has a layout, which is empty if the text is. -/
theorem exists_merge_text (text : Text) : ∃ l, merge [.fixed text] = .ok l := by
  cases text with
  | nil => exact ⟨[], rfl⟩
  | cons c text => exact ⟨[.fixed (c :: text)], rfl⟩

end Layout

theorem Text.bytes_le_of_repeated {n : Nat} {text whole : Text} (h : text.repeated n = .ok whole) :
    whole.bytes ≤ capacity := by
  have hsized := repeated_sized n text
  rw [hsized.size_eq whole h]
  exact of_decide_eq_true (hsized.exists_iff.1 ⟨whole, h⟩)

theorem Text.repeated_one {text whole : Text} (h : text.repeated 1 = .ok whole) : whole = text := by
  rw [Text.eq_copies_of_repeated h, Text.copies_eq_flatten]
  simp

mutual

/-- The steps of a piece that has a fixed text come to this text. -/
theorem Piece.steps_spell (limit : Nat) : ∀ (piece : Piece) (whole : Text),
    piece.fixedText = .ok (some whole) →
      ∃ steps, piece.steps limit = .ok steps ∧ Layout.Spells steps whole
  | ⟨atom, times⟩, whole, h => by
    obtain ⟨n, text, hn, htext, hwhole⟩ := Piece.fixedText_eq_some h
    have hfits : whole.bytes ≤ Text.capacity := Text.bytes_le_of_repeated hwhole
    have honce : Repetition.isAtMostOnce times = true → whole = text := fun honce =>
      Text.repeated_one (by rwa [Repetition.eq_one_of_isAtMostOnce honce hn] at hwhole)
    cases atom with
    | literal written meant =>
      obtain rfl : meant = text := Option.some.inj (Except.ok.inj htext)
      rw [Piece.steps]
      by_cases ho : Repetition.isAtMostOnce times = true
      · obtain rfl := honce ho
        rw [if_pos ho]
        exact ⟨_, rfl, .single hfits⟩
      · rw [if_neg ho, hn]
        exact ⟨_, TextError.bind_eq_ok.2 ⟨whole, hwhole, rfl⟩, .single hfits⟩
    | group body =>
      rw [Atom.fixedText] at htext
      rw [Piece.steps]
      by_cases ho : Repetition.isAtMostOnce times = true
      · rw [if_pos ho, honce ho]
        exact stepsOfAll_spell limit body 0 text htext
      · rw [if_neg ho, hn]
        exact ⟨_, TextError.bind_eq_ok.2 ⟨some text, htext,
          TextError.bind_eq_ok.2 ⟨whole, hwhole, rfl⟩⟩, .single hfits⟩
    | anchor | lookaround =>
      obtain rfl : [] = text := Option.some.inj (Except.ok.inj htext)
      obtain rfl : whole = [] := Text.eq_copies_of_repeated hwhole
      rw [Piece.steps]
      exact ⟨_, rfl, .nil⟩
    | charClass | choice => cases htext

/-- **The steps of pieces that have a fixed text come to this text.** -/
theorem stepsOfAll_spell (limit : Nat) : ∀ (pieces : List Piece) (used : Nat) (text : Text),
    fixedTextOfAll used pieces = .ok (some text) →
      ∃ steps, stepsOfAll limit pieces = .ok steps ∧ Layout.Spells steps text
  | [], _, text, h => by
    obtain rfl : [] = text := Option.some.inj (Except.ok.inj h)
    exact ⟨[], rfl, .nil⟩
  | piece :: rest, used, text, h => by
    obtain ⟨front, back, hfront, hroom, hback, rfl⟩ := fixedTextOfAll_cons_eq_some h
    obtain ⟨first, hfirst, hspell⟩ := Piece.steps_spell limit piece front hfront
    obtain ⟨others, hothers, hspells⟩ := stepsOfAll_spell limit rest _ back hback
    have hfits := bytes_le_of_fixedText rest hroom hback
    rw [stepsOfAll, hfirst, hothers]
    exact ⟨first ++ others, rfl, hspell.append hspells (by rw [Text.bytes_append]; omega)⟩

end

/-- A group that occurs a fixed number of times other than once is laid out as a text only if this
is its fixed text. -/
theorem Piece.fixedText_of_steps {body : List Piece} {r : Repetition} {limit : Nat} {whole : Text}
    (hmost : r.most = .upTo r.least) (hne : r.least ≠ 1)
    (h : Piece.steps limit ⟨.group body, some r⟩ = .ok [.fixed whole]) :
    Piece.fixedText ⟨.group body, some r⟩ = .ok (some whole) := by
  have hcount : Repetition.count? (some r) = some r.least := by
    simp [Repetition.count?, Repetition.fixedCount?, hmost]
  have honce : ¬ Repetition.isAtMostOnce (some r) = true := by
    simp [Repetition.isAtMostOnce, hmost, hne]
  rw [Piece.steps, if_neg honce, hcount] at h
  obtain ⟨found, hfound, h⟩ := TextError.bind_eq_ok.1 h
  cases found with
  | none => cases h
  | some text =>
    obtain ⟨copies, hcopies, h⟩ := TextError.bind_eq_ok.1 h
    cases h
    rw [Piece.fixedText, hcount]
    refine TextError.bind_eq_ok.2 ⟨some text, hfound, ?_⟩
    show some <$> text.repeated r.least = _
    rw [hcopies]
    rfl

/-- **Fixed text really is fixed.**  The fixed text of a sequence is a match of it and the only
one, and its layout is this text alone. What is laid out as a text for a group that occurs a fixed
number of times is therefore all that the group matches; a group that occurs once is laid out
like the sequence inside it. There is a fixed text exactly if at every depth each piece is fixed
text, a group, an anchor or a condition, without a repetition or with one of a fixed number, and
the text can be held. -/
theorem Sequence.fixedText_only_match (s : Sequence) :
    (∀ text, s.fixedText = .ok (some text) →
      s.language = {text} ∧
        ∃ l, Layout.merge [.fixed text] = .ok l ∧ ∀ limit, s.layout limit = .ok l) ∧
    (∀ (r : Repetition) (limit : Nat) (whole : Text), r.most = .upTo r.least → r.least ≠ 1 →
      Piece.steps limit ⟨.group s, some r⟩ = .ok [.fixed whole] →
        Sequence.language [⟨.group s, some r⟩] = {whole}) ∧
    ((∃ text, s.fixedText = .ok (some text)) ↔
      s.Everywhere Piece.Fixed ∧ fixedTextFitsInAll 0 s = true) := by
  refine ⟨?_, ?_, exists_fixedTextOfAll_iff s 0⟩
  · intro text h
    obtain ⟨l, hl⟩ := Layout.exists_merge_text text
    refine ⟨languageOfAll_of_fixedText s 0 text h, l, hl, fun limit => ?_⟩
    obtain ⟨steps, hsteps, hspell⟩ := stepsOfAll_spell limit s 0 text h
    exact Sequence.layout_eq_ok.2 ⟨steps, hsteps, hspell.merge_eq.trans hl⟩
  · intro r limit whole hmost hne h
    have hpiece := Piece.fixedText_of_steps hmost hne h
    have hlanguage : Piece.language (fun _ => True) ⟨.group s, some r⟩ = {whole} :=
      Piece.language_of_fixedText _ _ hpiece
    rw [Sequence.language, Sequence.languageOver, languageOfAll, hlanguage]
    exact mul_one _

/-- Repeated groups inside one another, with an edge of a word and a condition between them: one
text is matched and laid out. With a class in the innermost group there is no such text. -/
theorem Sequence.fixedText_only_match_nested :
    ∃ s, Sequence.read "(a{2}\\b(b(?=c)){1}){2}-".toList 2 = .ok s ∧
      s.fixedText = .ok (some "aabaab-".toList) ∧ s.language = {"aabaab-".toList} ∧
      s.layout 256 = .ok [.fixed "aabaab-".toList] ∧
      Sequence.language [⟨.group s, some ⟨3, .upTo 3⟩⟩] = {"aabaab-aabaab-aabaab-".toList} ∧
      ∃ t, Sequence.read "(a{2}\\b([b](?=c)){1}){2}-".toList 2 = .ok t ∧
        ¬ ∃ text, t.fixedText = .ok (some text) := by
  obtain ⟨s, hread, hfixed, hgroup⟩ : ∃ s,
      Sequence.read "(a{2}\\b(b(?=c)){1}){2}-".toList 2 = .ok s ∧
      s.fixedText = .ok (some "aabaab-".toList) ∧
      Piece.steps 256 ⟨.group s, some ⟨3, .upTo 3⟩⟩ = .ok [.fixed "aabaab-aabaab-aabaab-".toList] :=
    ⟨_, by cbv, by cbv, by cbv⟩
  obtain ⟨t, hclass, hnone⟩ : ∃ t, Sequence.read "(a{2}\\b([b](?=c)){1}){2}-".toList 2 = .ok t ∧
      t.fixedText = .ok none := ⟨_, by cbv, by cbv⟩
  obtain ⟨hmatch, honly, -⟩ := Sequence.fixedText_only_match s
  obtain ⟨hlanguage, l, hl, hlayout⟩ := hmatch _ hfixed
  obtain rfl : [.fixed "aabaab-".toList] = l := Except.ok.inj hl
  refine ⟨s, hread, hfixed, hlanguage, hlayout 256, ?_, t, hclass, ?_⟩
  · exact honly ⟨3, .upTo 3⟩ 256 _ rfl (by decide) hgroup
  · rintro ⟨text, h⟩
    rw [hnone] at h
    cases h

end InputMask
