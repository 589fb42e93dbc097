import InputMask.Proofs.Filling.Row
import InputMask.Proofs.Pattern.FixedText

/-!
# Full rows are matches

A row with any characters in its slots matches the pattern that it is the row of, as long as
the slots stand for nothing but classes: of those, every text of the longest length is a match,
whatever is in it.

* `Row.Admits` — a text holds the fixed characters of a row in their places.
* `row_merge` — joining neighbours changes nothing about the row.
* `Sequence.WordlessSlots` — no literal lies inside what is laid out as slots.
* `mem_languageOfAll_of_length` — without literals every text of the longest length is a match.
* `Sequence.mem_language_of_admits` — what the row of a layout admits is a match.
-/

namespace InputMask

/-! ## Texts in a row -/

/-- A text holds the fixed characters of a row in their places, and any one character in place of
each slot. -/
def Row.Admits (row : Row) (text : Text) : Prop :=
  List.Forall₂ (fun cell c => ∀ d ∈ cell, d = c) row text

namespace Row

/-- A text in a row of two parts comes apart where they do. -/
theorem Admits.of_append {front back : Row} {w : Text} (h : Admits (front ++ back) w) :
    ∃ u v, w = u ++ v ∧ Admits front u ∧ Admits back v := by
  induction front generalizing w with
  | nil => exact ⟨[], w, rfl, .nil, h⟩
  | cons cell rest ih =>
    obtain ⟨c, w, hc, hw, rfl⟩ := List.forall₂_cons_left_iff.1 h
    obtain ⟨u, v, rfl, hu, hv⟩ := ih hw
    exact ⟨c :: u, v, rfl, .cons hc hu, hv⟩

theorem Admits.eq_nil {w : Text} (h : Admits [] w) : w = [] :=
  List.forall₂_nil_left_iff.1 h

/-- A row of fixed characters admits one text. -/
theorem Admits.eq_of_text {text w : Text} (h : Admits (text.map some) w) : w = text := by
  induction text generalizing w with
  | nil => exact h.eq_nil
  | cons c text ih =>
    obtain ⟨d, w, hd, hw, rfl⟩ := List.forall₂_cons_left_iff.1 h
    rw [hd c rfl, ih hw]

theorem Admits.length_of_slots {n : Nat} {w : Text} (h : Admits (List.replicate n none) w) :
    w.length = n := by
  rw [← List.Forall₂.length_eq h, List.length_replicate]

end Row

/-! ## Merging -/

theorem rowOfAll_append (front back : List Step) :
    rowOfAll (front ++ back) = rowOfAll front ++ rowOfAll back := by
  induction front with
  | nil => rfl
  | cons step rest ih => rw [List.cons_append, rowOfAll, rowOfAll, ih, List.append_assoc]

theorem row_join {step : Step} {l joined : Layout} (hjoin : Layout.join step l = .ok joined)
    (h : step.width + widthOfAll l ≤ Count.ceiling) :
    rowOfAll joined = step.row ++ rowOfAll l := by
  revert h
  refine Layout.join_cases ?_ ?_ ?_ ?_ ?_ hjoin
  · intro l _
    rfl
  · intro l _
    rfl
  · -- slots before slots
    intro m n rest _ h
    simp only [widthOfAll, Step.width] at h
    have hsum : Count.add m n = m + n := Nat.min_eq_left (by omega)
    simp only [rowOfAll, Step.row]
    rw [hsum, List.replicate_add, List.append_assoc]
  · -- fixed text before fixed text
    intro s t rest _ _ _
    simp only [rowOfAll, Step.row]
    rw [List.map_append, List.append_assoc]
  · intros
    rfl

/-- Merging changes nothing about the row, as long as the width is a count. -/
theorem row_merge {steps : List Step} {merged : Layout} (hm : Layout.merge steps = .ok merged)
    (h : widthOfAll steps ≤ Count.ceiling) : rowOfAll merged = rowOfAll steps := by
  -- the width of what is merged already is needed to go on
  suffices rowOfAll merged = rowOfAll steps ∧ widthOfAll merged = widthOfAll steps from this.1
  revert h
  refine Layout.merge_induction ?_ ?_ hm
  · intro _
    exact ⟨rfl, rfl⟩
  · intro step rest l joined ih hjoin h
    rw [widthOfAll] at h
    obtain ⟨hrow, hwidth⟩ := ih (by omega)
    rw [rowOfAll, widthOfAll, ← hrow, ← hwidth]
    exact ⟨row_join hjoin (by omega), width_join hjoin (by omega)⟩

/-! ## Pieces without literals -/

/-- A piece that is no literal. -/
def Piece.NoLiteral (p : Piece) : Prop :=
  ∀ written meant, p.atom ≠ .literal written meant

mutual

/-- The pieces of a group and of branches are judged one by one. -/
def Atom.WordlessSlots : Atom → Prop
  | .group body => wordlessSlotsInAll body
  | .choice branches => wordlessSlotsInAny branches
  | _ => True

/-- If the piece is laid out as slots, no literal is or lies inside it. What is laid out in line
is judged by what it consists of. -/
def Piece.WordlessSlots : Piece → Prop
  | ⟨atom, times⟩ =>
    (Piece.BecomesSlots ⟨atom, times⟩ → Piece.Everywhere Piece.NoLiteral ⟨atom, times⟩) ∧
      (Repetition.isAtMostOnce times = true → atom.WordlessSlots)

/-- No literal is or lies inside any of the pieces that is laid out as slots. -/
def wordlessSlotsInAll : List Piece → Prop
  | [] => True
  | piece :: rest => piece.WordlessSlots ∧ wordlessSlotsInAll rest

/-- No literal is or lies inside any piece of the branches that is laid out as slots. -/
def wordlessSlotsInAny : List (List Piece) → Prop
  | [] => True
  | branch :: rest => wordlessSlotsInAll branch ∧ wordlessSlotsInAny rest

end

/-- No literal is or lies inside what is laid out as slots. -/
def Sequence.WordlessSlots (s : Sequence) : Prop := wordlessSlotsInAll s

/-- So many texts of one length in a row are a text that is so many times as long. -/
theorem mem_pow_of_length {base : Language Char} {a k : Nat}
    (h : ∀ u : Text, u.length = a → u ∈ base) {w : Text} (hw : w.length = k * a) :
    w ∈ base ^ k := by
  induction k generalizing w with
  | zero =>
    rw [Nat.zero_mul] at hw
    rw [List.eq_nil_of_length_eq_zero hw, pow_zero]
    exact Language.nil_mem_one
  | succ k ih =>
    rw [Nat.succ_mul] at hw
    have hfront : (w.take a).length = a := by
      rw [List.length_take]
      omega
    have hback : (w.drop a).length = k * a := by
      rw [List.length_drop]
      omega
    rw [pow_succ', ← List.take_append_drop a w]
    exact Language.append_mem_mul (h _ hfront) (ih hback)

/-- What is repeated matches every text of its longest length, if a single occurrence does. -/
theorem Repetition.mem_language_of_length {times : Option Repetition}
    (hordered : ∀ r m, times = some r → r.most = .upTo m → r.least ≤ m)
    {base : Language Char} {e : Extent} (h : ∀ u : Text, e = .upTo u.length → u ∈ base)
    {w : Text} (hw : longest times e = .upTo w.length) : w ∈ language times base := by
  cases times with
  | none => exact h w hw
  | some r =>
    rcases Extent.mul_eq_upTo hw with ⟨hzero, he | hmost⟩ | ⟨a, b, he, hmost, hab⟩
    · -- nothing is nothing however often it occurs
      have hbase : ∀ u : Text, u.length = 0 → u ∈ base := fun u hu => h u (by rw [he, hu])
      refine ⟨r.least, allows_least fun m hm => hordered r m rfl hm, ?_⟩
      exact mem_pow_of_length hbase (by rw [hzero, Nat.mul_zero])
    · refine ⟨0, allows_most hmost (hordered r 0 rfl hmost), ?_⟩
      rw [List.eq_nil_of_length_eq_zero hzero, pow_zero]
      exact Language.nil_mem_one
    · have hbase : ∀ u : Text, u.length = a → u ∈ base := fun u hu => h u (by rw [he, hu])
      refine ⟨b, allows_most hmost (hordered r b rfl hmost), ?_⟩
      exact mem_pow_of_length hbase (by rw [← hab, Nat.mul_comm])

mutual

theorem Atom.mem_language_of_length : ∀ atom : Atom, atom.Everywhere Piece.Sound →
    atom.Everywhere Piece.NoLiteral → (∀ written meant, atom ≠ .literal written meant) →
    (∀ branches, atom = .choice branches → branches ≠ []) →
    ∀ w : Text, atom.longest = .upTo w.length → w ∈ atom.language fun _ => True
  | .literal written meant, _, _, hlit, _, _, _ => absurd rfl (hlit written meant)
  | .charClass _, _, _, _, _, w, hw => by
    obtain ⟨c, rfl⟩ := List.length_eq_one_iff.1 (Extent.upTo.inj hw).symm
    exact ⟨c, trivial, rfl⟩
  | .group body, hs, h, _, _, w, hw => mem_languageOfAll_of_length body hs h w hw
  | .choice branches, hs, h, _, hne, w, hw =>
    mem_languageOfAny_of_length branches hs h (hne branches rfl) w hw
  | .anchor _, _, _, _, _, w, hw => List.eq_nil_of_length_eq_zero (Extent.upTo.inj hw).symm
  | .lookaround _, _, _, _, _, w, hw => List.eq_nil_of_length_eq_zero (Extent.upTo.inj hw).symm

theorem Piece.mem_language_of_length : ∀ piece : Piece, piece.Everywhere Piece.Sound →
    piece.Everywhere Piece.NoLiteral →
    ∀ w : Text, piece.longest = .upTo w.length → w ∈ piece.language fun _ => True
  | ⟨atom, _⟩, hs, h, _, hw =>
    Repetition.mem_language_of_length hs.1.least_le_most
      (Atom.mem_language_of_length atom hs.2 h.2 h.1 hs.1.branches_ne_nil) hw

/-- Without literals every text of the longest length is a match. -/
theorem mem_languageOfAll_of_length : ∀ pieces : List Piece,
    everywhereInAll Piece.Sound pieces → everywhereInAll Piece.NoLiteral pieces →
    ∀ w : Text, longestOfAll pieces = .upTo w.length → w ∈ languageOfAll (fun _ => True) pieces
  | [], _, _, w, hw => List.eq_nil_of_length_eq_zero (Extent.upTo.inj hw).symm
  | piece :: rest, hs, h, w, hw => by
    rw [longestOfAll] at hw
    obtain ⟨a, b, ha, hb, hab, -⟩ := Extent.add_eq_upTo hw
    have hfront : (w.take a).length = a := by
      rw [List.length_take]
      omega
    have hback : (w.drop a).length = b := by
      rw [List.length_drop]
      omega
    rw [languageOfAll, ← List.take_append_drop a w]
    exact Language.append_mem_mul
      (Piece.mem_language_of_length piece hs.1 h.1 _ (by rw [ha, hfront]))
      (mem_languageOfAll_of_length rest hs.2 h.2 _ (by rw [hb, hback]))

/-- Some branch is as long as the longest. -/
theorem mem_languageOfAny_of_length : ∀ branches : List (List Piece),
    everywhereInAny Piece.Sound branches → everywhereInAny Piece.NoLiteral branches →
    branches ≠ [] →
    ∀ w : Text, longestOfAny branches = .upTo w.length → w ∈ languageOfAny (fun _ => True) branches
  | [], _, _, hne, _, _ => absurd rfl hne
  | [branch], hs, h, _, w, hw => by
    rw [longestOfAny, longestOfAny, Extent.max_upTo_zero] at hw
    exact Or.inl (mem_languageOfAll_of_length branch hs.1 h.1 w hw)
  | first :: second :: rest, hs, h, _, w, hw => by
    rw [longestOfAny] at hw
    obtain ⟨a, b, ha, hb, hab⟩ := Extent.max_eq_upTo hw
    have hmax : a = w.length ∨ b = w.length := hab ▸ (max_choice a b).imp Eq.symm Eq.symm
    rcases hmax with rfl | rfl
    · exact Or.inl (mem_languageOfAll_of_length first hs.1 h.1 w ha)
    · exact Or.inr (mem_languageOfAny_of_length (second :: rest) hs.2 h.2 (by simp) w hb)

end

/-! ## The row of a pattern -/

/-- However steps come about, a text that their row admits is a match, if the pieces have a longest
length. -/
theorem matches_cases (limit : Nat) : Layout.Cases limit
    (fun piece steps => piece.Everywhere Piece.Sound → piece.WordlessSlots →
      ∀ m, piece.longest = .upTo m → ∀ w, (rowOfAll steps).Admits w →
        w ∈ piece.language fun _ => True)
    (fun pieces steps => everywhereInAll Piece.Sound pieces → wordlessSlotsInAll pieces →
      ∀ m, longestOfAll pieces = .upTo m → ∀ w, (rowOfAll steps).Admits w →
        w ∈ languageOfAll (fun _ => True) pieces)
    (fun branches layouts => everywhereInAny Piece.Sound branches → wordlessSlotsInAny branches →
      branches ≠ [] →
      ∀ m, longestOfAny branches = .upTo m → ∀ w, (rowOfFirst layouts).Admits w →
        w ∈ languageOfAny (fun _ => True) branches) where
  literal written meant times honce hs _ m _ w hw := by
    obtain rfl : w = meant := Row.Admits.eq_of_text (by simpa [rowOfAll, Step.row] using hw)
    exact Repetition.mem_language_of_isAtMostOnce honce hs.1.least_le_most rfl
  literals written meant times n text _ hn htext _ _ m _ w hw := by
    obtain rfl : w = text := Row.Admits.eq_of_text (by simpa [rowOfAll, Step.row] using hw)
    rw [Piece.language, Repetition.language_of_count? hn]
    show w ∈ ({meant} : Language Char) ^ n
    rw [Text.singleton_pow, Text.eq_copies_of_repeated htext]
    rfl
  slots piece hslots hs h m hm w hw := by
    have hlength : w.length = m := by
      refine Row.Admits.length_of_slots ?_
      simpa [rowOfAll, Piece.slots, Step.row, hm, Extent.end?] using hw
    obtain ⟨atom, times⟩ := piece
    exact Piece.mem_language_of_length _ hs (h.1 hslots) w (by rw [hm, hlength])
  group body times steps honce ih hs h m hm w hw := by
    have hbody : w ∈ languageOfAll (fun _ => True) body :=
      ih hs.2 (h.2 honce) m (Repetition.eq_upTo_of_atMostOnce honce hm) w hw
    exact Repetition.mem_language_of_isAtMostOnce honce hs.1.least_le_most hbody
  groups body times n text whole _ hn htext hwhole _ _ m _ w hw := by
    obtain rfl : w = whole := Row.Admits.eq_of_text (by simpa [rowOfAll, Step.row] using hw)
    rw [Piece.language, Repetition.language_of_count? hn, Atom.language,
      languageOfAll_of_fixedText body 0 text htext, Text.singleton_pow,
      Text.eq_copies_of_repeated hwhole]
    rfl
  choice branches times layouts _ ih hs h m hm w hw := by
    obtain rfl : times = none := hs.1.times_eq_none rfl
    exact ih hs.2 (h.2 rfl) (hs.1.branches_ne_nil branches rfl) m hm w
      (by simpa [rowOfAll, Step.row] using hw)
  anchor kind times hs _ m _ w hw := by
    obtain rfl : times = none := hs.1.times_eq_none rfl
    exact Row.Admits.eq_nil hw
  lookaround condition times hs _ m _ w hw := by
    obtain rfl : times = none := hs.1.times_eq_none rfl
    exact Row.Admits.eq_nil hw
  nil _ _ m _ w hw := Row.Admits.eq_nil hw
  cons piece rest front back ihFront ihBack hs h m hm w hw := by
    rw [longestOfAll] at hm
    obtain ⟨a, b, ha, hb, -, -⟩ := Extent.add_eq_upTo hm
    rw [rowOfAll_append] at hw
    obtain ⟨u, v, rfl, hu, hv⟩ := Row.Admits.of_append hw
    exact Language.append_mem_mul (ihFront hs.1 h.1 a ha u hu) (ihBack hs.2 h.2 b hb v hv)
  noBranch _ _ hne := absurd rfl hne
  branch branch rest steps layout layouts hsteps hmerge ihBranch _ hs h _ m hm w hw := by
    rw [longestOfAny] at hm
    obtain ⟨a, b, ha, hb, -⟩ := Extent.max_eq_upTo hm
    have hrow : rowOfAll layout = rowOfAll steps :=
      row_merge hmerge (width_le_ceiling hs.1 hsteps ha)
    rw [rowOfFirst, hrow] at hw
    exact Or.inl (ihBranch hs.1 h.1 a ha w hw)

/-- **A full row is a match.**  A text that the row of a layout admits matches the pattern, if the
pattern has a longest length and no literal lies inside its slots. -/
theorem Sequence.mem_language_of_admits {s : Sequence} (hs : s.Sound) (h : s.WordlessSlots)
    {m : Nat} (hm : s.longest = .upTo m) {limit : Nat} {l : Layout} (hl : s.layout limit = .ok l)
    {w : Text} (hw : l.row.Admits w) : w ∈ s.language := by
  obtain ⟨steps, hsteps, hmerge⟩ := Sequence.layout_eq_ok.1 hl
  have hrow : rowOfAll l = rowOfAll steps :=
    row_merge hmerge (width_le_ceiling hs hsteps hm)
  rw [Layout.row, hrow] at hw
  exact (matches_cases limit).pieces s steps hsteps hs h m hm w hw

end InputMask
