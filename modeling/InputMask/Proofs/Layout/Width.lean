import InputMask.Proofs.Analysis.Longest
import InputMask.Proofs.Filling.Kept
import InputMask.Proofs.Layout.Steps

/-!
# The width of a layout

The width of a layout is the number of characters that it shows when it is full: the room
of its slots and the length of its fixed texts, and for branches the largest of theirs.

* `Layout.length_fill_le` — a filling never shows more than the layout is wide.
* `width_layout` — the layout of a sound sequence that has a longest length is exactly so
  wide; slots, repeated texts and lines of steps each account for what they match.
* `text_display` — a display that the structure of the pattern bounds cuts nothing off.
-/

namespace InputMask

mutual

/-- How many characters a step shows at most. -/
def Step.width : Step → Nat
  | .slots n => n
  | .fixed text => text.length
  | .either branches => widthOfAny branches

/-- How many characters steps show at most, one after another. -/
def widthOfAll : List Step → Nat
  | [] => 0
  | step :: rest => step.width + widthOfAll rest

/-- How many characters the widest of several branches shows at most. -/
def widthOfAny : List (List Step) → Nat
  | [] => 0
  | branch :: rest => max (widthOfAll branch) (widthOfAny rest)

end

/-- How many characters a layout shows at most. -/
def Layout.width (l : Layout) : Nat := widthOfAll l

theorem widthOfAll_append (front back : List Step) :
    widthOfAll (front ++ back) = widthOfAll front + widthOfAll back := by
  induction front with
  | nil => simp [widthOfAll]
  | cons step rest ih => simp only [List.cons_append, widthOfAll, ih, Nat.add_assoc]

/-! ## Merging -/

/-- Joining loses no width, as long as the width is a count. -/
theorem width_join {step : Step} {l joined : Layout} (hjoin : Layout.join step l = .ok joined)
    (h : step.width + widthOfAll l ≤ Count.ceiling) :
    widthOfAll joined = step.width + widthOfAll l := by
  revert h
  refine Layout.join_cases ?_ ?_ ?_ ?_ ?_ hjoin
  · intro l _
    simp [Step.width]
  · intro l _
    simp [Step.width]
  · intro m n rest _ h
    simp only [widthOfAll, Step.width, Count.add] at h ⊢
    omega
  · intro s t rest _ _ _
    simp [widthOfAll, Step.width, Nat.add_assoc]
  · intros
    rfl

theorem width_merge {steps : List Step} {merged : Layout} (hm : Layout.merge steps = .ok merged)
    (h : widthOfAll steps ≤ Count.ceiling) : widthOfAll merged = widthOfAll steps := by
  revert h
  refine Layout.merge_induction ?_ ?_ hm
  · intro _
    rfl
  · intro step rest l joined ih hjoin h
    rw [widthOfAll] at h ⊢
    have hrest : widthOfAll l = widthOfAll rest := ih (by omega)
    rw [width_join hjoin (by omega), hrest]

/-! ## Fillings -/

theorem Filling.length_take_le (n : Nat) (f : Filling) :
    (f.take n).shown.length ≤ f.shown.length + n := by
  unfold Filling.take
  split
  · exact Nat.le_add_right _ _
  · simp [Cell.ofText]

theorem Filling.length_place_le (typed : Typed) (text : Text) (f : Filling) :
    (f.place typed text).shown.length ≤ f.shown.length + text.length := by
  unfold Filling.place
  split
  · exact Nat.le_add_right _ _
  · dsimp only
    split <;> simp [Filling.put, Cell.ofText]

mutual

theorem Step.length_fill_le (typed : Typed) : ∀ (step : Step) (f : Filling),
    (step.fill typed f).shown.length ≤ f.shown.length + step.width
  | .slots n, f => Filling.length_take_le n f
  | .fixed text, f => Filling.length_place_le typed text f
  | .either branches, f => by
    rw [Step.fill, Step.width]
    split
    · exact Nat.le_add_right _ _
    · rename_i best hbest
      exact length_fillEach_le typed branches { f with inBranch := true } best
        (Filling.mem_of_furthest? hbest)

/-- A filling shows no more than the layout is wide. -/
theorem length_fillAll_le (typed : Typed) : ∀ (steps : List Step) (f : Filling),
    (fillAll typed f steps).shown.length ≤ f.shown.length + widthOfAll steps
  | [], f => Nat.le_add_right _ _
  | step :: rest, f => by
    rw [fillAll, widthOfAll]
    split
    · exact Nat.le_add_right _ _
    · have hstep := Step.length_fill_le typed step f
      have hrest := length_fillAll_le typed rest (step.fill typed f)
      omega

theorem length_fillEach_le (typed : Typed) : ∀ (branches : List (List Step)) (f g : Filling),
    g ∈ fillEach typed f branches → g.shown.length ≤ f.shown.length + widthOfAny branches
  | [], f, g, hg => by
    rw [fillEach] at hg
    cases hg
  | branch :: rest, f, g, hg => by
    rw [fillEach] at hg
    rw [widthOfAny]
    rcases List.mem_cons.1 hg with rfl | hg
    · have := length_fillAll_le typed branch f
      omega
    · have := length_fillEach_le typed rest f g hg
      omega

end

/-! ## The layout of a pattern -/

namespace Repetition

/-- What occurs at most once is at most as long as a single occurrence. -/
theorem eq_upTo_of_atMostOnce {times : Option Repetition} (h : isAtMostOnce times = true)
    {e : Extent} {m : Nat} (hm : longest times e = .upTo m) : e = .upTo m := by
  cases times with
  | none => exact hm
  | some r =>
    have hmost : r.most = .upTo 1 := by simpa [isAtMostOnce] using h
    rw [longest, hmost] at hm
    cases e with
    | endless => cases hm
    | upTo a =>
      rw [Extent.upTo_mul_upTo, Nat.mul_one, Extent.ofNat_eq_upTo] at hm
      rw [hm.1]

/-- What occurs a fixed number of times is so many times as long as a single occurrence, whose
length only matters if it has an end. -/
theorem mul_eq_of_count? {times : Option Repetition} {n : Nat} (hn : count? times = some n)
    {e : Extent} {m : Nat} (hm : longest times e = .upTo m) (length : Nat)
    (hlength : ∀ a, e = .upTo a → length = a) : n * length = m := by
  cases times with
  | none =>
    cases hn
    rw [hlength m hm, Nat.one_mul]
  | some r =>
    have hmost : r.most = .upTo n := by
      simp only [count?, fixedCount?] at hn
      split at hn
      · cases hn
        assumption
      · cases hn
    rw [longest, hmost] at hm
    rcases Extent.mul_eq_upTo hm with ⟨rfl, he | hzero⟩ | ⟨a, b, he, hb, hab⟩
    · rw [hlength 0 he, Nat.mul_zero]
    · cases hzero
      exact Nat.zero_mul _
    · cases hb
      rw [hlength a he, Nat.mul_comm]
      exact hab

end Repetition

theorem Text.length_of_repeated {n : Nat} {text whole : Text}
    (h : text.repeated n = .ok whole) : whole.length = n * text.length := by
  unfold Text.repeated at h
  split at h
  · cases h
    simp [Text.copies_eq_flatten]
  · cases h

/-- Fixed text of a piece is the fixed text of its atom, written out as often as it occurs. -/
theorem Piece.fixedText_eq_some {atom : Atom} {times : Option Repetition} {whole : Text}
    (h : Piece.fixedText ⟨atom, times⟩ = .ok (some whole)) :
    ∃ n text, Repetition.count? times = some n ∧ atom.fixedText = .ok (some text) ∧
      text.repeated n = .ok whole := by
  rw [Piece.fixedText] at h
  split at h
  · cases h
  · rename_i n hn
    obtain ⟨found, hf, h⟩ := TextError.bind_eq_ok.1 h
    cases found with
    | none => cases h
    | some text =>
      change some <$> text.repeated n = .ok (some whole) at h
      cases hr : text.repeated n with
      | error e => rw [hr] at h; cases h
      | ok t => rw [hr] at h; cases h; exact ⟨n, text, hn, hf, hr⟩

/-- Fixed text of pieces is that of the first, then that of the others, and fits behind what is in
front of it. -/
theorem fixedTextOfAll_cons_eq_some {used : Nat} {piece : Piece} {rest : List Piece} {text : Text}
    (h : fixedTextOfAll used (piece :: rest) = .ok (some text)) :
    ∃ front back, piece.fixedText = .ok (some front) ∧ used + front.bytes ≤ Text.capacity ∧
      fixedTextOfAll (used + front.bytes) rest = .ok (some back) ∧ text = front ++ back := by
  rw [fixedTextOfAll] at h
  obtain ⟨first, hf, h⟩ := TextError.bind_eq_ok.1 h
  cases first with
  | none => cases h
  | some front =>
    obtain ⟨put, hput, hrest⟩ := TextError.bind_eq_ok.1 h
    obtain ⟨hroom, rfl⟩ := Text.behind_eq_ok.1 hput
    obtain ⟨others, ho, hwhole⟩ := TextError.bind_eq_ok.1 hrest
    cases others with
    | none => cases hwhole
    | some back =>
      cases hwhole
      exact ⟨put, back, hf, hroom, ho, rfl⟩

mutual

theorem Atom.length_fixedText : ∀ (atom : Atom) (text : Text) (m : Nat),
    atom.fixedText = .ok (some text) → atom.longest = .upTo m → text.length = m
  | .literal _ meant, text, m, ht, hm => by
    rw [Atom.fixedText] at ht
    cases ht
    exact Extent.upTo.inj hm
  | .charClass _, text, m, ht, hm => by
    rw [Atom.fixedText] at ht
    cases ht
  | .group body, text, m, ht, hm => by
    rw [Atom.fixedText] at ht
    exact length_fixedTextOfAll body 0 text m ht hm
  | .choice _, text, m, ht, hm => by
    rw [Atom.fixedText] at ht
    cases ht
  | .anchor _, text, m, ht, hm => by
    rw [Atom.fixedText] at ht
    cases ht
    exact Extent.upTo.inj hm
  | .lookaround _, text, m, ht, hm => by
    rw [Atom.fixedText] at ht
    cases ht
    exact Extent.upTo.inj hm

theorem Piece.length_fixedText : ∀ (piece : Piece) (text : Text) (m : Nat),
    piece.fixedText = .ok (some text) → piece.longest = .upTo m → text.length = m
  | ⟨atom, times⟩, whole, m, ht, hm => by
    obtain ⟨n, text, hn, hf, hr⟩ := Piece.fixedText_eq_some ht
    rw [Text.length_of_repeated hr]
    exact Repetition.mul_eq_of_count? hn hm _ fun a ha => Atom.length_fixedText atom text a hf ha

/-- The one text that pieces can match is as long as their longest match. -/
theorem length_fixedTextOfAll : ∀ (pieces : List Piece) (used : Nat) (text : Text) (m : Nat),
    fixedTextOfAll used pieces = .ok (some text) → longestOfAll pieces = .upTo m → text.length = m
  | [], _, text, m, ht, hm => by
    rw [fixedTextOfAll] at ht
    cases ht
    exact Extent.upTo.inj hm
  | piece :: rest, used, text, m, ht, hm => by
    rw [longestOfAll] at hm
    obtain ⟨a, b, ha, hb, hab, -⟩ := Extent.add_eq_upTo hm
    obtain ⟨front, back, hf, -, ho, rfl⟩ := fixedTextOfAll_cons_eq_some ht
    have hfront := Piece.length_fixedText piece front a hf ha
    have hback := length_fixedTextOfAll rest _ back b ho hb
    rw [List.length_append, hfront, hback]
    exact hab

end

theorem width_slots {limit : Nat} {piece : Piece} {m : Nat} (h : piece.longest = .upTo m) :
    widthOfAll (piece.slots limit) = m := by
  simp [Piece.slots, widthOfAll, Step.width, h, Extent.end?]

/-- Each way in which steps come about accounts for what the piece can match at most. -/
theorem width_cases (limit : Nat) : Layout.Cases limit
    (fun piece steps => piece.Everywhere Piece.Sound → ∀ m, piece.longest = .upTo m →
      widthOfAll steps = m)
    (fun pieces steps => everywhereInAll Piece.Sound pieces →
      ∀ m, longestOfAll pieces = .upTo m → widthOfAll steps = m)
    (fun branches layouts => everywhereInAny Piece.Sound branches →
      ∀ m, longestOfAny branches = .upTo m → widthOfAny layouts = m) where
  literal written meant times honce _ m hm := by
    have := Repetition.eq_upTo_of_atMostOnce honce hm
    rw [Atom.longest, Extent.upTo.injEq] at this
    simpa [widthOfAll, Step.width] using this
  literals written meant times n text _ hn ht _ m hm := by
    have := Repetition.mul_eq_of_count? hn hm meant.length fun a ha =>
      Extent.upTo.inj ha
    simpa [widthOfAll, Step.width, Text.length_of_repeated ht] using this
  slots piece _ _ m hm := width_slots hm
  group body times steps honce ih h m hm :=
    ih h.2 m (Repetition.eq_upTo_of_atMostOnce honce hm)
  groups body times n text whole _ hn ht hw h m hm := by
    have := Repetition.mul_eq_of_count? hn hm text.length fun a ha =>
      length_fixedTextOfAll body 0 text a ht ha
    simpa [widthOfAll, Step.width, Text.length_of_repeated hw] using this
  choice branches times layouts _ ih h m hm := by
    have htimes : times = none := h.1.times_eq_none rfl
    rw [htimes] at hm
    simpa [widthOfAll, Step.width] using ih h.2 m hm
  anchor kind times _ m hm := by
    cases times with
    | none => exact Extent.upTo.inj hm
    | some r =>
      rw [Piece.longest, Atom.longest, Repetition.longest, Extent.upTo_zero_mul] at hm
      exact Extent.upTo.inj hm
  lookaround condition times _ m hm := by
    cases times with
    | none => exact Extent.upTo.inj hm
    | some r =>
      rw [Piece.longest, Atom.longest, Repetition.longest, Extent.upTo_zero_mul] at hm
      exact Extent.upTo.inj hm
  nil _ m hm := Extent.upTo.inj hm
  cons piece rest front back ihFront ihBack h m hm := by
    obtain ⟨a, b, ha, hb, hab, -⟩ := Extent.add_eq_upTo hm
    rw [widthOfAll_append, ihFront h.1 a ha, ihBack h.2 b hb]
    exact hab
  noBranch _ m hm := Extent.upTo.inj hm
  branch branch rest steps layout layouts _ hmerge ihBranch ihRest h m hm := by
    obtain ⟨a, b, ha, hb, hab⟩ := Extent.max_eq_upTo hm
    have hsteps : widthOfAll steps = a := ihBranch h.1 a ha
    have hcount : widthOfAll steps ≤ Count.ceiling := hsteps ▸ le_ceiling_of_longestOfAll ha
    rw [widthOfAny, width_merge hmerge hcount, hsteps, ihRest h.2 b hb]
    exact hab

/-- The steps of pieces that have a longest length are no wider than a count. -/
theorem width_le_ceiling {limit : Nat} {pieces : List Piece}
    (hs : everywhereInAll Piece.Sound pieces) {steps : List Step}
    (hsteps : stepsOfAll limit pieces = .ok steps) {m : Nat} (hm : longestOfAll pieces = .upTo m) :
    widthOfAll steps ≤ Count.ceiling := by
  have hwidth : widthOfAll steps = m := (width_cases limit).pieces pieces steps hsteps hs m hm
  rw [hwidth]
  exact le_ceiling_of_longestOfAll hm

/-- **Structure and layout agree on length.**  If a sound sequence has a longest length, its
layout is exactly so wide. -/
theorem Sequence.width_layout {s : Sequence} (hs : s.Sound) {limit : Nat} {l : Layout}
    (hl : s.layout limit = .ok l) {m : Nat} (hm : s.longest = .upTo m) : l.width = m := by
  obtain ⟨steps, hsteps, hmerge⟩ := Sequence.layout_eq_ok.1 hl
  rw [Layout.width, width_merge hmerge (width_le_ceiling hs hsteps hm)]
  exact (width_cases limit).pieces s steps hsteps hs m hm

/-- A layout is never filled with more characters than it is wide. -/
theorem Layout.length_fill_le (l : Layout) (typed : Typed) :
    (l.fill typed).text.length ≤ l.width := by
  have h := length_fillAll_le typed l (.start typed)
  simpa [Filling.text, Layout.fill, Filling.start, Layout.width] using h

/-- Cutting off at the width of a layout, or beyond it, cuts nothing off. -/
theorem Layout.display_of_width_le {l : Layout} {m : Nat} (h : l.width ≤ m) (typed : Typed) :
    l.display (.upTo m) typed = l.display .endless typed := by
  have hcut : (l.fill typed).text.take m = (l.fill typed).text :=
    List.take_of_length_le (Nat.le_trans (l.length_fill_le typed) h)
  simp only [Layout.display, Filling.display, hcut]

/-- A display that is bounded by the structure of the pattern shows all that is filled. -/
theorem Sequence.text_display {s : Sequence} (hs : s.Sound) {limit : Nat} {l : Layout}
    (hl : s.layout limit = .ok l) (typed : Typed) :
    (l.display s.longest typed).text = (l.fill typed).text := by
  cases hm : s.longest with
  | endless => rfl
  | upTo m =>
    have hwidth : l.width = m := Sequence.width_layout hs hl hm
    rw [Layout.display_of_width_le (Nat.le_of_eq hwidth)]
    rfl

end InputMask
