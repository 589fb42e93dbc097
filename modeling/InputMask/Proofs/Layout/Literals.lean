import InputMask.Proofs.Analysis.Inventory
import InputMask.Proofs.Layout.Matches

/-!
# Literals in layouts

The inventory and the layout of a pattern go through its tree in different ways. The inventory
passes over whatever may be missing and notes the literals of groups that occur once; the layout
takes in optional groups too, writes repeated groups out, and joins what stands side by side.
Without alternatives both make the same room for each piece, so the literals of the inventory
stand at their places in the row of the layout.

* `Layout.linear_of_merge`, `length_rowOfAll` — without alternatives the row of a layout is as long
  as the layout is wide.
* `Layout.Shows` — literals stand at their places in a row. `Shows.append`: one after another.
* `Inventory.exists_sureText_of_steps` — a literal is laid out as the text that is noted of it.
* `inventoryOfAll_shows`, `Sequence.layout_shows` — so for all the literals of a pattern.
* `Sequence.exists_analysis_of_layout` — what can be laid out can be analysed.
-/

namespace InputMask

/-! ## Layouts without alternatives -/

namespace Layout

theorem Linear.of_append {front back : List Step} (h : Linear (front ++ back)) :
    Linear front ∧ Linear back :=
  ⟨fun branches hb => h branches (List.mem_append_left back hb),
    fun branches hb => h branches (List.mem_append_right front hb)⟩

/-- Joining leaves alternatives as they are. -/
theorem either_mem_join {step : Step} {l joined : Layout} (hjoin : join step l = .ok joined)
    {branches : List (List Step)} (h : .either branches ∈ step :: l) :
    .either branches ∈ joined := by
  revert h
  refine join_cases ?_ ?_ ?_ ?_ ?_ hjoin
  all_goals
    intros
    simp_all

/-- What is merged has alternatives only where they were. -/
theorem linear_of_merge {steps : List Step} {merged : Layout} (hm : merge steps = .ok merged)
    (h : Linear merged) : Linear steps := by
  revert h
  refine merge_induction ?_ ?_ hm
  · exact id
  · intro step rest l joined ih hjoin h branches hmem
    rcases List.mem_cons.1 hmem with hstep | hrest
    · exact h branches (either_mem_join hjoin (hstep ▸ List.mem_cons_self ..))
    · refine ih (fun others hothers => ?_) branches hrest
      exact h others (either_mem_join hjoin (List.mem_cons_of_mem _ hothers))

end Layout

/-- Without alternatives there is one cell for each character that steps show at most. -/
theorem length_rowOfAll {steps : List Step} (h : Layout.Linear steps) :
    (rowOfAll steps).length = widthOfAll steps := by
  induction steps with
  | nil => rfl
  | cons step rest ih =>
    have happend : Layout.Linear ([step] ++ rest) := h
    obtain ⟨hstep, hrest⟩ := happend.of_append
    rw [rowOfAll, widthOfAll, List.length_append, ih hrest]
    cases step with
    | slots n => simp [Step.row, Step.width]
    | fixed text => simp [Step.row, Step.width]
    | either branches => exact absurd (List.mem_singleton_self _) (hstep branches)

/-! ## Literals in a row -/

/-- Literals stand at their places in the row of steps that begin at `position`, whichever
character stands in the slots. -/
def Layout.Shows (position : Nat) (entries : List PlacedText) (steps : List Step) : Prop :=
  ∀ c, ∀ e ∈ entries, e.LiesIn position ((rowOfAll steps).map (·.getD c))

namespace Layout

variable {position : Nat} {entries others : List PlacedText} {front back : List Step}

theorem Shows.nothing : Shows position [] front := by
  intro c e he
  cases he

theorem Shows.append (hfront : Shows position entries front)
    (hback : Shows (position + (rowOfAll front).length) others back) :
    Shows position (entries ++ others) (front ++ back) := by
  intro c e he
  rw [rowOfAll_append, List.map_append]
  rcases List.mem_append.1 he with he | he
  · exact (hfront c e he).append_right _
  · refine .append_left _ ?_
    rw [List.length_map]
    exact hback c e he

/-- A text that is all that is shown, or no text at all. -/
theorem Shows.entry {text : Text} (h : text = [] ∨ rowOfAll front = text.map some) :
    Shows position (Inventory.entry text position) front := by
  intro c e he
  unfold Inventory.entry at he
  split at he
  · cases he
  · rename_i hne
    obtain rfl := List.mem_singleton.1 he
    have hrow : rowOfAll front = text.map some := h.resolve_left (by simpa using hne)
    exact ⟨[], [], by simp [hrow, Function.comp_def], rfl⟩

end Layout

/-! ## The literals of a pattern -/

section

variable {limit : Nat}

/-- What occurs at most once, and always as often, occurs once. -/
theorem Repetition.isOnce_of_fixedCount? {r : Repetition} {n : Nat} (hn : r.fixedCount? = some n)
    (h : isAtMostOnce (some r) = true) : isOnce (some r) = true := by
  have hmost : r.most = .upTo 1 := by simpa [isAtMostOnce] using h
  unfold fixedCount? at hn
  split at hn
  · rename_i hfixed
    have hleast : r.least = 1 := Extent.upTo.inj (hfixed.symm.trans hmost)
    simp [isOnce, fixedCount?, hmost, hleast]
  · cases hn

/-- **A literal is laid out as the text that is noted of it**, or nothing is noted. -/
theorem Inventory.exists_sureText_of_steps {written meant : Text} {times : Option Repetition}
    {steps : List Step} (h : Piece.steps limit ⟨.literal written meant, times⟩ = .ok steps) :
    ∃ text, sureText meant times = .ok text ∧ (text = [] ∨ rowOfAll steps = text.map some) := by
  rw [Piece.steps] at h
  by_cases honce : Repetition.isOnce times = true
  · rw [if_pos (Repetition.isAtMostOnce_of_isOnce honce)] at h
    cases h
    exact ⟨meant, by rw [sureText, if_pos honce], .inr (by simp [rowOfAll, Step.row])⟩
  · rw [sureText, if_neg honce]
    cases times with
    | none => exact absurd rfl honce
    | some r =>
      cases hn : r.fixedCount? with
      | none => exact ⟨[], by simp [hn], .inl rfl⟩
      | some n =>
        have hcount : Repetition.count? (some r) = some n := hn
        rw [if_neg fun hmost => honce (Repetition.isOnce_of_fixedCount? hn hmost), hcount] at h
        obtain ⟨text, htext, h⟩ := TextError.bind_eq_ok.1 h
        cases h
        exact ⟨text, by simp [hn, htext], .inr (by simp [rowOfAll, Step.row])⟩

mutual

/-- The literals of a piece are shown where the inventory says, if there are no alternatives. -/
theorem Piece.inventory_shows : ∀ (piece : Piece) (position : Nat) (entries : List PlacedText)
    (next m : Nat) (steps : List Step), piece.Everywhere Piece.Sound → piece.longest = .upTo m →
    position + m ≤ Count.ceiling → piece.inventory position = .ok (entries, next) →
    piece.steps limit = .ok steps → Layout.Linear steps → Layout.Shows position entries steps
  | ⟨.literal written meant, times⟩, position, entries, next, m, steps, _, _, _, h, hsteps, _ => by
    rw [Piece.inventory] at h
    obtain ⟨text, htext, h⟩ := TextError.bind_eq_ok.1 h
    cases h
    obtain ⟨shown, hshown, hrow⟩ := Inventory.exists_sureText_of_steps hsteps
    obtain rfl : text = shown := Except.ok.inj (htext.symm.trans hshown)
    exact .entry hrow
  | ⟨.group body, times⟩, position, entries, next, m, steps, hs, hm, hle, h, hsteps, hlinear => by
    rw [Piece.inventory] at h
    split at h
    · rename_i honce
      have hmost := Repetition.isAtMostOnce_of_isOnce honce
      have hbody : longestOfAll body = .upTo m := Repetition.eq_upTo_of_atMostOnce hmost hm
      rw [Piece.steps, if_pos hmost] at hsteps
      exact inventoryOfAll_shows body position entries next m steps hs.2 hbody hle h hsteps hlinear
    · cases h
      exact .nothing
  | ⟨.charClass _, _⟩, _, _, _, _, _, _, _, _, h, _, _ => by
    cases h
    exact .nothing
  | ⟨.choice _, _⟩, _, _, _, _, _, _, _, _, h, _, _ => by
    cases h
    exact .nothing
  | ⟨.anchor _, _⟩, _, _, _, _, _, _, _, _, h, _, _ => by
    cases h
    exact .nothing
  | ⟨.lookaround _, _⟩, _, _, _, _, _, _, _, _, h, _, _ => by
    cases h
    exact .nothing

/-- **The literals of pieces are shown where the inventory says.**  For each piece the inventory
goes on by its longest length, and the layout is exactly so wide. -/
theorem inventoryOfAll_shows : ∀ (pieces : List Piece) (position : Nat)
    (entries : List PlacedText) (next m : Nat) (steps : List Step),
    everywhereInAll Piece.Sound pieces → longestOfAll pieces = .upTo m →
    position + m ≤ Count.ceiling → inventoryOfAll position pieces = .ok (entries, next) →
    stepsOfAll limit pieces = .ok steps → Layout.Linear steps →
    Layout.Shows position entries steps
  | [], position, entries, next, m, steps, _, _, _, h, _, _ => by
    cases h
    exact .nothing
  | piece :: rest, position, entries, next, m, steps, hs, hm, hle, h, hsteps, hlinear => by
    rw [longestOfAll] at hm
    obtain ⟨a, b, ha, hb, rfl, -⟩ := Extent.add_eq_upTo hm
    rw [inventoryOfAll] at h
    obtain ⟨⟨first, mid⟩, hfirst, h⟩ := TextError.bind_eq_ok.1 h
    obtain ⟨⟨others, last⟩, hothers, h⟩ := TextError.bind_eq_ok.1 h
    cases h
    rw [stepsOfAll] at hsteps
    obtain ⟨front, hfront, hsteps⟩ := TextError.bind_eq_ok.1 hsteps
    obtain ⟨back, hback, hsteps⟩ := TextError.bind_eq_ok.1 hsteps
    cases hsteps
    obtain ⟨hlinearFront, hlinearBack⟩ := hlinear.of_append
    have hmid : mid = position + a :=
      (Piece.inventory_places piece position first mid a hs.1 ha (by omega) hfirst).next_eq
    have hlength : (rowOfAll front).length = a := by
      rw [length_rowOfAll hlinearFront]
      exact (width_cases limit).piece piece front hfront hs.1 a ha
    refine Layout.Shows.append (Piece.inventory_shows piece position first mid a front hs.1 ha
      (by omega) hfirst hfront hlinearFront) ?_
    rw [hlength, ← hmid]
    exact inventoryOfAll_shows rest mid others next b back hs.2 hb (by omega) hothers hback
      hlinearBack

end

mutual

/-- What is noted of a piece that can be laid out can be held. -/
theorem Piece.literalsFit_of_steps : ∀ (piece : Piece) (steps : List Step),
    piece.steps limit = .ok steps → piece.literalsFit = true
  | ⟨.literal written meant, times⟩, steps, h => by
    obtain ⟨text, htext, -⟩ := Inventory.exists_sureText_of_steps h
    exact Inventory.exists_sureText_iff.1 ⟨text, htext⟩
  | ⟨.group body, times⟩, steps, h => by
    rw [Piece.literalsFit]
    by_cases honce : Repetition.isOnce times = true
    · rw [Piece.steps, if_pos (Repetition.isAtMostOnce_of_isOnce honce)] at h
      rw [literalsFitInAll_of_steps body steps h, Bool.or_true]
    · simp [honce]
  | ⟨.charClass _, _⟩, _, _ | ⟨.choice _, _⟩, _, _ | ⟨.anchor _, _⟩, _, _
  | ⟨.lookaround _, _⟩, _, _ => rfl

theorem literalsFitInAll_of_steps : ∀ (pieces : List Piece) (steps : List Step),
    stepsOfAll limit pieces = .ok steps → literalsFitInAll pieces = true
  | [], _, _ => rfl
  | piece :: rest, steps, h => by
    rw [stepsOfAll] at h
    obtain ⟨front, hfront, h⟩ := TextError.bind_eq_ok.1 h
    obtain ⟨back, hback, -⟩ := TextError.bind_eq_ok.1 h
    rw [literalsFitInAll, Piece.literalsFit_of_steps piece front hfront,
      literalsFitInAll_of_steps rest back hback]
    rfl

end

end

/-- A pattern that can be laid out has an analysis. -/
theorem Sequence.exists_analysis_of_layout {s : Sequence} {limit : Nat} {l : Layout}
    (hl : s.layout limit = .ok l) : ∃ a, Analysis.ofSequence s = .ok a := by
  obtain ⟨steps, hsteps, -⟩ := Sequence.layout_eq_ok.1 hl
  exact (Analysis.exists_ofSequence_iff s).2 (literalsFitInAll_of_steps s steps hsteps)

/-- The literals of the analysis are shown by the layout, if it has no alternatives. -/
theorem Sequence.layout_shows {s : Sequence} (hs : s.Sound) {n : Nat} (hn : s.longest = .upTo n)
    {limit : Nat} {l : Layout} (hl : s.layout limit = .ok l) (hlinear : l.Linear) {a : Analysis}
    (ha : Analysis.ofSequence s = .ok a) : Layout.Shows 0 a.literals l := by
  obtain ⟨steps, hsteps, hmerge⟩ := Sequence.layout_eq_ok.1 hl
  obtain ⟨literals, hliterals, ha⟩ := TextError.bind_eq_ok.1 ha
  obtain rfl := Except.ok.inj ha
  obtain ⟨next, hinventory⟩ := Sequence.inventory_eq_ok hliterals
  have hle : 0 + n ≤ Count.ceiling := by
    rw [Nat.zero_add]
    exact le_ceiling_of_longestOfAll hn
  have hrow : rowOfAll l = rowOfAll steps :=
    row_merge hmerge (width_le_ceiling hs hsteps hn)
  unfold Layout.Shows
  rw [hrow]
  exact inventoryOfAll_shows s 0 literals next n steps hs hn hle hinventory hsteps
    (Layout.linear_of_merge hmerge hlinear)

/-- What stands at its place in a text is found there, and ends before the text does. -/
theorem PlacedText.LiesIn.take_drop_eq {w : Text} {e : PlacedText} (h : e.LiesIn 0 w) :
    e.position + e.text.length ≤ w.length ∧ (w.drop e.position).take e.text.length = e.text := by
  obtain ⟨front, back, rfl, hposition⟩ := h
  rw [Nat.zero_add] at hposition
  constructor
  · simp only [List.length_append]
    omega
  · rw [hposition, List.append_assoc, List.drop_left, List.take_left]

end InputMask
