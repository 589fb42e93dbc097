import InputMask.Layout.Template
import InputMask.Proofs.Filling.Lead

/-!
# Layouts as rows of cells

Read from left to right, a layout is a row of fixed characters and empty slots. A template
is the row with the placeholder in its slots, and filling a layout without alternatives,
whose fixed text is never recognised as typed, is going along the row cell by cell.

* `Layout.row` — the row of a layout; `Layout.template_eq` — the template is this row.
* `Row.filled` — a row with typed characters in its slots.
* `Row.Cut` — where a filled row ends: before the first slot, right after the last typed
  character, or at its own end.
* `Row.shown` — how far the row is shown, cell by cell; `Row.cut_shown`.
* `Layout.text_fill_row` — a layout shows its row so far. `Layout.fillFits_iff_of_silent`: there
  is room for that if this text can be held.
-/

namespace InputMask

/-- Cells in a row: fixed characters, and empty slots. -/
abbrev Row := List (Option Char)

mutual

/-- The cells of a step. Of several branches the first is meant. -/
def Step.row : Step → Row
  | .slots n => List.replicate n none
  | .fixed text => text.map some
  | .either branches => rowOfFirst branches

/-- The cells of steps, one after another. -/
def rowOfAll : List Step → Row
  | [] => []
  | step :: rest => step.row ++ rowOfAll rest

/-- The cells of the first of several branches. -/
def rowOfFirst : List (List Step) → Row
  | [] => []
  | branch :: _ => rowOfAll branch

end

/-- A layout as a row of cells. -/
def Layout.row (l : Layout) : Row := rowOfAll l

theorem row_cases (placeholder : Char) : Lead.Cases
    (fun step => ∀ used text, step.template placeholder used = .ok text →
      text = step.row.map (·.getD placeholder))
    (fun steps => ∀ used text, templateOfAll placeholder used steps = .ok text →
      text = (rowOfAll steps).map (·.getD placeholder)) where
  slots n used text h := by
    rw [Step.template] at h
    split at h <;> cases h
    simp [Step.row]
  fixed shown used text h := by
    obtain ⟨-, rfl⟩ := Text.behind_eq_ok.1 h
    simp [Step.row, Function.comp_def]
  noBranch used text h := by
    obtain ⟨first, hfirst, hput⟩ := TextError.bind_eq_ok.1 h
    obtain ⟨-, rfl⟩ := Text.behind_eq_ok.1 hput
    cases hfirst
    rfl
  branch branch rest ih used text h := by
    obtain ⟨first, hfirst, hput⟩ := TextError.bind_eq_ok.1 h
    obtain ⟨-, rfl⟩ := Text.behind_eq_ok.1 hput
    exact ih 0 text hfirst
  nil used text h := by
    rw [templateOfAll] at h
    cases h
    rfl
  cons step rest ihStep ihRest used text h := by
    rw [templateOfAll] at h
    obtain ⟨front, hf, h⟩ := TextError.bind_eq_ok.1 h
    obtain ⟨back, hb, h⟩ := TextError.bind_eq_ok.1 h
    cases h
    rw [rowOfAll, List.map_append, ihStep used front hf, ← ihRest _ back hb]

/-- **The template of a layout** is its row with the placeholder in the slots. -/
theorem Layout.template_eq {l : Layout} {placeholder : Char} {text : Text}
    (h : l.template placeholder = .ok text) : text = l.row.map (·.getD placeholder) :=
  (row_cases placeholder).steps l 0 text h

/-! ## Rows with typed characters -/

namespace Row

/-- The text of a row with typed characters in its slots, in order. It ends where a slot stays
empty. -/
def filled : Row → Text → Text
  | [], _ => []
  | some c :: rest, typed => c :: filled rest typed
  | none :: rest, c :: typed => c :: filled rest typed
  | none :: _, [] => []

/-- How much of a row is shown: a slot needs a character, and so does a fixed character once a
slot has been filled, which `begun` says. -/
def shown (begun : Bool) : Row → Text → Text
  | [], _ => []
  | some c :: rest, typed => if begun && typed.isEmpty then [] else c :: shown begun rest typed
  | none :: rest, c :: typed => c :: shown true rest typed
  | none :: _, [] => []

/-- A text is the row with the typed characters in its slots, cut off where these end. -/
structure Cut (row : Row) (typed text : Text) : Prop where
  /-- With nothing typed the text ends before the first slot. -/
  untyped : typed = [] → text = filled (row.takeWhile (·.isSome)) []
  /-- With as many characters as there are slots, or less, it ends with the last of them. -/
  partly : 0 < typed.length → typed.length ≤ row.count none →
    ∃ front back, row = front ++ none :: back ∧ front.count none + 1 = typed.length ∧
      text = filled (front ++ [none]) typed
  /-- With more characters than there are slots it is the whole row. -/
  fully : row.count none < typed.length → text = filled row typed

@[simp] theorem shown_true_nil (row : Row) : shown true row [] = [] := by
  rcases row with _ | ⟨_ | c, rest⟩ <;> rfl

/-- With nothing typed a row is shown up to the first slot. -/
theorem shown_nil (row : Row) : shown false row [] = filled (row.takeWhile (·.isSome)) [] := by
  induction row with
  | nil => rfl
  | cons cell rest ih =>
    cases cell with
    | none => rfl
    | some c => simp [shown, filled, ih]

/-- With more characters typed than there are slots a row is shown as a whole. -/
theorem shown_of_lt {row : Row} {typed : Text} (begun : Bool)
    (h : row.count none < typed.length) : row.shown begun typed = row.filled typed := by
  induction row generalizing begun typed with
  | nil => rfl
  | cons cell rest ih =>
    obtain ⟨c, typed, rfl⟩ := List.exists_cons_of_length_pos (Nat.zero_lt_of_lt h)
    cases cell with
    | none =>
      have hrest : rest.count none < typed.length := by simpa using h
      rw [shown, filled, ih true hrest]
    | some d =>
      have hrest : rest.count none < (c :: typed).length := by simpa using h
      simp [shown, filled, ih begun hrest]

/-- With no more characters typed than there are slots a row is shown up to the slot that the last
of them is in. -/
theorem shown_of_le {row : Row} {typed : Text} (begun : Bool) (hpos : 0 < typed.length)
    (h : typed.length ≤ row.count none) :
    ∃ front back, row = front ++ none :: back ∧ front.count none + 1 = typed.length ∧
      row.shown begun typed = filled (front ++ [none]) typed := by
  induction row generalizing begun typed with
  | nil =>
    rw [List.count_nil] at h
    omega
  | cons cell rest ih =>
    obtain ⟨c, typed, rfl⟩ := List.exists_cons_of_length_pos hpos
    cases cell with
    | some d =>
      have hrest : (c :: typed).length ≤ rest.count none := by simpa using h
      obtain ⟨front, back, rfl, hcount, hshown⟩ := ih begun hpos hrest
      refine ⟨some d :: front, back, rfl, by simpa using hcount, ?_⟩
      simp [shown, filled, hshown]
    | none =>
      by_cases hlast : typed = []
      · subst hlast
        exact ⟨[], rest, rfl, rfl, by simp [shown, filled]⟩
      · have hrest : typed.length ≤ rest.count none := by simpa using h
        obtain ⟨front, back, rfl, hcount, hshown⟩ :=
          ih true (List.length_pos_iff.2 hlast) hrest
        refine ⟨none :: front, back, rfl, by simpa using hcount, ?_⟩
        simp [shown, filled, hshown]

/-- What is shown of a row ends where it has to. -/
theorem cut_shown (row : Row) (typed : Text) : row.Cut typed (row.shown false typed) where
  untyped h := by rw [h, shown_nil]
  partly := shown_of_le false
  fully := shown_of_lt false

/-- Typing more only adds to what is shown of a row. -/
theorem shown_prefix (begun : Bool) (row : Row) (typed more : Text) :
    row.shown begun typed <+: row.shown begun (typed ++ more) := by
  induction row generalizing begun typed with
  | nil => exact List.prefix_rfl
  | cons cell rest ih =>
    cases cell with
    | none =>
      cases typed with
      | nil => exact List.nil_prefix
      | cons c typed => exact List.cons_prefix_cons.2 ⟨rfl, ih true typed⟩
    | some d =>
      rw [shown, shown]
      by_cases hwait : (begun && typed.isEmpty) = true
      · rw [if_pos hwait]
        exact List.nil_prefix
      · have hmore : ¬ (begun && (typed ++ more).isEmpty) = true := by
          cases typed <;> simp_all
        rw [if_neg hwait, if_neg hmore]
        exact List.cons_prefix_cons.2 ⟨rfl, ih begun typed⟩

/-! ### Cells in a row of one kind -/

theorem shown_true_slots (n : Nat) (row : Row) (typed : Text) :
    shown true (List.replicate n none ++ row) typed =
      typed.take n ++ row.shown true (typed.drop n) := by
  induction n generalizing typed with
  | zero => simp
  | succ n ih =>
    cases typed with
    | nil => simp
    | cons c typed => simp [List.replicate_succ, shown, ih]

/-- Slots show what is typed into them. -/
theorem shown_slots {n : Nat} (hn : n ≠ 0) (begun : Bool) (row : Row) {typed : Text}
    (h : typed ≠ []) : shown begun (List.replicate n none ++ row) typed =
      typed.take n ++ row.shown true (typed.drop n) := by
  obtain ⟨k, rfl⟩ := Nat.exists_eq_succ_of_ne_zero hn
  obtain ⟨c, typed, rfl⟩ := List.exists_cons_of_ne_nil h
  simp [List.replicate_succ, shown, shown_true_slots]

theorem shown_slots_nil {n : Nat} (hn : n ≠ 0) (begun : Bool) (row : Row) :
    shown begun (List.replicate n none ++ row) [] = [] := by
  obtain ⟨k, rfl⟩ := Nat.exists_eq_succ_of_ne_zero hn
  rfl

/-- Fixed text is shown as a whole or not at all. -/
theorem shown_text (begun : Bool) (text : Text) (row : Row) (typed : Text) :
    shown begun (text.map some ++ row) typed =
      if begun && typed.isEmpty then [] else text ++ row.shown begun typed := by
  induction text with
  | nil =>
    split
    · rename_i hwait
      simp_all
    · rfl
  | cons c text ih =>
    rw [List.map_cons, List.cons_append, shown, ih]
    split <;> rfl

end Row

/-! ## Layouts along their rows -/

/-- No character of the fixed texts in some steps counts. -/
def Layout.Silent (counts : Char → Bool) (l : Layout) : Prop :=
  ∀ text, Step.fixed text ∈ l → ∀ c ∈ text, counts c = false

/-- Steps without alternatives and with silent fixed text show the part of their row that what is
left of the typed text is enough for. -/
theorem text_fillAll_row {typed : Typed} {steps : List Step} (hnormal : normalSteps steps)
    (hlinear : Layout.Linear steps) (hsilent : Layout.Silent typed.counts steps) {f : Filling}
    (hrun : f.stopped = false) (hout : f.inBranch = false) :
    (fillAll typed f steps).text =
      f.text ++ (rowOfAll steps).shown (f.taken != 0) f.pending := by
  induction steps generalizing f with
  | nil => simp [fillAll, rowOfAll, Row.shown]
  | cons step rest ih =>
    obtain ⟨hstep, -, hnormal⟩ := hnormal
    have hlinear' : Layout.Linear rest := fun b hb => hlinear b (List.mem_cons_of_mem _ hb)
    have hsilent' : Layout.Silent typed.counts rest :=
      fun text ht => hsilent text (List.mem_cons_of_mem _ ht)
    rw [fillAll, if_neg (by simp [hrun]), rowOfAll]
    cases step with
    | either branches => exact absurd (List.mem_cons_self ..) (hlinear branches)
    | slots n =>
      rw [Step.fill, Step.row]
      by_cases hp : f.pending = []
      · rw [Filling.take_of_pending_nil hp, Filling.fillAll_of_stopped rfl, hp,
          Row.shown_slots_nil hstep]
        exact (List.append_nil f.text).symm
      · have ht := Filling.takes hstep hp
        have hbegun : ((f.take n).taken != 0) = true := by simpa using ht.taken_ne
        rw [ih hnormal hlinear' hsilent' (by rw [ht.stopped_eq, hrun])
          (by rw [ht.inBranch_eq, hout]), hbegun, ht.text_eq, ht.pending_eq,
          Row.shown_slots hstep _ _ hp, List.append_assoc]
    | fixed text =>
      rw [Step.fill, Step.row, Row.shown_text]
      by_cases hshown : f.pending ≠ [] ∨ f.isLeading = true
      · have hp := Filling.places typed text hshown
        have hsame : (f.place typed text).pending = f.pending := by
          refine hp.pending_of_not fun he => he.1 (List.filter_eq_nil_iff.2 ?_)
          simpa using hsilent text (List.mem_cons_self ..)
        have hgo : ¬ ((f.taken != 0) && f.pending.isEmpty) = true := by
          rcases hshown with h | h <;> simp_all [Filling.isLeading]
        rw [if_neg hgo, ih hnormal hlinear' hsilent' (by rw [hp.stopped_eq, hrun])
          (by rw [hp.inBranch_eq, hout]), hp.text_eq, hp.taken_eq, hsame, List.append_assoc]
      · obtain ⟨hp, hl⟩ := not_or.1 hshown
        have hp : f.pending = [] := Decidable.not_not.1 hp
        have hl : f.isLeading = false := by simpa using hl
        have hwait : ((f.taken != 0) && f.pending.isEmpty) = true := by
          simpa [Filling.isLeading, hout, hp] using hl
        rw [Filling.place_of_stopping hp hl, Filling.fillAll_of_stopped rfl, if_pos hwait]
        exact (List.append_nil f.text).symm

/-- **A layout shows its row**, as far as what was typed is enough for it. -/
theorem Layout.text_fill_row {l : Layout} (hnormal : l.Normal) (hlinear : l.Linear) (typed : Typed)
    (hsilent : l.Silent typed.counts) :
    (l.fill typed).text = l.row.shown false typed.input :=
  text_fillAll_row hnormal hlinear hsilent rfl rfl

/-! ## Room -/

/-- Nothing that is shown is taken back. -/
theorem Filling.prefix_kept (typed : Typed) (text : Text) :
    Kept typed fun g => text <+: g.text := by
  refine ⟨?take, ?place, fun b g hg => hg⟩
  case take =>
    intro n g hg
    by_cases hp : g.pending = []
    · rwa [take_of_pending_nil hp]
    · rw [take_of_pending_ne_nil hp]
      exact hg.trans (by simp [Filling.text])
  case place =>
    intro fixed g hg
    by_cases hshown : g.pending ≠ [] ∨ g.isLeading = true
    · rw [(places typed fixed hshown).text_eq]
      exact hg.trans (List.prefix_append ..)
    · obtain ⟨hp, hl⟩ := not_or.1 hshown
      rwa [place_of_stopping (Decidable.not_not.1 hp) (by simpa using hl)]

theorem fillAllFits_of_silent {typed : Typed} : ∀ (steps : List Step) (f : Filling),
    Layout.Linear steps → Layout.Silent typed.counts steps →
    (fillAll typed f steps).fits = true → fillAllFits typed f steps = true
  | [], _, _, _, _ => by rw [fillAllFits]
  | step :: rest, f, hlinear, hsilent, hfits => by
    by_cases hstopped : f.stopped = true
    · exact Filling.fillAllFits_of_stopped hstopped _
    · have hrun : f.stopped = false := by simpa using hstopped
      rw [fillAll, if_neg hstopped] at hfits
      have hfront := (Filling.prefix_kept typed _).fillAll rest (step.fill typed f)
        (List.prefix_refl _)
      have hstep : (step.fill typed f).fits = true := by
        obtain ⟨more, hmore⟩ := hfront
        rw [Filling.fits_iff, ← hmore, Text.bytes_append] at hfits
        exact Filling.fits_iff.2 (by omega)
      refine (Filling.fillAllFits_cons hrun).2 ⟨?_, fillAllFits_of_silent rest _
        (fun b hb => hlinear b (List.mem_cons_of_mem _ hb))
        (fun text ht => hsilent text (List.mem_cons_of_mem _ ht)) hfits⟩
      cases step with
      | slots n => exact hstep
      | either branches => exact absurd (List.mem_cons_self ..) (hlinear branches)
      | fixed text =>
        have hnil : text.filter typed.counts = [] :=
          List.filter_eq_nil_iff.2 (by simpa using hsilent text (List.mem_cons_self ..))
        simp only [Step.fill] at hstep
        simp [Step.fillFits, hstep, hnil, Text.isListable]

/-- A layout without alternatives in whose fixed text nothing counts needs room for what it shows
in the end, and for nothing else. -/
theorem Layout.fillFits_iff_of_silent {l : Layout} (hlinear : l.Linear) {typed : Typed}
    (hsilent : l.Silent typed.counts) :
    l.fillFits typed = true ↔ (l.fill typed).text.bytes ≤ Text.capacity := by
  constructor
  · exact Layout.fits_fill
  · exact fun h => fillAllFits_of_silent l _ hlinear hsilent (Filling.fits_iff.2 h)

end InputMask
