import InputMask.Proofs.Analysis.Longest
import InputMask.Proofs.Layout.Normal

/-!
# Texts that fill a layout

A text fills a layout if it has a character that counts for every slot and holds every
fixed text.

* `Fills` — the texts that fill some steps.
* `Fills.merge` — joining neighbours changes nothing about them. `Fills.exists_merge`: it can be
  done if there is room for such a text.
* `Sequence.Straight` — patterns without alternatives in which only classes are repeated.
* `Sequence.fills_layout` — among the texts that a straight pattern matches, the longest
  ones fill its layout.
-/

namespace InputMask

/-- The texts that fill all of the steps. -/
inductive Fills (counts : Char → Bool) : List Step → Text → Prop
  | nil : Fills counts [] []
  | slots {u v : Text} {rest : List Step} (hu : ∀ c ∈ u, counts c = true)
      (hv : Fills counts rest v) : Fills counts (.slots u.length :: rest) (u ++ v)
  | fixed {v : Text} {rest : List Step} (text : Text) (hv : Fills counts rest v) :
      Fills counts (.fixed text :: rest) (text ++ v)

section

variable {counts : Char → Bool}

theorem Fills.append {front back : List Step} {u v : Text} (hu : Fills counts front u)
    (hv : Fills counts back v) : Fills counts (front ++ back) (u ++ v) := by
  induction hu with
  | nil => exact hv
  | slots hu _ ih =>
    rw [List.cons_append, List.append_assoc]
    exact .slots hu ih
  | fixed text _ ih =>
    rw [List.cons_append, List.append_assoc]
    exact .fixed text ih

/-- A text that fills steps in a row comes apart where they do. -/
theorem Fills.of_append {front back : List Step} {w : Text}
    (h : Fills counts (front ++ back) w) :
    ∃ u v, w = u ++ v ∧ Fills counts front u ∧ Fills counts back v := by
  induction front generalizing w with
  | nil => exact ⟨[], w, rfl, .nil, h⟩
  | cons step rest ih =>
    cases h with
    | @slots u v _ hu hv =>
      obtain ⟨x, y, rfl, hx, hy⟩ := ih hv
      exact ⟨u ++ x, y, (List.append_assoc ..).symm, .slots hu hx, hy⟩
    | @fixed v _ text hv =>
      obtain ⟨x, y, rfl, hx, hy⟩ := ih hv
      exact ⟨text ++ x, y, (List.append_assoc ..).symm, .fixed text hx, hy⟩

theorem Fills.of_slots {n : Nat} {rest : List Step} {w : Text}
    (h : Fills counts (.slots n :: rest) w) :
    ∃ u v, w = u ++ v ∧ u.length = n ∧ (∀ c ∈ u, counts c = true) ∧ Fills counts rest v := by
  cases h with
  | slots hu hv => exact ⟨_, _, rfl, rfl, hu, hv⟩

/-! ## Merging -/

theorem Fills.join {step : Step} {l joined : Layout} (hjoin : Layout.join step l = .ok joined)
    {w : Text} (h : Fills counts (step :: l) w) (hlen : w.length ≤ Count.ceiling) :
    Fills counts joined w := by
  revert h
  refine Layout.join_cases ?_ ?_ ?_ ?_ ?_ hjoin
  · -- no slots at all
    intro l h
    obtain ⟨u, v, rfl, hzero, -, hv⟩ := h.of_slots
    rwa [List.eq_nil_of_length_eq_zero hzero]
  · intro l h
    cases h with
    | fixed _ hv => exact hv
  · -- slots before slots
    intro m n rest _ h
    obtain ⟨u, v, rfl, rfl, hu, hv⟩ := h.of_slots
    obtain ⟨x, y, rfl, rfl, hx, hy⟩ := hv.of_slots
    have hsum : Count.add u.length x.length = (u ++ x).length := by
      simp only [List.length_append] at hlen ⊢
      exact Nat.min_eq_left (by omega)
    rw [hsum, ← List.append_assoc]
    refine .slots (fun c hc => ?_) hy
    rcases List.mem_append.1 hc with h | h
    · exact hu c h
    · exact hx c h
  · -- fixed text before fixed text
    intro s t rest _ _ h
    cases h with
    | fixed _ hv =>
      cases hv with
      | fixed _ hy =>
        rw [← List.append_assoc]
        exact .fixed (s ++ t) hy
  · intro step l _ _ _ _ h
    exact h

/-- **Merging.**  What fills the steps fills the layout that they make, as long as it is no
longer than any count. -/
theorem Fills.merge {steps : List Step} {merged : Layout} (hm : Layout.merge steps = .ok merged)
    {w : Text} (h : Fills counts steps w) (hlen : w.length ≤ Count.ceiling) :
    Fills counts merged w := by
  induction h generalizing merged with
  | nil =>
    cases hm
    exact .nil
  | slots hu _ ih =>
    rw [Layout.merge_cons] at hm
    obtain ⟨l, hl, hjoin⟩ := TextError.bind_eq_ok.1 hm
    rw [List.length_append] at hlen
    exact (Fills.slots hu (ih hl (by omega))).join hjoin (by rwa [List.length_append])
  | fixed text _ ih =>
    rw [Layout.merge_cons] at hm
    obtain ⟨l, hl, hjoin⟩ := TextError.bind_eq_ok.1 hm
    rw [List.length_append] at hlen
    exact (Fills.fixed text (ih hl (by omega))).join hjoin (by rwa [List.length_append])

/-- Steps that a text fills can be joined if there is room for the text. -/
theorem Fills.exists_join {step : Step} {l : Layout} {w : Text} (h : Fills counts (step :: l) w)
    (hroom : w.bytes ≤ Text.capacity) : ∃ joined, Layout.join step l = .ok joined := by
  refine Layout.exists_join ?_
  rintro s t rest rfl rfl
  cases h with
  | fixed _ hv =>
    cases hv with
    | fixed _ hy =>
      simp only [Text.bytes_append] at hroom
      omega

/-- A step can be merged with steps that have been merged, if there is room for a text that fills
them all. -/
theorem Fills.exists_merge_cons {step : Step} {rest : List Step} {l : Layout} {u v : Text}
    (hl : Layout.merge rest = .ok l) (hv : Fills counts rest v)
    (hu : Fills counts l v → Fills counts (step :: l) (u ++ v))
    (hroom : Text.bytes (u ++ v) ≤ Text.capacity) (hlen : v.length ≤ Count.ceiling) :
    ∃ merged, Layout.merge (step :: rest) = .ok merged := by
  obtain ⟨joined, hjoin⟩ := (hu (hv.merge hl hlen)).exists_join hroom
  exact ⟨joined, (Layout.merge_cons ..).trans (TextError.bind_eq_ok.2 ⟨l, hl, hjoin⟩)⟩

/-- Steps that a text fills can be merged if there is room for the text. -/
theorem Fills.exists_merge {steps : List Step} {w : Text} (h : Fills counts steps w)
    (hroom : w.bytes ≤ Text.capacity) (hlen : w.length ≤ Count.ceiling) :
    ∃ merged, Layout.merge steps = .ok merged := by
  induction h with
  | nil => exact ⟨[], rfl⟩
  | slots hu hv ih =>
    have hback := hroom
    rw [Text.bytes_append] at hback
    rw [List.length_append] at hlen
    obtain ⟨l, hl⟩ := ih (by omega) (by omega)
    exact exists_merge_cons hl hv (.slots hu) hroom (by omega)
  | fixed text hv ih =>
    have hback := hroom
    rw [Text.bytes_append] at hback
    rw [List.length_append] at hlen
    obtain ⟨l, hl⟩ := ih (by omega) (by omega)
    exact exists_merge_cons hl hv (.fixed text) hroom (by omega)

end

/-! ## Straight patterns -/

/-- A piece that is no choice, and that occurs once unless it is a class. -/
@[mk_iff]
structure Piece.Straight (p : Piece) : Prop where
  not_choice : ∀ branches, p.atom ≠ .choice branches
  class_of_times : p.times ≠ none → ∃ text, p.atom = .charClass text

/-- A sequence has no alternatives, and only classes are repeated in it. -/
def Sequence.Straight (s : Sequence) : Prop := s.Everywhere Piece.Straight

theorem Piece.Straight.times_eq_none {p : Piece} (h : p.Straight)
    (hclass : ∀ text, p.atom ≠ .charClass text) : p.times = none := by
  refine Decidable.byContradiction fun hne => ?_
  obtain ⟨text, htext⟩ := h.class_of_times hne
  exact hclass text htext

theorem Piece.Straight.isAtMostOnce {p : Piece} (h : p.Straight)
    (hclass : ∀ text, p.atom ≠ .charClass text) : Repetition.isAtMostOnce p.times = true := by
  rw [h.times_eq_none hclass]
  rfl

/-- Classes in a row match nothing but characters that are taken. -/
theorem taken_of_mem_language {taken : Char → Prop} {times : Option Repetition} {text w : Text}
    (hw : w ∈ Piece.language taken ⟨.charClass text, times⟩) : ∀ c ∈ w, taken c := by
  cases times with
  | none =>
    obtain ⟨d, hd, rfl⟩ := hw
    simpa using hd
  | some r =>
    obtain ⟨k, -, hk⟩ := hw
    exact (mem_pow_class.1 hk).2

/-- Each way in which steps come about in a straight pattern is filled by the longest matches:
only one after another, where the lengths of the parts add up, is there anything to choose. -/
theorem fills_cases {counts : Char → Bool} {c : Char} (hc : counts c = true) (limit : Nat) :
    Layout.Cases limit
    (fun piece steps => piece.Everywhere Piece.Sound → piece.Everywhere Piece.Straight →
      ∀ w ∈ piece.language (counts · = true), piece.longest = .upTo w.length →
        Fills counts steps w)
    (fun pieces steps => everywhereInAll Piece.Sound pieces →
      everywhereInAll Piece.Straight pieces →
      ∀ w ∈ languageOfAll (counts · = true) pieces, longestOfAll pieces = .upTo w.length →
        Fills counts steps w)
    (fun _ _ => True) where
  literal written meant times _ _ h w hw _ := by
    obtain rfl : times = none := h.1.times_eq_none fun text => by simp
    obtain rfl : w = meant := hw
    have hfill : Fills counts [.fixed w] (w ++ []) := .fixed w .nil
    rwa [List.append_nil] at hfill
  literals written meant times n text honce _ _ _ h := by
    have := h.1.isAtMostOnce fun text => by simp
    simp_all
  slots piece hslots _ h w hw hlong := by
    obtain ⟨atom, times⟩ := piece
    obtain ⟨text, rfl⟩ : ∃ text, atom = .charClass text := by
      rcases hslots.1 with hclass | ⟨-, honce⟩
      · exact hclass
      · refine h.1.class_of_times fun hnone => ?_
        obtain rfl : times = none := hnone
        cases honce
    have hfill := Fills.slots (taken_of_mem_language hw) Fills.nil
    simpa [Piece.slots, hlong, Extent.end?] using hfill
  group body times steps _ ih hs h w hw hlong := by
    obtain rfl : times = none := h.1.times_eq_none fun text => by simp
    exact ih hs.2 h.2 w hw hlong
  groups body times n text whole honce _ _ _ _ h := by
    have := h.1.isAtMostOnce fun text => by simp
    simp_all
  choice branches times layouts _ _ _ h := absurd rfl (h.1.not_choice branches)
  anchor kind times _ h w hw _ := by
    obtain rfl : times = none := h.1.times_eq_none fun text => by simp
    rw [(Language.mem_one w).1 hw]
    exact .nil
  lookaround condition times _ h w hw _ := by
    obtain rfl : times = none := h.1.times_eq_none fun text => by simp
    rw [(Language.mem_one w).1 hw]
    exact .nil
  nil _ _ w hw _ := by
    rw [(Language.mem_one w).1 hw]
    exact .nil
  cons piece rest front back ihFront ihBack hs h w hw hlong := by
    rw [languageOfAll] at hw
    rw [longestOfAll] at hlong
    obtain ⟨u, hu, v, hv, rfl⟩ := Language.mem_mul.1 hw
    obtain ⟨a, b, ha, hb, hab, -⟩ := Extent.add_eq_upTo hlong
    have hpiece : (Extent.upTo a).Measures (piece.language (counts · = true)) :=
      ha ▸ Piece.measures_longest hc piece hs.1
    have hrest : (Extent.upTo b).Measures (languageOfAll (counts · = true) rest) :=
      hb ▸ measures_longestOfAll hc rest hs.2
    obtain ⟨rfl, rfl⟩ := hpiece.length_eq_of_append hrest hu hv hab.symm
    exact (ihFront hs.1 h.1 u hu ha).append (ihBack hs.2 h.2 v hv hb)
  noBranch := trivial
  branch _ _ _ _ _ _ _ _ _ := trivial

section

variable {s : Sequence} {counts : Char → Bool} {c : Char} {limit : Nat} {w : Text}

theorem Sequence.fills_steps (hs : s.Sound) (hstraight : s.Straight) (hc : counts c = true)
    {steps : List Step} (hsteps : stepsOfAll limit s = .ok steps)
    (hw : w ∈ s.languageOver (counts · = true)) (hlong : s.longest = .upTo w.length) :
    Fills counts steps w :=
  (fills_cases hc limit).pieces s steps hsteps hs hstraight w hw hlong

/-- **The longest matches of a straight pattern fill its layout**, if their classes take only
characters that count. -/
theorem Sequence.fills_layout (hs : s.Sound) (hstraight : s.Straight) (hc : counts c = true)
    {l : Layout} (hl : s.layout limit = .ok l) (hw : w ∈ s.languageOver (counts · = true))
    (hlong : s.longest = .upTo w.length) : Fills counts l w := by
  obtain ⟨steps, hsteps, hmerge⟩ := Sequence.layout_eq_ok.1 hl
  exact (Sequence.fills_steps hs hstraight hc hsteps hw hlong).merge hmerge
    (le_ceiling_of_longestOfAll hlong)

end

end InputMask
