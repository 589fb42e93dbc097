import InputMask.Proofs.Filling.Kept

/-!
# Room for a filling

While a layout is filled, text is put behind text, and of fixed text that is shown the characters
that count are written out as a list. `Layout.fillFits` walks along with the filling and tests all
of this; here is what its answer means.

* `Filling.CarriedOut` — the steps that are carried out on the way, those in branches that are
  tried included.
* `fillAllFits_iff` — the test succeeds exactly if there is room for each of these steps.
* `Layout.fits_fill` — if it succeeds, what is shown in the end can be held.
-/

namespace InputMask

theorem Filling.fits_iff {f : Filling} : f.fits = true ↔ f.text.bytes ≤ Text.capacity :=
  decide_eq_true_iff

/-- There is room for what a step writes by itself: the text that is shown after it, and the list of
those characters of fixed text that count, unless the filling ends with this text. -/
def Step.HasRoom (typed : Typed) (f : Filling) : Step → Prop
  | .slots n => (f.take n).fits = true
  | .fixed text => (f.place typed text).fits = true ∧
      ((f.place typed text).stopped = false → Text.isListable (text.filter typed.counts) = true)
  | .either _ => True

namespace Filling

variable {typed : Typed}

/-- A step is carried out on the way, from the filling that has come about before it. -/
inductive CarriedOut (typed : Typed) : Filling → List Step → Filling → Step → Prop
  | first {f : Filling} {step : Step} {rest : List Step} (hrun : f.stopped = false) :
    CarriedOut typed f (step :: rest) f step
  | next {f g : Filling} {step other : Step} {rest : List Step} (hrun : f.stopped = false)
    (hrest : CarriedOut typed (step.fill typed f) rest g other) :
    CarriedOut typed f (step :: rest) g other
  | tried {f g : Filling} {branches : List (List Step)} {branch rest : List Step} {other : Step}
    (hrun : f.stopped = false) (hmem : branch ∈ branches)
    (htried : CarriedOut typed { f with inBranch := true } branch g other) :
    CarriedOut typed f (.either branches :: rest) g other

/-- What a step starts from is one of the fillings on the way. -/
theorem CarriedOut.reached {f g : Filling} {steps : List Step} {step : Step}
    (h : CarriedOut typed f steps g step) : Reached typed f steps g := by
  induction h with
  | first _ => exact .here
  | next hrun _ ih => exact .step hrun ih
  | tried hrun hmem _ ih => exact .branch hrun hmem ih

end Filling

open Filling

section

variable {typed : Typed}

mutual

/-- The test of a step is that of the step itself, and for a choice that of every branch. -/
theorem Step.fillFits_iff : ∀ (step : Step) (f : Filling), step.fillFits typed f = true ↔
    step.HasRoom typed f ∧ ∀ branches, step = .either branches → ∀ branch ∈ branches,
      ∀ g other, CarriedOut typed { f with inBranch := true } branch g other →
        other.HasRoom typed g
  | .slots n, f => by simp [Step.fillFits, Step.HasRoom]
  | .fixed text, f => by
    cases h : (f.place typed text).stopped <;> simp [Step.fillFits, Step.HasRoom, h]
  | .either branches, f => by
    rw [Step.fillFits, fillEachFits_iff]
    simp [Step.HasRoom]

/-- **The test of steps succeeds exactly if there is room for each one that is carried out**, in
branches that are tried too. -/
theorem fillAllFits_iff : ∀ (steps : List Step) (f : Filling), fillAllFits typed f steps = true ↔
    ∀ g step, CarriedOut typed f steps g step → step.HasRoom typed g
  | [], f => by
    refine ⟨fun _ g step h => ?_, fun _ => by rw [fillAllFits]⟩
    cases h
  | step :: rest, f => by
    rw [fillAllFits, Bool.or_eq_true, Bool.and_eq_true, Step.fillFits_iff, fillAllFits_iff rest]
    constructor
    · rintro h g other hcarried
      cases hcarried with
      | first hrun => exact (h.resolve_left (by simp [hrun])).1.1
      | next hrun hrest => exact (h.resolve_left (by simp [hrun])).2 g other hrest
      | tried hrun hmem htried =>
        exact (h.resolve_left (by simp [hrun])).1.2 _ rfl _ hmem g other htried
    · intro h
      by_cases hstopped : f.stopped = true
      · exact .inl hstopped
      · have hrun : f.stopped = false := by simpa using hstopped
        refine .inr ⟨⟨h f step (.first hrun), ?_⟩,
          fun g other hrest => h g other (.next hrun hrest)⟩
        rintro branches rfl branch hmem g other htried
        exact h g other (.tried hrun hmem htried)

theorem fillEachFits_iff : ∀ (branches : List (List Step)) (f : Filling),
    fillEachFits typed f branches = true ↔ ∀ branch ∈ branches,
      ∀ g other, CarriedOut typed f branch g other → other.HasRoom typed g
  | [], f => by simp [fillEachFits]
  | branch :: rest, f => by
    rw [fillEachFits, Bool.and_eq_true, fillAllFits_iff branch, fillEachFits_iff rest,
      List.forall_mem_cons]

end

/-! ## Fillings that can be held -/

mutual

theorem Step.fits_fill : ∀ (step : Step) (f : Filling), f.fits = true →
    step.fillFits typed f = true → (step.fill typed f).fits = true
  | .slots n, f, _, h => h
  | .fixed text, f, _, h => ((Step.fillFits_iff (.fixed text) f).1 h).1.1
  | .either branches, f, hf, h => by
    rw [Step.fill]
    split
    · exact hf
    · rename_i best hbest
      exact fits_fillEach branches { f with inBranch := true } hf h best (mem_of_furthest? hbest)

theorem fits_fillAll : ∀ (steps : List Step) (f : Filling), f.fits = true →
    fillAllFits typed f steps = true → (fillAll typed f steps).fits = true
  | [], _, hf, _ => hf
  | step :: rest, f, hf, h => by
    rw [fillAllFits, Bool.or_eq_true, Bool.and_eq_true] at h
    rw [fillAll]
    split
    · exact hf
    · rename_i hrun
      obtain ⟨hstep, hrest⟩ := h.resolve_left hrun
      exact fits_fillAll rest _ (step.fits_fill f hf hstep) hrest

theorem fits_fillEach : ∀ (branches : List (List Step)) (f : Filling), f.fits = true →
    fillEachFits typed f branches = true → ∀ g ∈ fillEach typed f branches, g.fits = true
  | [], _, _, _, g, hg => by
    rw [fillEach] at hg
    cases hg
  | branch :: rest, f, hf, h, g, hg => by
    rw [fillEachFits, Bool.and_eq_true] at h
    rw [fillEach] at hg
    rcases List.mem_cons.1 hg with rfl | hg
    · exact fits_fillAll branch f hf h.1
    · exact fits_fillEach rest f hf h.2 g hg

end

/-- **What a layout shows can be held**, if the test succeeds. -/
theorem Layout.fits_fill {l : Layout} (h : l.fillFits typed = true) :
    (l.fill typed).text.bytes ≤ Text.capacity :=
  Filling.fits_iff.1 (fits_fillAll l _ (Filling.fits_iff.2 (Nat.zero_le _)) h)

end

end InputMask
