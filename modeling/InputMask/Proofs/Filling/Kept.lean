import InputMask.Layout.Filling

/-!
# What a filling keeps

What every step of a filling keeps, the whole filling keeps; the branches that are tried
and not taken have no part in it.

* `Layout.texts` — the fixed texts of a layout, those in branches included.
* `Filling.KeptBy` — a property that slots and some fixed texts keep and that does not depend on
  whether the steps belong to a branch. `Filling.KeptBy.fillAll`: steps in which no other fixed
  text occurs keep such a property.
* `Filling.Kept` — a property that all fixed texts keep. `Filling.Kept.fillAll`: any layout keeps
  it.
* `Filling.Reached` — the fillings on the way, those of branches that are tried included.
  `Filling.Reached.of_kept`: what is kept holds of all of them.
-/

namespace InputMask

mutual

/-- The fixed texts of a step. -/
def Step.texts : Step → List Text
  | .slots _ => []
  | .fixed text => [text]
  | .either branches => textsOfAny branches

/-- The fixed texts of steps, one after another. -/
def textsOfAll : List Step → List Text
  | [] => []
  | step :: rest => step.texts ++ textsOfAll rest

/-- The fixed texts of all of several branches. -/
def textsOfAny : List (List Step) → List Text
  | [] => []
  | branch :: rest => textsOfAll branch ++ textsOfAny rest

end

/-- The fixed texts of a layout, those in branches included. -/
def Layout.texts (l : Layout) : List Text := textsOfAll l

theorem Filling.furthest?_eq_none {fillings : List Filling} (h : furthest? fillings = none) :
    fillings = [] := by
  cases fillings with
  | nil => rfl
  | cons first rest =>
    rw [furthest?] at h
    split at h
    · cases h
    · split at h <;> cases h

/-- The filling that is taken has used up more than each one before it, and no less than each one
behind it. -/
theorem Filling.exists_split_of_furthest? {fillings : List Filling} {best : Filling}
    (h : furthest? fillings = some best) : ∃ front back, fillings = front ++ best :: back ∧
      (∀ f ∈ front, f.used.length < best.used.length) ∧
      ∀ f ∈ back, f.used.length ≤ best.used.length := by
  induction fillings generalizing best with
  | nil => cases h
  | cons first rest ih =>
    rw [furthest?] at h
    cases hg : furthest? rest with
    | none =>
      rw [hg] at h
      cases h
      exact ⟨[], [], by rw [furthest?_eq_none hg]; rfl, by simp, by simp⟩
    | some g =>
      obtain ⟨front, back, rfl, hfront, hback⟩ := ih hg
      rw [hg] at h
      dsimp only at h
      split at h
      · rename_i hlt
        cases h
        exact ⟨first :: front, back, rfl, List.forall_mem_cons.2 ⟨hlt, hfront⟩, hback⟩
      · -- nothing in the rest is further than `g`, and `g` is not further than the first one
        rename_i hle
        cases h
        refine ⟨[], front ++ g :: back, rfl, by simp, fun f hf => ?_⟩
        have hg : f.used.length ≤ g.used.length := by
          rcases List.mem_append.1 hf with hf | hf
          · exact Nat.le_of_lt (hfront f hf)
          · rcases List.mem_cons.1 hf with rfl | hf
            · exact Nat.le_refl _
            · exact hback f hf
        omega

/-- The filling that is taken is one of those that were tried. -/
theorem Filling.mem_of_furthest? {fillings : List Filling} {best : Filling}
    (h : furthest? fillings = some best) : best ∈ fillings := by
  obtain ⟨front, back, rfl, -, -⟩ := exists_split_of_furthest? h
  exact List.mem_append_right _ (List.mem_cons_self ..)

/-- The furthest filling has used up at least as much as any other. -/
theorem Filling.length_used_le_of_furthest? {fillings : List Filling} {best : Filling}
    (h : furthest? fillings = some best) : ∀ f ∈ fillings, f.used.length ≤ best.used.length := by
  obtain ⟨front, back, rfl, hfront, hback⟩ := exists_split_of_furthest? h
  intro f hf
  rcases List.mem_append.1 hf with hf | hf
  · exact Nat.le_of_lt (hfront f hf)
  · rcases List.mem_cons.1 hf with rfl | hf
    · exact Nat.le_refl _
    · exact hback f hf

/-- Branches are filled one by one from the same start. -/
theorem fillEach_eq_map (typed : Typed) (f : Filling) (branches : List (List Step)) :
    fillEach typed f branches = branches.map (fillAll typed f) := by
  induction branches with
  | nil => rfl
  | cons branch rest ih => rw [fillEach, ih, List.map_cons]

namespace Filling

/-- A property of fillings that slots and these fixed texts do not change. -/
structure KeptBy (typed : Typed) (texts : List Text) (I : Filling → Prop) : Prop where
  take : ∀ n f, I f → I (f.take n)
  place : ∀ text ∈ texts, ∀ f, I f → I (f.place typed text)
  inBranch : ∀ b f, I f → I { f with inBranch := b }

/-- A property of fillings that no step changes. -/
structure Kept (typed : Typed) (I : Filling → Prop) : Prop where
  take : ∀ n f, I f → I (f.take n)
  place : ∀ text f, I f → I (f.place typed text)
  inBranch : ∀ b f, I f → I { f with inBranch := b }

section

variable {typed : Typed} {texts : List Text} {I : Filling → Prop}

theorem Kept.keptBy (h : Kept typed I) (texts : List Text) : KeptBy typed texts I :=
  ⟨h.take, fun text _ => h.place text, h.inBranch⟩

mutual

theorem KeptBy.fill (h : KeptBy typed texts I) : ∀ (step : Step) (f : Filling),
    step.texts ⊆ texts → I f → I (step.fill typed f)
  | .slots n, f, _, hf => h.take n f hf
  | .fixed text, f, htexts, hf => h.place text (htexts (List.mem_singleton_self text)) f hf
  | .either branches, f, htexts, hf => by
    rw [Step.fill]
    split
    · exact hf
    · rename_i best hbest
      exact h.inBranch _ best (h.fillEach branches _ htexts (h.inBranch true f hf) best
        (mem_of_furthest? hbest))

/-- What every step keeps, steps one after another keep. -/
theorem KeptBy.fillAll (h : KeptBy typed texts I) : ∀ (steps : List Step) (f : Filling),
    textsOfAll steps ⊆ texts → I f → I (fillAll typed f steps)
  | [], _, _, hf => hf
  | step :: rest, f, htexts, hf => by
    obtain ⟨hstep, hrest⟩ := List.append_subset.1 htexts
    rw [InputMask.fillAll]
    split
    · exact hf
    · exact h.fillAll rest _ hrest (h.fill step f hstep hf)

theorem KeptBy.fillEach (h : KeptBy typed texts I) : ∀ (branches : List (List Step)) (f : Filling),
    textsOfAny branches ⊆ texts → I f → ∀ g ∈ fillEach typed f branches, I g
  | [], _, _, _, g, hg => by
    rw [InputMask.fillEach] at hg
    cases hg
  | branch :: rest, f, htexts, hf, g, hg => by
    obtain ⟨hbranch, hrest⟩ := List.append_subset.1 htexts
    rw [InputMask.fillEach] at hg
    rcases List.mem_cons.1 hg with rfl | hg
    · exact h.fillAll branch f hbranch hf
    · exact h.fillEach rest f hrest hf g hg

end

theorem Kept.fill (h : Kept typed I) (step : Step) (f : Filling) (hf : I f) :
    I (step.fill typed f) :=
  (h.keptBy _).fill step f (List.Subset.refl _) hf

theorem Kept.fillAll (h : Kept typed I) (steps : List Step) (f : Filling) (hf : I f) :
    I (InputMask.fillAll typed f steps) :=
  (h.keptBy _).fillAll steps f (List.Subset.refl _) hf

theorem Kept.fillEach (h : Kept typed I) (branches : List (List Step)) (f : Filling) (hf : I f) :
    ∀ g ∈ InputMask.fillEach typed f branches, I g :=
  (h.keptBy _).fillEach branches f (List.Subset.refl _) hf

/-! ## On the way -/

/-- The fillings that come about while steps are carried out, from the first to the last one. The
branches of a choice are tried in turn, so what comes about in any of them counts, whether it is
taken or not. -/
inductive Reached (typed : Typed) : Filling → List Step → Filling → Prop
  | here {f : Filling} {steps : List Step} : Reached typed f steps f
  | step {f g : Filling} {step : Step} {rest : List Step} (hrun : f.stopped = false)
    (hrest : Reached typed (step.fill typed f) rest g) : Reached typed f (step :: rest) g
  | branch {f g : Filling} {branches : List (List Step)} {branch rest : List Step}
    (hrun : f.stopped = false) (hmem : branch ∈ branches)
    (htried : Reached typed { f with inBranch := true } branch g) :
    Reached typed f (.either branches :: rest) g

/-- What every step keeps holds of every filling on the way. -/
theorem Reached.of_kept {f g : Filling} {steps : List Step} (h : Reached typed f steps g)
    (hkept : Kept typed I) (hf : I f) : I g := by
  induction h with
  | here => exact hf
  | step _ _ ih => exact ih (hkept.fill _ _ hf)
  | branch _ _ _ ih => exact ih (hkept.inBranch true _ hf)

/-- What steps lead to is the last filling on the way. -/
theorem reached_fillAll : ∀ (steps : List Step) (f : Filling),
    Reached typed f steps (InputMask.fillAll typed f steps)
  | [], _ => .here
  | step :: rest, f => by
    rw [InputMask.fillAll]
    split
    · exact .here
    · rename_i hrun
      exact .step (by simpa using hrun) (reached_fillAll rest (step.fill typed f))

end

end Filling

end InputMask
