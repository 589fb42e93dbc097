import InputMask.Proofs.Filling.Readback

/-!
# What is shown before anything is typed

With nothing typed only fixed text is shown, until slots are met. A choice shows its first
branch, and there only one fixed text, and only if nothing stands in front of it.

* `Lead` — how far the walk over a layout has come while nothing is typed.
* `leadOfSteps` — the walk. It makes no difference to it whether neighbours are joined:
  `leadOfSteps_merge`.
* `Layout.text_fill_nil` — what a layout in normal form shows with nothing typed is what
  this walk shows.
-/

namespace InputMask

/-- How far a walk over a layout has come while nothing is typed. -/
structure Lead where
  text : Text
  /-- Fixed text ends what is shown, with no choice after it. -/
  joined : Bool
  /-- Nothing more is shown. -/
  ended : Bool
deriving DecidableEq, Repr

namespace Lead

/-- Nothing shown yet. -/
def start : Lead := ⟨[], false, false⟩

/-- The same, with nothing more shown. -/
def finish (w : Lead) : Lead := { w with ended := true }

/-- The same, before or after a choice. -/
def apart (w : Lead) : Lead := { w with joined := false }

/-- Shows fixed text. In a branch this ends the walk if text is shown already, unless the two
make up one text. -/
def put (inBranch : Bool) (text : Text) (w : Lead) : Lead :=
  if text = [] then w
  else if inBranch = true ∧ w.text ≠ [] ∧ w.joined = false then w.finish
  else ⟨w.text ++ text, true, w.ended⟩

end Lead

mutual

/-- Walks over one step. -/
def Step.lead (inBranch : Bool) (w : Lead) : Step → Lead
  | .slots n => if n = 0 then w else w.finish
  | .fixed text => w.put inBranch text
  | .either branches => (leadOfFirst w.apart branches).apart

/-- Walks over steps until nothing more is shown. -/
def leadOfSteps (inBranch : Bool) (w : Lead) : List Step → Lead
  | [] => w
  | step :: rest => if w.ended then w else leadOfSteps inBranch (step.lead inBranch w) rest

/-- Walks over the first of several branches. -/
def leadOfFirst (w : Lead) : List (List Step) → Lead
  | [] => w
  | branch :: _ => leadOfSteps true w branch

end

/-! ## Walks -/

/-- What has to be shown of steps of which only the first branches matter. -/
structure Lead.Cases (P : Step → Prop) (A : List Step → Prop) : Prop where
  slots : ∀ n, P (.slots n)
  fixed : ∀ text, P (.fixed text)
  noBranch : P (.either [])
  branch : ∀ branch rest, A branch → P (.either (branch :: rest))
  nil : A []
  cons : ∀ step rest, P step → A rest → A (step :: rest)

section Cases

variable {P : Step → Prop} {A : List Step → Prop}

mutual

theorem Lead.Cases.step (h : Lead.Cases P A) : ∀ step : Step, P step
  | .slots n => h.slots n
  | .fixed text => h.fixed text
  | .either [] => h.noBranch
  | .either (branch :: rest) => h.branch branch rest (h.steps branch)

theorem Lead.Cases.steps (h : Lead.Cases P A) : ∀ steps : List Step, A steps
  | [] => h.nil
  | step :: rest => h.cons step rest (h.step step) (h.steps rest)

end

end Cases

section Walk

variable {inBranch : Bool} {w : Lead}

theorem leadOfSteps_of_ended (h : w.ended = true) (steps : List Step) :
    leadOfSteps inBranch w steps = w := by
  cases steps with
  | nil => rfl
  | cons step rest => rw [leadOfSteps, if_pos h]

theorem leadOfSteps_cons (h : w.ended = false) (step : Step) (rest : List Step) :
    leadOfSteps inBranch w (step :: rest) =
      leadOfSteps inBranch (step.lead inBranch w) rest := by
  rw [leadOfSteps, if_neg (by simp [h])]

theorem leadOfSteps_append (w : Lead) (front back : List Step) :
    leadOfSteps inBranch w (front ++ back) =
      leadOfSteps inBranch (leadOfSteps inBranch w front) back := by
  induction front generalizing w with
  | nil => rfl
  | cons step rest ih =>
    cases h : w.ended with
    | true => rw [leadOfSteps_of_ended h, leadOfSteps_of_ended h, leadOfSteps_of_ended h]
    | false => rw [List.cons_append, leadOfSteps_cons h, leadOfSteps_cons h, ih]

/-- Two texts in a row are shown like the text that they make. -/
theorem Lead.put_append {s : Text} (hs : s ≠ []) (t : Text) (h : w.ended = false) :
    w.put inBranch (s ++ t) =
      if (w.put inBranch s).ended then w.put inBranch s
      else (w.put inBranch s).put inBranch t := by
  have hst : s ++ t ≠ [] := List.append_ne_nil_of_left_ne_nil hs t
  by_cases hblock : inBranch = true ∧ w.text ≠ [] ∧ w.joined = false
  · simp [put, hs, hblock, finish]
  · by_cases ht : t = []
    · simp [put, hs, hblock, ht]
    · simp [put, hs, hblock, ht, h]

theorem leadOfSteps_join (w : Lead) {step : Step} {l joined : Layout}
    (hjoin : Layout.join step l = .ok joined) :
    leadOfSteps inBranch w joined = leadOfSteps inBranch w (step :: l) := by
  cases h : w.ended with
  | true => rw [leadOfSteps_of_ended h, leadOfSteps_of_ended h]
  | false =>
    rw [leadOfSteps_cons h]
    refine Layout.join_cases ?_ ?_ ?_ ?_ ?_ hjoin
    · intro l
      rfl
    · intro l
      rfl
    · -- slots before slots
      intro m n rest hm
      have hsum : Count.add m n ≠ 0 := by
        unfold Count.add Count.ceiling
        omega
      rw [leadOfSteps_cons h, Step.lead, Step.lead, if_neg hm, if_neg hsum,
        leadOfSteps_of_ended rfl, leadOfSteps_of_ended rfl]
    · -- fixed text before fixed text
      intro s t rest hs _
      rw [leadOfSteps_cons h, Step.lead, Step.lead, Lead.put_append hs t h]
      cases hput : (w.put inBranch s).ended with
      | true => simp [leadOfSteps_of_ended hput]
      | false =>
        rw [leadOfSteps_cons hput, Step.lead]
        simp
    · intro step l _ _ _ _
      rw [leadOfSteps_cons h]

/-- **Merging.**  The walk does not depend on whether neighbours are joined. -/
theorem leadOfSteps_merge (w : Lead) {steps : List Step} {merged : Layout}
    (hm : Layout.merge steps = .ok merged) :
    leadOfSteps inBranch w merged = leadOfSteps inBranch w steps := by
  revert w
  refine Layout.merge_induction ?_ ?_ hm
  · intro w
    rfl
  · intro step rest l joined ih hjoin w
    rw [leadOfSteps_join w hjoin]
    cases h : w.ended with
    | true => rw [leadOfSteps_of_ended h, leadOfSteps_of_ended h]
    | false => rw [leadOfSteps_cons h, leadOfSteps_cons h, ih]

/-- What is shown stays. -/
theorem Lead.prefix_put (inBranch : Bool) (text : Text) (w : Lead) :
    w.text <+: (w.put inBranch text).text := by
  unfold put
  split
  · exact List.prefix_rfl
  · split
    · exact List.prefix_rfl
    · exact List.prefix_append _ _

theorem prefix_cases : Lead.Cases
    (fun step => ∀ inBranch (w : Lead), w.text <+: (step.lead inBranch w).text)
    (fun steps => ∀ inBranch (w : Lead), w.text <+: (leadOfSteps inBranch w steps).text) where
  slots n inBranch w := by
    rw [Step.lead]
    split <;> exact List.prefix_rfl
  fixed text inBranch w := w.prefix_put inBranch text
  noBranch _ _ := List.prefix_rfl
  branch _ _ ih _ w := ih true w.apart
  nil _ _ := List.prefix_rfl
  cons step rest ihStep ihRest inBranch w := by
    rw [leadOfSteps]
    split
    · exact List.prefix_rfl
    · exact (ihStep inBranch w).trans (ihRest inBranch _)

/-- In a branch with text in front of it nothing more is shown. -/
theorem begun_cases : Lead.Cases
    (fun step => ∀ w : Lead, w.text ≠ [] → w.joined = false →
      (step.lead true w).text = w.text ∧ (step.lead true w).joined = false)
    (fun steps => ∀ w : Lead, w.text ≠ [] → w.joined = false →
      (leadOfSteps true w steps).text = w.text ∧ (leadOfSteps true w steps).joined = false) where
  slots n w _ hw := by
    rw [Step.lead]
    split <;> exact ⟨rfl, hw⟩
  fixed text w hne hw := by
    rw [Step.lead, Lead.put]
    split
    · exact ⟨rfl, hw⟩
    · rw [if_pos ⟨rfl, hne, hw⟩]
      exact ⟨rfl, hw⟩
  noBranch w _ _ := ⟨rfl, rfl⟩
  branch branch rest ih w hne _ := ⟨(ih w.apart hne rfl).1, rfl⟩
  nil w _ hw := ⟨rfl, hw⟩
  cons step rest ihStep ihRest w hne hw := by
    rw [leadOfSteps]
    split
    · exact ⟨rfl, hw⟩
    · obtain ⟨htext, hjoined⟩ := ihStep w hne hw
      have := ihRest (step.lead true w) (by rwa [htext]) hjoined
      rwa [htext] at this

end Walk

/-! ## Fillings with nothing typed -/

namespace Filling

/-- Nothing has been typed, taken or skipped. -/
structure Untyped (f : Filling) : Prop where
  used_eq : f.used = []
  pending_eq : f.pending = []
  taken_eq : f.taken = 0

theorem Untyped.withBranch {f : Filling} (h : f.Untyped) (b : Bool) :
    Untyped { f with inBranch := b } :=
  ⟨h.used_eq, h.pending_eq, h.taken_eq⟩

variable {counts : Char → Bool} {f : Filling}

theorem Untyped.place (h : f.Untyped) (text : Text) :
    f.place ⟨[], counts⟩ text = if f.isLeading then f.put .fixed text else f.stop := by
  unfold Filling.place
  by_cases hlead : f.isLeading = true
  · cases text <;> simp [h.pending_eq, hlead]
  · simp [h.pending_eq, hlead]

theorem untyped_kept : Kept ⟨[], counts⟩ Untyped where
  take n f h := by
    rw [take_of_pending_nil h.pending_eq]
    exact ⟨h.used_eq, h.pending_eq, h.taken_eq⟩
  place text f h := by
    rw [h.place]
    split <;> exact ⟨h.used_eq, h.pending_eq, h.taken_eq⟩
  inBranch b _ h := h.withBranch b

/-- Of fillings that have used nothing the first is taken. -/
theorem furthest?_eq_head {f : Filling} {rest : List Filling}
    (h : ∀ g ∈ f :: rest, g.used = []) : furthest? (f :: rest) = some f := by
  rw [furthest?]
  cases hg : furthest? rest with
  | none => rfl
  | some g =>
    have hused : g.used = [] := h g (List.mem_cons_of_mem _ (mem_of_furthest? hg))
    simp [hused]

/-- With nothing typed a choice is its first branch. -/
theorem Untyped.fill_either (h : f.Untyped) (branch : List Step) (rest : List (List Step)) :
    (Step.either (branch :: rest)).fill ⟨[], counts⟩ f =
      { fillAll ⟨[], counts⟩ { f with inBranch := true } branch with inBranch := f.inBranch } := by
  have hused : ∀ g ∈ fillEach ⟨[], counts⟩ { f with inBranch := true } (branch :: rest),
      g.used = [] :=
    fun g hg => (untyped_kept.fillEach (branch :: rest) _ (h.withBranch true) g hg).used_eq
  rw [fillEach] at hused
  rw [Step.fill, fillEach, furthest?_eq_head hused]

/-- The filling has come as far as the walk. -/
structure Follows (f : Filling) (w : Lead) : Prop where
  untyped : f.Untyped
  text_eq : f.text = w.text
  stopped_eq : f.stopped = w.ended

variable {w : Lead}

theorem Follows.isLeading (h : f.Follows w) :
    f.isLeading = true ↔ w.text = [] ∨ f.inBranch = false := by
  have hshown : f.shown = [] ↔ w.text = [] := by
    rw [← h.text_eq, Filling.text, List.map_eq_nil_iff]
  simp [Filling.isLeading, h.untyped.taken_eq, hshown]

theorem Follows.stop (h : f.Follows w) : f.stop.Follows w.finish :=
  ⟨⟨h.untyped.used_eq, h.untyped.pending_eq, h.untyped.taken_eq⟩, h.text_eq, rfl⟩

theorem Follows.place (h : f.Follows w) {text : Text} (hne : text ≠ [])
    (hjoined : f.inBranch = true → w.joined = false) :
    (f.place ⟨[], counts⟩ text).Follows (w.put f.inBranch text) := by
  rw [h.untyped.place, Lead.put, if_neg hne]
  by_cases hlead : f.isLeading = true
  · have hopen : ¬ (f.inBranch = true ∧ w.text ≠ [] ∧ w.joined = false) := by
      rintro ⟨hin, htext, -⟩
      rcases h.isLeading.1 hlead with hnil | hout
      · exact htext hnil
      · exact absurd (hin.symm.trans hout) (by simp)
    rw [if_pos hlead, if_neg hopen]
    refine ⟨⟨h.untyped.used_eq, h.untyped.pending_eq, h.untyped.taken_eq⟩, ?_, h.stopped_eq⟩
    rw [text_put, h.text_eq]
  · have hblock : f.inBranch = true ∧ w.text ≠ [] := by
      simpa [h.isLeading, and_comm] using hlead
    rw [if_neg hlead, if_pos ⟨hblock.1, hblock.2, hjoined hblock.1⟩]
    exact h.stop

/-- A filling follows the walk over steps in normal form. What the walk would join to text in
front of it is no step of its own there. -/
theorem follows_cases : Lead.Cases
    (fun step => step.Normal → ∀ (f : Filling) (w : Lead), f.Follows w →
      (f.inBranch = true → w.joined = true → ∀ text, step ≠ .fixed text) →
      (step.fill ⟨[], counts⟩ f).Follows (step.lead f.inBranch w) ∧
        (step.fill ⟨[], counts⟩ f).inBranch = f.inBranch)
    (fun steps => normalSteps steps → ∀ (f : Filling) (w : Lead), f.Follows w →
      (f.inBranch = true → w.joined = true → ∀ text, steps.head? ≠ some (.fixed text)) →
      (fillAll ⟨[], counts⟩ f steps).Follows (leadOfSteps f.inBranch w steps)) where
  slots n hn f w h _ := by
    have hn : n ≠ 0 := hn
    rw [Step.fill, Step.lead, if_neg hn, take_of_pending_nil h.untyped.pending_eq]
    exact ⟨h.stop, rfl⟩
  fixed text hne f w h hjoined := by
    have hjoined : f.inBranch = true → w.joined = false := fun hin => by
      simpa using fun hj => hjoined hin hj text rfl
    refine ⟨h.place hne hjoined, ?_⟩
    rw [Step.fill, h.untyped.place]
    split <;> rfl
  noBranch _ f w h _ := ⟨⟨h.untyped, h.text_eq, h.stopped_eq⟩, rfl⟩
  branch branch rest ih hn f w h _ := by
    rw [h.untyped.fill_either, Step.lead, leadOfFirst]
    have hbranch : Follows { f with inBranch := true } w.apart :=
      ⟨h.untyped.withBranch true, h.text_eq, h.stopped_eq⟩
    have hrun := ih hn.1 _ _ hbranch fun _ hj => by cases hj
    exact ⟨⟨hrun.untyped.withBranch _, hrun.text_eq, hrun.stopped_eq⟩, rfl⟩
  nil _ f w h _ := h
  cons step rest ihStep ihRest hn f w h hjoined := by
    obtain ⟨hstep, hnext, hrest⟩ := hn
    rw [fillAll, leadOfSteps, h.stopped_eq]
    split
    · exact h
    · obtain ⟨hfollows, hin⟩ := ihStep hstep f w h fun hb hj text heq =>
        hjoined hb hj text (by rw [heq]; rfl)
      cases hended : (step.lead f.inBranch w).ended with
      | true =>
        rw [leadOfSteps_of_ended hended, fillAll_of_stopped (hfollows.stopped_eq.trans hended)]
        exact hfollows
      | false =>
        rw [← hin] at hfollows hended ⊢
        refine ihRest hrest _ _ hfollows fun _ hj text hhead => ?_
        cases step with
        | slots n =>
          have hn : n ≠ 0 := hstep
          rw [Step.lead, if_neg hn] at hended
          cases hended
        | fixed other => exact hnext _ hhead trivial
        | either branches =>
          rw [Step.lead] at hj
          cases hj

end Filling

/-- **With nothing typed a layout shows its lead.** -/
theorem Layout.text_fill_nil {l : Layout} (hnormal : l.Normal) (counts : Char → Bool) :
    (l.fill ⟨[], counts⟩).text = (leadOfSteps false .start l).text := by
  have hstart : (Filling.start ⟨[], counts⟩).Follows .start := ⟨⟨rfl, rfl, rfl⟩, rfl, rfl⟩
  exact (Filling.follows_cases.steps l hnormal _ _ hstart fun hin => by cases hin).text_eq

end InputMask
