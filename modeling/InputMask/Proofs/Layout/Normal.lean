import Mathlib
import InputMask.Pattern.Reader
import InputMask.Proofs.Layout.Steps

/-!
# Layouts in normal form

In a layout that comes from a pattern no step is empty and no two neighbours are of one
kind, in branches as well as outside.

* `Layout.Normal` — the normal form, at every depth.
* `normal_merge` — merging brings steps into normal form.
* `Sequence.normal_layout` — every layout of a sequence is in normal form.
* `Layout.Part`, `Sequence.layout_in_normal_form` — the same, step by step, of a layout and of the
  branches in it.
-/

namespace InputMask

/-- Two steps that would be one step, if they stood side by side. -/
def Step.SameKind : Step → Step → Prop
  | .slots _, .slots _ => True
  | .fixed _, .fixed _ => True
  | _, _ => False

/-- The first of some steps, if there is one, is of another kind. -/
def Step.StandsBefore (step : Step) (rest : List Step) : Prop :=
  ∀ next, rest.head? = some next → ¬ step.SameKind next

mutual

/-- A step holds something, and so do those inside it. -/
def Step.Normal : Step → Prop
  | .slots n => n ≠ 0
  | .fixed text => text ≠ []
  | .either branches => normalBranches branches

/-- Steps hold something each, and neighbours are of different kinds. -/
def normalSteps : List Step → Prop
  | [] => True
  | step :: rest => step.Normal ∧ step.StandsBefore rest ∧ normalSteps rest

/-- All of several branches are in normal form. -/
def normalBranches : List (List Step) → Prop
  | [] => True
  | branch :: rest => normalSteps branch ∧ normalBranches rest

end

/-- A layout is in normal form, at every depth. -/
def Layout.Normal (l : Layout) : Prop := normalSteps l

theorem normalSteps_front {front back : List Step} (h : normalSteps (front ++ back)) :
    normalSteps front := by
  induction front with
  | nil => trivial
  | cons step rest ih =>
    obtain ⟨hstep, hnext, hrest⟩ := h
    refine ⟨hstep, ?_, ih hrest⟩
    intro next hhead
    cases rest with
    | nil => cases hhead
    | cons first rest => exact hnext next hhead

theorem normalSteps_back {front back : List Step} (h : normalSteps (front ++ back)) :
    normalSteps back := by
  induction front with
  | nil => exact h
  | cons step rest ih => exact ih h.2.2

/-- What may stand before other steps depends on its kind alone. -/
theorem Step.StandsBefore.of_sameKind {a b : Step} {rest : List Step} (h : a.StandsBefore rest)
    (hab : a.SameKind b) : b.StandsBefore rest := by
  intro next hnext hkind
  refine h next hnext ?_
  cases a <;> cases b <;> cases next <;> simp_all [Step.SameKind]

/-- The branches of a step are in normal form. -/
def Step.NormalInside : Step → Prop
  | .either branches => normalBranches branches
  | _ => True

theorem normal_join {step : Step} {l joined : Layout} (hjoin : Layout.join step l = .ok joined)
    (hs : step.NormalInside) (hl : normalSteps l) : normalSteps joined := by
  revert hs hl
  refine Layout.join_cases ?_ ?_ ?_ ?_ ?_ hjoin
  · intro l _ hl
    exact hl
  · intro l _ hl
    exact hl
  · -- slots before slots
    intro m n rest hm _ hl
    obtain ⟨hn, hb, hrest⟩ := hl
    have hsum : Count.add m n ≠ 0 := by
      unfold Count.add Count.ceiling
      omega
    exact ⟨hsum, hb.of_sameKind trivial, hrest⟩
  · -- fixed text before fixed text
    intro s t rest hs _ _ hl
    obtain ⟨-, hb, hrest⟩ := hl
    exact ⟨List.append_ne_nil_of_left_ne_nil hs t, hb.of_sameKind trivial, hrest⟩
  · intro step l h1 h2 h3 h4 hs hl
    refine ⟨?_, ?_, hl⟩
    · cases step with
      | slots n => exact fun h => h1 (by rw [h])
      | fixed text => exact fun h => h2 (by rw [h])
      | either branches => exact hs
    · intro next hnext hkind
      cases l with
      | nil => cases hnext
      | cons first rest =>
        obtain rfl : first = next := Option.some.inj hnext
        cases step <;> cases first <;> simp_all [Step.SameKind]

theorem normal_merge {steps : List Step} {merged : Layout} (hm : Layout.merge steps = .ok merged)
    (h : ∀ step ∈ steps, step.NormalInside) : normalSteps merged := by
  revert h
  refine Layout.merge_induction ?_ ?_ hm
  · intro _
    trivial
  · intro step rest l joined ih hjoin h
    exact normal_join hjoin (h step (List.mem_cons_self ..))
      (ih fun s hs => h s (List.mem_cons_of_mem _ hs))

/-- However steps come about, their branches are in normal form. -/
theorem normal_cases (limit : Nat) : Layout.Cases limit
    (fun _ steps => ∀ step ∈ steps, step.NormalInside)
    (fun _ steps => ∀ step ∈ steps, step.NormalInside)
    (fun _ layouts => normalBranches layouts) where
  literal written meant times _ := by simp [Step.NormalInside]
  literals written meant times n text _ _ _ := by simp [Step.NormalInside]
  slots piece _ := by simp [Piece.slots, Step.NormalInside]
  group body times steps _ ih := ih
  groups body times n text whole _ _ _ _ := by simp [Step.NormalInside]
  choice branches times layouts _ ih := by simpa [Step.NormalInside] using ih
  anchor kind times := by simp
  lookaround condition times := by simp
  nil := by simp
  cons piece rest front back ihFront ihBack := by
    intro step hstep
    rcases List.mem_append.1 hstep with h | h
    · exact ihFront step h
    · exact ihBack step h
  noBranch := trivial
  branch branch rest steps layout layouts _ hmerge ihBranch ihRest :=
    ⟨normal_merge hmerge ihBranch, ihRest⟩

/-- **Layouts are in normal form.** -/
theorem Sequence.normal_layout {s : Sequence} {limit : Nat} {l : Layout}
    (h : s.layout limit = .ok l) : l.Normal := by
  obtain ⟨steps, hsteps, hmerge⟩ := Sequence.layout_eq_ok.1 h
  exact normal_merge hmerge ((normal_cases limit).pieces s steps hsteps)

/-! ## The layouts inside a layout -/

/-- A layout, the branches of its choices, their branches, and so on. -/
inductive Layout.Part (l : Layout) : Layout → Prop
  | whole : Part l l
  | branch {part branch : Layout} {branches : List Layout} (hpart : Part l part)
    (hchoice : .either branches ∈ part) (hmem : branch ∈ branches) : Part l branch

theorem Step.normal_of_mem {step : Step} {steps : List Step} (h : normalSteps steps)
    (hmem : step ∈ steps) : step.Normal := by
  obtain ⟨front, back, rfl⟩ := List.append_of_mem hmem
  exact (normalSteps_back h).1

theorem normalSteps_of_mem {branches : List (List Step)} (h : normalBranches branches) :
    ∀ branch ∈ branches, normalSteps branch := by
  induction branches with
  | nil => simp
  | cons first rest ih => exact List.forall_mem_cons.2 ⟨h.1, ih h.2⟩

/-- What holds of a layout at every depth holds of the layouts inside it. -/
theorem Layout.Normal.of_part {l part : Layout} (h : l.Normal) (hpart : l.Part part) :
    part.Normal := by
  induction hpart with
  | whole => exact h
  | branch _ hchoice hmem ih => exact normalSteps_of_mem (Step.normal_of_mem ih hchoice) _ hmem

/-- Neighbours are of different kinds, wherever they stand. -/
theorem Layout.Normal.not_sameKind {l : Layout} (h : l.Normal) {a b : Step}
    (hnext : [a, b] <:+: l) : ¬ a.SameKind b := by
  obtain ⟨front, back, rfl⟩ := hnext
  rw [Layout.Normal, List.append_assoc] at h
  exact (normalSteps_back h).2.1 b rfl

/-- **Layouts are in normal form.**  In the layout of a sequence, whatever the limit, and in every
branch at any depth inside it, there are no slots for nothing and no empty text, and neither slots
nor fixed text stand beside their like. -/
theorem Sequence.layout_in_normal_form {s : Sequence} {limit : Nat} {l : Layout}
    (h : s.layout limit = .ok l) : ∀ part, l.Part part →
      .slots 0 ∉ part ∧ .fixed [] ∉ part ∧ (∀ m n, ¬ [.slots m, .slots n] <:+: part) ∧
        ∀ first second, ¬ [.fixed first, .fixed second] <:+: part := by
  intro part hpart
  have hnormal : part.Normal := (Sequence.normal_layout h).of_part hpart
  refine ⟨fun hmem => ?_, fun hmem => ?_, fun m n hnext => ?_, fun first second hnext => ?_⟩
  · exact Step.normal_of_mem hnormal hmem rfl
  · exact Step.normal_of_mem hnormal hmem rfl
  · exact hnormal.not_sameKind hnext trivial
  · exact hnormal.not_sameKind hnext trivial

/-- An empty group, an anchor and a letter that never occurs stand between two parts of one text;
slots are joined across another such letter; and a branch holds a choice of its own. -/
theorem Sequence.layout_in_normal_form_nested :
    ∃ (s : Sequence) (l : Layout),
      Sequence.read "a()^b{0}c|[0-9]x{0}[0-9]{2}(-(d|[a-z]{0}e)f+)?".toList 64 = .ok s ∧
      s.layout 1 = .ok l ∧
      l = [.either [[.fixed "ac".toList], [.slots 3, .fixed ['-'],
        .either [[.fixed ['d']], [.fixed ['e']]], .slots 1]]] ∧
      ∀ part, l.Part part →
        .slots 0 ∉ part ∧ .fixed [] ∉ part ∧ (∀ m n, ¬ [.slots m, .slots n] <:+: part) ∧
          ∀ first second, ¬ [.fixed first, .fixed second] <:+: part := by
  obtain ⟨s, l, hs, hl, heq⟩ : ∃ (s : Sequence) (l : Layout),
      Sequence.read "a()^b{0}c|[0-9]x{0}[0-9]{2}(-(d|[a-z]{0}e)f+)?".toList 64 = .ok s ∧
        s.layout 1 = .ok l ∧ l = [.either [[.fixed "ac".toList], [.slots 3, .fixed ['-'],
          .either [[.fixed ['d']], [.fixed ['e']]], .slots 1]]] := ⟨_, _, by cbv, by cbv, rfl⟩
  exact ⟨s, l, hs, hl, heq, Sequence.layout_in_normal_form hl⟩

end InputMask
