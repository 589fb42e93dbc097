import Mathlib.Order.Bounds.Basic
import InputMask.Proofs.Filling.Kept

/-!
# Which branch is taken

Every branch of a choice is tried from the same filling. The one that is taken is the first
of those that use up most of the typed text, and the filling behind the choice is the one that this
branch leads to: what the other branches have shown, counted or stopped is nowhere in it.

* `Filling.tried` — the filling that a branch leads to.
* `Filling.furthestBranches` — the branches, by their places, that use up most.
* `Step.fill_either_first_furthest` — a choice is the first of them.
-/

namespace InputMask

namespace Filling

/-- Where a branch leads that is tried from a filling. -/
def tried (typed : Typed) (f : Filling) (branch : List Step) : Filling :=
  fillAll typed { f with inBranch := true } branch

/-- The places of the branches that use up as much of the typed text as any branch does. -/
def furthestBranches (typed : Typed) (f : Filling) (branches : List (List Step)) : Set Nat :=
  { i | ∃ branch, branches[i]? = some branch ∧ ∀ other ∈ branches,
    (f.tried typed other).used.length ≤ (f.tried typed branch).used.length }

/-- A branch that goes further than every one before it, and no less far than every one behind it,
is the first of the furthest. -/
theorem isLeast_furthestBranches {typed : Typed} {f : Filling} {front back : List (List Step)}
    {branch : List Step}
    (hfront : ∀ other ∈ front,
      (f.tried typed other).used.length < (f.tried typed branch).used.length)
    (hback : ∀ other ∈ back,
      (f.tried typed other).used.length ≤ (f.tried typed branch).used.length) :
    IsLeast (f.furthestBranches typed (front ++ branch :: back)) front.length := by
  constructor
  · refine ⟨branch, by simp, fun other hmem => ?_⟩
    rcases List.mem_append.1 hmem with hmem | hmem
    · exact Nat.le_of_lt (hfront other hmem)
    · rcases List.mem_cons.1 hmem with rfl | hmem
      · exact Nat.le_refl _
      · exact hback other hmem
  · -- a branch in front of it is not one of the furthest, as this one goes further
    rintro j ⟨other, hother, hmost⟩
    by_contra hlt
    rw [List.getElem?_append_left (Nat.not_le.1 hlt)] at hother
    have hless := hfront other (List.mem_of_getElem? hother)
    have hle := hmost branch (List.mem_append_right _ (List.mem_cons_self ..))
    omega

end Filling

/-- **Of several branches the first that goes furthest is taken, and the others leave no trace.**
Whatever has been filled before, and whatever the branches hold, the filling behind a choice is the
one to which a single branch leads that is tried on its own; only that it stands in a branch is
forgotten again. This branch is the first of those that use up most of the typed text. A choice
without branches fills nothing. -/
theorem Step.fill_either_first_furthest (typed : Typed) (f : Filling)
    (branches : List (List Step)) :
    (branches = [] → (Step.either branches).fill typed f = f) ∧
      (branches ≠ [] → ∃ i branch, IsLeast (f.furthestBranches typed branches) i ∧
        branches[i]? = some branch ∧
        (Step.either branches).fill typed f =
          { f.tried typed branch with inBranch := f.inBranch }) := by
  constructor
  · rintro rfl
    rfl
  · intro hne
    rw [Step.fill, fillEach_eq_map]
    split
    · rename_i hnone
      exact absurd (List.map_eq_nil_iff.1 (Filling.furthest?_eq_none hnone)) hne
    · rename_i best hbest
      obtain ⟨_, _, hsplit, hfront, hback⟩ := Filling.exists_split_of_furthest? hbest
      obtain ⟨front, _, rfl, rfl, hrest⟩ := List.map_eq_append_iff.1 hsplit
      obtain ⟨branch, back, rfl, rfl, rfl⟩ := List.map_eq_cons_iff.1 hrest
      refine ⟨front.length, branch, ?_, by simp, rfl⟩
      exact Filling.isLeast_furthestBranches (List.forall_mem_map.1 hfront)
        (List.forall_mem_map.1 hback)

/-- Inside a branch, the second branch and the third take two characters each, the second one in a
choice of its own. The first takes one behind a dash, and the third stops in front of its full stop:
neither the dash nor the stop is left behind. -/
theorem Step.fill_either_first_furthest_tie :
    ∃ (typed : Typed) (f : Filling) (branches : List (List Step)), branches ≠ [] ∧
      f.text = "x1".toList ∧ f.inBranch = true ∧
      ((Step.either branches).fill typed f).text = "x1/23".toList ∧
      ((Step.either branches).fill typed f).stopped = false ∧
      ∃ i branch, IsLeast (f.furthestBranches typed branches) i ∧
        branches[i]? = some branch ∧
        (Step.either branches).fill typed f =
          { f.tried typed branch with inBranch := f.inBranch } := by
  let typed : Typed := ⟨"123".toList, Char.isDigit⟩
  refine ⟨typed, Filling.tried typed (.start typed) [.fixed ['x'], .slots 1],
    [[.fixed ['-'], .slots 1], [.either [[], [.fixed ['/'], .slots 2]]],
      [.slots 2, .fixed ['.']]], by decide, by decide, by decide, by decide, by decide, ?_⟩
  exact (Step.fill_either_first_furthest _ _ _).2 (by decide)

end InputMask
