import InputMask.Proofs.Filling.Kept

/-!
# The cursor stands at the end

Every shown character is counted once, as taken by a slot or as part of fixed text, and
no step of a layout changes that; so the cursor of a display is the length of its text.
-/

namespace InputMask

namespace Filling

/-- Every shown character is counted as taken or as inserted. -/
def Counted (f : Filling) : Prop := f.taken + f.inserted = f.shown.length

theorem counted_kept (typed : Typed) : Kept typed Counted where
  take n f hf := by
    unfold Filling.take
    split
    · exact hf
    · simp only [Counted, Cell.ofText, List.length_append, List.length_map] at hf ⊢
      omega
  place text f hf := by
    unfold Filling.place
    split
    · exact hf
    · dsimp only
      split <;>
        simp only [Counted, put, Cell.ofText, List.length_append, List.length_map] at hf ⊢ <;>
        omega
  inBranch _ _ hf := hf

theorem length_text (f : Filling) : f.text.length = f.shown.length := by
  simp [Filling.text]

/-- However far a layout has been filled, and in whichever branch, each shown character is counted
once. -/
theorem Reached.counted {typed : Typed} {l : Layout} {f : Filling}
    (h : Reached typed (.start typed) l f) : f.Counted :=
  h.of_kept (counted_kept typed) rfl

end Filling

theorem Layout.counted_fill (l : Layout) (typed : Typed) : (l.fill typed).Counted :=
  (Filling.reached_fillAll l _).counted

/-- The cursor of a display is the length of its text, cut off or not. -/
theorem Layout.cursor_display (l : Layout) (longest : Extent) (typed : Typed) :
    (l.display longest typed).cursor = (l.display longest typed).text.length := by
  have hcount := l.counted_fill typed
  have hlength := Filling.length_text (l.fill typed)
  rw [Filling.Counted] at hcount
  have hle : (l.display longest typed).text.length ≤ (l.fill typed).text.length := by
    cases longest with
    | endless => exact Nat.le_refl _
    | upTo n => exact List.length_take_le' n _
  exact Nat.min_eq_right (Nat.le_trans hle (by omega))

end InputMask
