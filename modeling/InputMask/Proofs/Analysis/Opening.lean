import InputMask.Analysis.Opening
import InputMask.Proofs.Filling.Lead
import InputMask.Proofs.Layout.Steps
import InputMask.Proofs.Text.SharedStart

/-!
# When an opening is shown

With nothing typed a mask is meant to show its opening at least. Only a choice can keep it
from doing so: the opening holds what all of its branches share, wherever the choice stands,
but only its first branch is shown, and only if no text stands in front of it.

* `leadOfAll` — what a branch shows before anything is typed, as far as its opening goes.
* `Sequence.showsOpening` — whether no choice keeps the opening from being shown.
* `Piece.Varies` — the pieces at which an opening ends.
-/

namespace InputMask

mutual

/-- What an atom in a branch adds to what is shown before anything is typed, at least. -/
def Atom.lead (w : Lead) : Atom → Lead
  | .literal _ meant => w.put true meant
  | .charClass _ => w.finish
  | .group body => leadOfAll w body
  | .choice branches => (leadOfFirstBranch w.apart branches).apart
  | .anchor _ => w
  | .lookaround _ => w

/-- The same of a piece. Like an opening it ends with a literal or group that need not occur exactly
once. -/
def Piece.lead (w : Lead) : Piece → Lead
  | ⟨atom, times⟩ =>
    if atom.isRepeatable && !Repetition.isOnce times then w.finish else atom.lead w

/-- The same of pieces that follow one another. -/
def leadOfAll (w : Lead) : List Piece → Lead
  | [] => w
  | piece :: rest => if w.ended then w else leadOfAll (piece.lead w) rest

/-- The same of the first of several branches. -/
def leadOfFirstBranch (w : Lead) : List (List Piece) → Lead
  | [] => w
  | branch :: _ => leadOfAll w branch

end

mutual

/-- Whether the opening of an atom is shown before anything is typed; `begun` says that text stands
in front of it. Only a choice can fail to do so. -/
def Atom.showsOpening (begun : Bool) : Atom → Bool
  | .literal _ _ => true
  | .charClass _ => true
  | .group body => showsOpeningOfAll begun body
  | .choice branches =>
    let shared := (Opening.shared (openingsOf branches)).text
    shared.isEmpty || !begun && shared.isPrefixOf (leadOfFirstBranch .start branches).text
  | .anchor _ => true
  | .lookaround _ => true

/-- The same of a piece. -/
def Piece.showsOpening (begun : Bool) : Piece → Bool
  | ⟨atom, times⟩ => atom.isRepeatable && !Repetition.isOnce times || atom.showsOpening begun

/-- The same of pieces that follow one another, as far as their opening goes. -/
def showsOpeningOfAll (begun : Bool) : List Piece → Bool
  | [] => true
  | piece :: rest =>
    piece.showsOpening begun &&
      (!piece.opening.complete ||
        showsOpeningOfAll (begun || !piece.opening.text.isEmpty) rest)

end

/-- Whether the opening of a sequence is shown before anything is typed. -/
def Sequence.showsOpening (s : Sequence) : Bool := showsOpeningOfAll false s

/-! ## Openings -/

/-- The opening of the first of several branches. -/
def openingOfFirst : List (List Piece) → Opening
  | [] => .empty
  | branch :: _ => openingOfAll branch

/-- Branches share no more than the opening of the first. -/
theorem Opening.shared_prefix (branches : List (List Piece)) :
    (shared (openingsOf branches)).text <+: (openingOfFirst branches).text := by
  cases branches with
  | nil => exact List.prefix_rfl
  | cons branch rest => exact Text.sharedStart_prefix (List.mem_cons_self ..)

/-- If branches share all they match, that is the opening of the first. -/
theorem Opening.first_of_shared_complete {branches : List (List Piece)}
    (h : (shared (openingsOf branches)).complete = true) :
    (openingOfFirst branches).complete = true ∧
      (openingOfFirst branches).text = (shared (openingsOf branches)).text := by
  cases branches with
  | nil => exact ⟨rfl, rfl⟩
  | cons branch rest =>
    have hfirst := List.all_eq_true.1 h (openingOfAll branch) (List.mem_cons_self ..)
    obtain ⟨hcomplete, htext⟩ := Bool.and_eq_true_iff.1 hfirst
    exact ⟨hcomplete, eq_of_beq htext⟩

theorem Repetition.isAtMostOnce_of_isOnce {times : Option Repetition}
    (h : isOnce times = true) : isAtMostOnce times = true := by
  cases times with
  | none => rfl
  | some r =>
    have hcount : r.fixedCount? = some 1 := by simpa [isOnce] using h
    unfold fixedCount? at hcount
    split at hcount
    · rename_i hmost
      rw [Option.some.inj hcount] at hmost
      simpa [isAtMostOnce] using hmost
    · cases hcount

/-- A piece at which an opening ends: a class, or a literal or group that need not occur exactly
once. -/
def Piece.Varies (p : Piece) : Prop :=
  (∃ text, p.atom = .charClass text) ∨
    p.atom.isRepeatable = true ∧ Repetition.isOnce p.times = false

theorem Piece.varies_of_takesSlots {p : Piece} (h : p.TakesSlots) : p.Varies := by
  refine h.imp_right fun ⟨hrep, honce⟩ => ⟨hrep, Bool.eq_false_iff.2 fun h => ?_⟩
  rw [Repetition.isAtMostOnce_of_isOnce h] at honce
  cases honce

theorem Piece.Varies.opening_eq {p : Piece} (h : p.Varies) : p.opening = ⟨[], false⟩ := by
  obtain ⟨atom, times⟩ := p
  rw [Piece.opening]
  rcases h with ⟨text, rfl⟩ | ⟨hrep, honce⟩
  · split <;> rfl
  · simp_all

theorem Piece.Varies.lead_eq {p : Piece} (h : p.Varies) (w : Lead) : p.lead w = w.finish := by
  obtain ⟨atom, times⟩ := p
  rw [Piece.lead]
  rcases h with ⟨text, rfl⟩ | ⟨hrep, honce⟩
  · split <;> rfl
  · simp_all

theorem Piece.Varies.showsOpening_eq {p : Piece} (h : p.Varies) (begun : Bool) :
    p.showsOpening begun = true := by
  obtain ⟨atom, times⟩ := p
  rw [Piece.showsOpening]
  rcases h with ⟨text, rfl⟩ | ⟨hrep, honce⟩
  · exact Bool.or_true _
  · simp_all

end InputMask
