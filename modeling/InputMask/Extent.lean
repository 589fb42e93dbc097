import InputMask.Count

/-!
# Extents

An `Extent` says how far something can go at most: up to a count, or without end. It
limits how often a part of a pattern occurs, and how long a text is.

What is longer than any count is `endless`; sums and products of extents are therefore
never held at the largest count.
-/

namespace InputMask

/-- How far something can go at most. -/
inductive Extent where
  | upTo (n : Nat)
  | endless
deriving DecidableEq, Repr

namespace Extent

/-- The extent of a number, which is endless if the number is no count. -/
def ofNat (n : Nat) : Extent :=
  if n ≤ Count.ceiling then upTo n else endless

/-- The count up to which the extent goes. -/
def end? : Extent → Option Nat
  | upTo n => some n
  | endless => none

/-- Whether there is no end. -/
def isEndless : Extent → Bool
  | upTo _ => false
  | endless => true

/-- The extent of one thing after another. -/
def add : Extent → Extent → Extent
  | upTo a, upTo b => ofNat (a + b)
  | _, _ => endless

/-- The extent of one thing or another. -/
def max : Extent → Extent → Extent
  | upTo a, upTo b => upTo (Nat.max a b)
  | _, _ => endless

/-- The extent of things in a row. Nothing stays nothing however often it occurs, and so does
anything that does not occur at all. -/
def mul : Extent → Extent → Extent
  | upTo 0, _ => upTo 0
  | _, upTo 0 => upTo 0
  | upTo a, upTo b => ofNat (a * b)
  | _, _ => endless

/-- An extent in words: a decimal numeral or `unbounded`. -/
def words : Extent → Text
  | upTo n => Count.numeral n
  | endless => "unbounded".toList

/-! ## Sums and products -/

@[simp] theorem ofNat_zero : ofNat 0 = upTo 0 := rfl

theorem ofNat_eq_upTo {m n : Nat} : ofNat m = upTo n ↔ m = n ∧ n ≤ Count.ceiling := by
  unfold ofNat
  split
  · simp only [upTo.injEq]
    omega
  · simp only [reduceCtorEq, false_iff]
    omega

@[simp] theorem upTo_add_upTo (a b : Nat) : (upTo a).add (upTo b) = ofNat (a + b) := rfl

@[simp] theorem add_endless (e : Extent) : e.add endless = endless := by
  cases e <;> rfl

@[simp] theorem endless_add (e : Extent) : endless.add e = endless := by
  cases e <;> rfl

@[simp] theorem max_endless (e : Extent) : e.max endless = endless := by
  cases e <;> rfl

@[simp] theorem endless_max (e : Extent) : endless.max e = endless := by
  cases e <;> rfl

@[simp] theorem max_upTo_zero (e : Extent) : e.max (upTo 0) = e := by
  cases e with
  | upTo n => exact congrArg upTo (Nat.max_zero n)
  | endless => rfl

@[simp] theorem upTo_zero_mul (e : Extent) : (upTo 0).mul e = upTo 0 := by
  cases e <;> rfl

@[simp] theorem mul_upTo_zero (e : Extent) : e.mul (upTo 0) = upTo 0 := by
  rcases e with (_ | n) | _ <;> rfl

@[simp] theorem upTo_mul_upTo (a b : Nat) : (upTo a).mul (upTo b) = ofNat (a * b) := by
  rcases a with _ | a
  · simp
  · rcases b with _ | b
    · simp
    · rfl

@[simp] theorem upTo_succ_mul_endless (a : Nat) : (upTo (a + 1)).mul endless = endless := rfl

@[simp] theorem endless_mul_upTo_succ (b : Nat) : endless.mul (upTo (b + 1)) = endless := rfl

@[simp] theorem endless_mul_endless : endless.mul endless = endless := rfl

/-- A sum has an end only if both parts do. -/
theorem add_eq_upTo {e f : Extent} {n : Nat} (h : e.add f = upTo n) :
    ∃ a b, e = upTo a ∧ f = upTo b ∧ a + b = n ∧ n ≤ Count.ceiling := by
  cases e with
  | endless => simp at h
  | upTo a =>
    cases f with
    | endless => simp at h
    | upTo b =>
      rw [upTo_add_upTo, ofNat_eq_upTo] at h
      exact ⟨a, b, rfl, rfl, h⟩

/-- The larger of two extents has an end only if both do. -/
theorem max_eq_upTo {e f : Extent} {n : Nat} (h : e.max f = upTo n) :
    ∃ a b, e = upTo a ∧ f = upTo b ∧ Nat.max a b = n := by
  cases e with
  | endless => simp at h
  | upTo a =>
    cases f with
    | endless => simp at h
    | upTo b => exact ⟨a, b, rfl, rfl, upTo.inj h⟩

/-- A product has an end only if both factors do, or if one of them is nothing. -/
theorem mul_eq_upTo {e f : Extent} {n : Nat} (h : e.mul f = upTo n) :
    n = 0 ∧ (e = upTo 0 ∨ f = upTo 0) ∨ ∃ a b, e = upTo a ∧ f = upTo b ∧ a * b = n := by
  rcases e with (_ | a) | _ <;> rcases f with (_ | b) | _
  case upTo.succ.upTo.succ =>
    rw [upTo_mul_upTo, ofNat_eq_upTo] at h
    exact Or.inr ⟨a + 1, b + 1, rfl, rfl, h.1⟩
  all_goals simp_all

end Extent

end InputMask
