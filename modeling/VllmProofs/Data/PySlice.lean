import Mathlib

/-!
Indices and slices of Python lists, where a negative index counts from the end.
-/

namespace Vllm.PySlice

variable {α : Type}

/-- The position a slice bound stands for in a list of length `n`. -/
def bound (n : ℕ) (i : ℤ) : ℕ := if i < 0 then (i + n).toNat else min i.toNat n

def slice (xs : List α) (lo hi : ℤ) : List α :=
  (xs.take (bound xs.length hi)).drop (bound xs.length lo)

def sliceFrom (xs : List α) (lo : ℤ) : List α := xs.drop (bound xs.length lo)

/-- `xs[i]`, which may raise an `IndexError`. -/
def get? (xs : List α) (i : ℤ) : Option α :=
  if 0 ≤ i then xs[i.toNat]? else if 0 ≤ i + xs.length then xs[(i + xs.length).toNat]? else none

theorem slice_nat (xs : List α) (lo hi : ℕ) : slice xs lo hi = (xs.take hi).drop lo := by
  have notNeg : ∀ i : ℕ, ¬((i : ℤ) < 0) := by
    intro i
    omega
  simp only [slice, bound, notNeg, ↓reduceIte, Int.toNat_natCast]
  have full : xs.take (min hi xs.length) = xs.take hi := by
    rcases Nat.le_total hi xs.length with short | long
    · rw [Nat.min_eq_left short]
    · rw [Nat.min_eq_right long, List.take_length, List.take_of_length_le long]
  rw [full]
  rcases Nat.le_total lo xs.length with inside | outside
  · rw [Nat.min_eq_left inside]
  · rw [Nat.min_eq_right outside, List.drop_of_length_le, List.drop_of_length_le]
    · rw [List.length_take]
      omega
    · rw [List.length_take]
      omega

theorem sliceFrom_nat (xs : List α) (lo : ℕ) : sliceFrom xs lo = xs.drop lo := by
  have notNeg : ¬((lo : ℤ) < 0) := by omega
  simp only [sliceFrom, bound, notNeg, ↓reduceIte, Int.toNat_natCast]
  rcases Nat.le_total lo xs.length with inside | outside
  · rw [Nat.min_eq_left inside]
  · rw [Nat.min_eq_right outside, List.drop_length, List.drop_of_length_le outside]

/-- The last `n`. -/
theorem sliceFrom_neg {xs : List α} {n : ℕ} (positive : 0 < n) (enough : n ≤ xs.length) :
    sliceFrom xs (-n) = xs.drop (xs.length - n) := by
  have neg : (-n : ℤ) < 0 := by omega
  simp only [sliceFrom, bound, neg, ↓reduceIte]
  congr 1
  omega

/-- The last none are all. -/
theorem sliceFrom_neg_zero (xs : List α) : sliceFrom xs (-(0 : ℕ)) = xs := by
  rw [show (-(0 : ℕ) : ℤ) = (0 : ℕ) from rfl, sliceFrom_nat, List.drop_zero]

theorem get?_nat (xs : List α) (i : ℕ) : get? xs i = xs[i]? := by
  simp [get?]

/-- A block of `n` from `lo` on. -/
theorem slice_add (xs : List α) (lo n : ℕ) : slice xs lo (lo + n : ℕ) = (xs.drop lo).take n := by
  rw [slice_nat, List.drop_take]
  simp

end Vllm.PySlice
