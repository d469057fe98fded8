import Mathlib

/-!
Floating-point numbers: a rational number is rounded to the nearest one with so many binary digits. Numbers too
large for a format are not cut off.
-/

namespace Vllm

/-- The nearest integer, and the even one of two. -/
def roundHalfEven (x : ℚ) : ℤ :=
  let half := x - ⌊x⌋ - 1 / 2
  if half < 0 ∨ half = 0 ∧ ⌊x⌋ % 2 = 0 then ⌊x⌋ else ⌊x⌋ + 1

/-- The exponent of the first digit. -/
def leadingExponent (x : ℚ) : ℤ :=
  let estimate : ℤ := (x.num.natAbs.log2 : ℤ) - x.den.log2
  if (2 : ℚ) ^ estimate ≤ |x| then estimate else estimate - 1

/-- The nearest multiple of the last digit's value, for numbers of `precision` digits. -/
def roundTo (precision : ℕ) (minExponent : ℤ) (x : ℚ) : ℚ :=
  let unit := (2 : ℚ) ^ max (leadingExponent x + 1 - precision) minExponent
  roundHalfEven (x / unit) * unit

/-- A double. -/
def round64 (x : ℚ) : ℚ := roundTo 53 (-1074) x

theorem round64_zero : round64 0 = 0 := by norm_num [round64, roundTo, roundHalfEven]

theorem abs_roundHalfEven_sub_le (x : ℚ) : |roundHalfEven x - x| ≤ 1 / 2 := by
  have below := Int.floor_le x
  have above := Int.lt_floor_add_one x
  unfold roundHalfEven
  dsimp only
  split
  · rename_i down
    rw [abs_le]
    constructor
    · rcases down with down | ⟨down, -⟩ <;> linarith
    · linarith
  · rename_i up
    have far : 0 ≤ x - ⌊x⌋ - 1 / 2 := by
      by_contra near
      exact up (Or.inl (not_le.mp near))
    rw [abs_le]
    push_cast
    constructor <;> linarith

theorem two_zpow_leadingExponent_le {x : ℚ} (nonzero : x ≠ 0) : (2 : ℚ) ^ leadingExponent x ≤ |x| := by
  unfold leadingExponent
  dsimp only
  split
  · assumption
  · have num : (2 : ℚ) ^ x.num.natAbs.log2 ≤ x.num.natAbs := by
      exact_mod_cast Nat.log2_self_le (Int.natAbs_ne_zero.mpr (Rat.num_ne_zero.mpr nonzero))
    have den : (x.den : ℚ) ≤ (2 : ℚ) ^ (x.den.log2 + 1) := by
      exact_mod_cast Nat.lt_log2_self.le
    have positive : (0 : ℚ) < x.den := by exact_mod_cast x.den_pos
    have value : |x| = x.num.natAbs / x.den := by
      conv_lhs => rw [← Rat.num_div_den x]
      rw [abs_div, Nat.abs_cast, Nat.cast_natAbs, Int.cast_abs]
    have exponent : (2 : ℚ) ^ ((x.num.natAbs.log2 : ℤ) - x.den.log2 - 1) =
        2 ^ x.num.natAbs.log2 / 2 ^ (x.den.log2 + 1) := by
      rw [sub_sub, zpow_sub₀ two_ne_zero, zpow_natCast, ← Nat.cast_succ, zpow_natCast]
    rw [exponent, value]
    gcongr

/-- Rounding moves a number by half a unit in its last place at most. -/
theorem abs_roundTo_sub_le {precision : ℕ} {minExponent k : ℤ} {x : ℚ} (small : |x| < 2 ^ (k + 1))
    (normal : minExponent ≤ k + 1 - precision) : |roundTo precision minExponent x - x| ≤ 2 ^ (k - precision) := by
  set unit : ℚ := 2 ^ max (leadingExponent x + 1 - precision) minExponent with definition
  have positive : 0 < unit := by positivity
  have moved : roundTo precision minExponent x - x = (roundHalfEven (x / unit) - x / unit) * unit := by
    rw [sub_mul, div_mul_cancel₀ _ positive.ne']
    rfl
  rw [moved, abs_mul, abs_of_pos positive]
  by_cases zero : x = 0
  · have nothing : roundHalfEven (x / unit) = 0 := by
      rw [zero, zero_div]
      norm_num [roundHalfEven]
    rw [nothing, zero]
    simp only [zero_div, Int.cast_zero, sub_self, abs_zero, zero_mul]
    positivity
  · have order : leadingExponent x ≤ k := by
      have less := (two_zpow_leadingExponent_le zero).trans_lt small
      have := (zpow_lt_zpow_iff_right₀ (one_lt_two (α := ℚ))).mp less
      omega
    have last : unit ≤ 2 ^ (k + 1 - precision) :=
      zpow_le_zpow_right₀ one_le_two (max_le (by omega) normal)
    calc |(roundHalfEven (x / unit) : ℚ) - x / unit| * unit
        ≤ 1 / 2 * 2 ^ (k + 1 - precision) := by
          gcongr
          exact abs_roundHalfEven_sub_le _
      _ = 2 ^ (k - precision) := by
          rw [show k + 1 - (precision : ℤ) = k - precision + 1 by ring, zpow_add_one₀ two_ne_zero]
          ring

theorem abs_round64_sub_le {k : ℤ} {x : ℚ} (small : |x| < 2 ^ (k + 1)) (normal : -1022 ≤ k) :
    |round64 x - x| ≤ 2 ^ (k - 53) :=
  abs_roundTo_sub_le small (by push_cast; omega)

example : round64 (3 / 10) < round64 (round64 (2 / 10) + round64 (1 / 10)) := by decide +kernel

end Vllm
