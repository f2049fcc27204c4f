/-
Finbar.Lib.Moments — the mean and the sample variance of some values.

Sums of squared deviations from running sums (`sum_sub_const_sq`,
`sum_deviations_sq`).

No `sorry`, no `axiom`.
-/
import Mathlib.Algebra.BigOperators.Group.List.Basic
import Mathlib.Algebra.Order.Field.Rat
import Mathlib.Tactic.FieldSimp
import Mathlib.Tactic.Ring

namespace Lib.Moments

/-- The mean of some values. -/
def mean (xs : List ℚ) : ℚ := xs.sum / xs.length

/-- The variance of some values, with divisor `n - 1`. -/
def sampleVariance (xs : List ℚ) : ℚ :=
  (xs.map fun x => (x - mean xs) ^ 2).sum / (xs.length - 1)

theorem sum_sub_const_sq (xs : List ℚ) (c : ℚ) :
    (xs.map fun x => (x - c) ^ 2).sum =
      (xs.map fun x => x * x).sum - 2 * c * xs.sum + xs.length * c ^ 2 := by
  induction xs with
  | nil => simp
  | cons x xs ih =>
      rw [List.map_cons, List.map_cons, List.sum_cons, List.sum_cons, List.sum_cons, ih,
        List.length_cons]
      push_cast
      ring

/-- The squared deviations sum up to the squares less `n` squared means. -/
theorem sum_deviations_sq {xs : List ℚ} (h : xs ≠ []) :
    (xs.map fun x => (x - mean xs) ^ 2).sum =
      (xs.map fun x => x * x).sum - xs.length * mean xs ^ 2 := by
  have hlength : (xs.length : ℚ) ≠ 0 := by
    rw [Nat.cast_ne_zero]
    exact fun hzero => h (List.length_eq_zero_iff.mp hzero)
  have hsum : xs.sum = xs.length * mean xs := by
    unfold mean
    field_simp
  rw [sum_sub_const_sq, hsum]
  ring

end Lib.Moments
