import Mathlib.Algebra.BigOperators.Fin
import Mathlib.Algebra.Order.BigOperators.Ring.Finset
import Mathlib.Data.Real.Basic
import Mathlib.Tactic.Ring

/-!
# Linear functions of noisy samples

A weighted sum of samples that are off their true values by a bounded error is off by the sum
of the absolute weights times this bound.
-/

section LinearFit

variable {ι : Type*} [Fintype ι]

/-- **Weighted errors.** -/
theorem abs_sum_mul_le (w : ι → ℤ) {e : ι → ℝ} {J : ℝ} (he : ∀ i, |e i| ≤ J) :
    |∑ i, (w i : ℝ) * e i| ≤ (∑ i, |w i| : ℤ) * J := by
  calc |∑ i, (w i : ℝ) * e i|
      ≤ ∑ i, |(w i : ℝ) * e i| := Finset.abs_sum_le_sum_abs _ _
    _ ≤ ∑ i, |(w i : ℝ)| * J := by
        apply Finset.sum_le_sum
        intro i _
        rw [abs_mul]
        exact mul_le_mul_of_nonneg_left (he i) (abs_nonneg _)
    _ = (∑ i, |w i| : ℤ) * J := by
        rw [← Finset.sum_mul]
        push_cast
        rfl

/-- **Samples of a line**: what a weighted sum of them is, up to the errors. -/
theorem abs_sum_line_le (w x : ι → ℤ) {y : ι → ℝ} {c T J : ℝ}
    (hy : ∀ i, |y i - (c + x i * T)| ≤ J) :
    |∑ i, (w i : ℝ) * y i - ((∑ i, w i : ℤ) * c + (∑ i, w i * x i : ℤ) * T)| ≤
      (∑ i, |w i| : ℤ) * J := by
  have hline : (∑ i, w i : ℤ) * c + (∑ i, w i * x i : ℤ) * T = ∑ i, (w i : ℝ) * (c + x i * T) := by
    push_cast
    rw [Finset.sum_mul, Finset.sum_mul, ← Finset.sum_add_distrib]
    apply Finset.sum_congr rfl
    intro i _
    ring
  rw [hline, ← Finset.sum_sub_distrib]
  simp only [← mul_sub]
  exact abs_sum_mul_le w hy

end LinearFit
