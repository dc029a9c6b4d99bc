/-
# `Lib.Smoothing` — following a target by a part of the way

A value that goes at each step some part of the way towards a target,

    v (n + 1) = v n + α n * (t n - v n)        with  α n ∈ [α, 1],  0 < α

is a running average where `α` is constant; the part may change from step to step,
so that it may depend on which way the value moves.  Its distance to a fixed point
shrinks by `1 - α` at each step, up to the distance of the target from that point.

    Follows.dist_le     one step
    Follows.tendsto     the target tends to the point: so does the value
-/
import Mathlib.Analysis.SpecificLimits.Basic

namespace Smoothing

open Filter Topology

/-- Parts of the way, never less than `α` of it. -/
structure Follows (α : ℝ) (v t : ℕ → ℝ) (part : ℕ → ℝ) : Prop where
  step : ∀ n, v (n + 1) = v n + part n * (t n - v n)
  least : ∀ n, α ≤ part n
  most : ∀ n, part n ≤ 1

variable {α T : ℝ} {v t part d e : ℕ → ℝ}

/-- One step takes the value nearer to any point, up to the distance of the target from it. -/
theorem Follows.dist_le (h : Follows α v t part) (hα : 0 ≤ α) (T : ℝ) (n : ℕ) :
    |v (n + 1) - T| ≤ (1 - α) * |v n - T| + |t n - T| := by
  have hpart : 0 ≤ part n := hα.trans (h.least n)
  have hsplit : v (n + 1) - T = (1 - part n) * (v n - T) + part n * (t n - T) := by
    rw [h.step n]
    ring
  calc |v (n + 1) - T|
      ≤ |(1 - part n) * (v n - T)| + |part n * (t n - T)| := by rw [hsplit]; exact abs_add_le _ _
    _ = (1 - part n) * |v n - T| + part n * |t n - T| := by
        rw [abs_mul, abs_mul, abs_of_nonneg hpart, abs_of_nonneg (sub_nonneg.mpr (h.most n))]
    _ ≤ (1 - α) * |v n - T| + 1 * |t n - T| := by
        gcongr
        · exact h.least n
        · exact h.most n
    _ = (1 - α) * |v n - T| + |t n - T| := by rw [one_mul]

/-- A distance that shrinks by a factor, up to errors that vanish, vanishes. -/
theorem tendsto_zero_of_shrinks {q : ℝ} (hq₀ : 0 ≤ q) (hq : q < 1) (hd : ∀ n, 0 ≤ d n)
    (hstep : ∀ n, d (n + 1) ≤ q * d n + e n) (he : Tendsto e atTop (𝓝 0)) :
    Tendsto d atTop (𝓝 0) := by
  refine Metric.tendsto_atTop.mpr fun ε hε => ?_
  have hη : 0 < ε / 2 * (1 - q) := mul_pos (half_pos hε) (sub_pos.mpr hq)
  obtain ⟨N, hN⟩ := Metric.tendsto_atTop.mp he _ hη
  -- from `N` on the errors cost no more than half of what is allowed
  have hfrom (k : ℕ) : d (N + k) ≤ q ^ k * d N + ε / 2 := by
    induction k with
    | zero =>
        rw [pow_zero, one_mul, Nat.add_zero]
        linarith
    | succ k ih =>
        have hsmall : e (N + k) < ε / 2 * (1 - q) := by
          have habs := hN (N + k) (Nat.le_add_right N k)
          rw [Real.dist_eq, sub_zero] at habs
          exact (le_abs_self _).trans_lt habs
        calc d (N + k + 1) ≤ q * d (N + k) + e (N + k) := hstep _
          _ ≤ q * (q ^ k * d N + ε / 2) + ε / 2 * (1 - q) := by gcongr
          _ = q ^ (k + 1) * d N + ε / 2 := by rw [pow_succ']; ring
  have hpow : Tendsto (fun k => q ^ k * d N) atTop (𝓝 0) := by
    simpa using (tendsto_pow_atTop_nhds_zero_of_lt_one hq₀ hq).mul_const (d N)
  obtain ⟨K, hK⟩ := Metric.tendsto_atTop.mp hpow _ (half_pos hε)
  refine ⟨N + K, fun n hn => ?_⟩
  obtain ⟨k, rfl⟩ := Nat.exists_eq_add_of_le ((Nat.le_add_right N K).trans hn)
  have hk := hK k (by omega)
  rw [Real.dist_eq, sub_zero] at hk
  rw [Real.dist_eq, sub_zero, abs_of_nonneg (hd _)]
  calc d (N + k) ≤ q ^ k * d N + ε / 2 := hfrom k
    _ < ε / 2 + ε / 2 := by linarith [le_abs_self (q ^ k * d N)]
    _ = ε := add_halves ε

/-- **The value tends to where the target tends to.** -/
theorem Follows.tendsto (h : Follows α v t part) (hα : 0 < α) (ht : Tendsto t atTop (𝓝 T)) :
    Tendsto v atTop (𝓝 T) := by
  have hle : α ≤ 1 := (h.least 0).trans (h.most 0)
  have herror : Tendsto (fun n => |t n - T|) atTop (𝓝 0) := by
    simpa using (ht.sub_const T).abs
  have hdist : Tendsto (fun n => |v n - T|) atTop (𝓝 0) :=
    tendsto_zero_of_shrinks (sub_nonneg.mpr hle) (by linarith) (fun n => abs_nonneg _)
      (fun n => h.dist_le hα.le T n) herror
  exact tendsto_iff_dist_tendsto_zero.mpr (by simpa only [Real.dist_eq] using hdist)

end Smoothing
