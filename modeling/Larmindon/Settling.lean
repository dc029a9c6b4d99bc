/-
# `Settling` — where the gain ends up

Two promises of the gain control, in exact arithmetic and from any state it can be
in.

*Enabled*, the gain follows what the level asks for, and the level follows the
signal; both go a part of the way with each sample (`Smoothing.Follows`), the gain
another part down than up.  Where the magnitude of the samples does not change the
level tends to it, so what is asked for tends to the target over that magnitude,
clamped, and so does the gain: the output tends to the target level wherever the
bounds of the gain allow it.

*Disabled*, the gain tends to unity, and the step onto it, once it is close, makes
that exact: behind so many samples, however they are cut into calls, the samples
come out as they are.
-/
import Larmindon.Gain
import Larmindon.Lib.Smoothing

namespace Larmindon.AgcProcessor

open Filter Topology Set

variable {sampleRate greatest : ℝ} {a : AgcProcessor ℝ}

/-! ## One sample, enabled -/

/-- The gain that a level asks for. -/
noncomputable def wanted (a : AgcProcessor ℝ) (level : ℝ) : ℝ :=
  max a.minGain (min (a.targetRms / max level EPSILON) a.maxGain)

/-- The level behind a sample. -/
noncomputable def heard (a : AgcProcessor ℝ) (x : ℝ) : ℝ :=
  a.rmsAlpha * x * x + (1.0 - a.rmsAlpha) * a.rmsSqEma

/-- The state behind a sample, where the control is enabled. -/
noncomputable def follow (a : AgcProcessor ℝ) (x : ℝ) : AgcProcessor ℝ :=
  { a with rmsSqEma := a.heard x, currentGain := a.approach (a.wanted √(a.heard x)) }

theorem clamp_eq {lo hi : ℝ} (h : lo ≤ hi) (x : ℝ) :
    F32.clamp x lo hi = some (max lo (min x hi)) := by
  rw [F32.clamp, if_pos h]
  rcases lt_or_ge x lo with hlo | hlo
  · have hmin : min x hi = x := min_eq_left (hlo.le.trans h)
    simp only [if_pos hlo, if_neg (not_lt.mpr h), hmin, max_eq_left hlo.le, gt_iff_lt]
  · simp only [if_neg (not_lt.mpr hlo), gt_iff_lt]
    rcases lt_or_ge hi x with hhi | hhi
    · rw [if_pos hhi, min_eq_right hhi.le, max_eq_right h]
    · rw [if_neg (not_lt.mpr hhi), min_eq_left hhi, max_eq_right hlo]

theorem sample_enabled (h : a.Bounded sampleRate greatest) (he : a.enabled = true) (x : ℝ) :
    a.sample x = some (a.follow x, [x * (a.follow x).currentGain]) := by
  have hbounds : a.minGain ≤ a.maxGain := by
    rw [h.minGain]
    exact h.unity.1.trans h.maxGain.1
  have hclamp := clamp_eq hbounds (a.targetRms / max √(a.heard x) EPSILON)
  have hgain : nextGain { a with rmsSqEma := a.heard x } = some (a.approach (a.wanted √(a.heard x))) := by
    show (if a.enabled = true then _ else _) = _
    rw [if_pos he]
    show (F32.clamp (a.targetRms / max √(a.heard x) EPSILON) a.minGain a.maxGain).map _ = _
    rw [hclamp]
    rfl
  show (nextGain { a with rmsSqEma := a.heard x }).map _ = _
  rw [hgain]
  rfl

/-- The states behind the samples of a signal. -/
noncomputable def states (a : AgcProcessor ℝ) (x : ℕ → ℝ) : ℕ → AgcProcessor ℝ
  | 0 => a
  | n + 1 => (states a x n).follow (x n)

theorem follow_bounded (h : a.Bounded sampleRate greatest) (he : a.enabled = true) (x : ℝ) :
    (a.follow x).Bounded sampleRate greatest := by
  obtain ⟨a', ys, hs, hb, -⟩ := h.sample x
  rw [sample_enabled h he x] at hs
  cases hs
  exact hb

/-- What no sample changes. -/
structure Configured (a b : AgcProcessor ℝ) : Prop where
  enabled : b.enabled = a.enabled
  wanted : b.wanted = a.wanted
  rmsAlpha : b.rmsAlpha = a.rmsAlpha
  attackAlpha : b.attackAlpha = a.attackAlpha
  releaseAlpha : b.releaseAlpha = a.releaseAlpha

theorem states_spec (h : a.Bounded sampleRate greatest) (he : a.enabled = true) (x : ℕ → ℝ) (n : ℕ) :
    (a.states x n).Bounded sampleRate greatest ∧ Configured a (a.states x n) := by
  induction n with
  | zero => exact ⟨h, rfl, rfl, rfl, rfl, rfl⟩
  | succ n ih =>
      obtain ⟨hb, hc⟩ := ih
      refine ⟨follow_bounded hb (hc.enabled.trans he) _, ?_⟩
      exact ⟨hc.enabled, hc.wanted, hc.rmsAlpha, hc.attackAlpha, hc.releaseAlpha⟩

/-- Processing the first samples of a signal leads through these states. -/
theorem process_states (h : a.Bounded sampleRate greatest) (he : a.enabled = true) (x : ℕ → ℝ)
    (n : ℕ) : a.process ((List.range n).map x) =
      some (a.states x n, (List.range n).map fun k => x k * (a.states x (k + 1)).currentGain) := by
  induction n with
  | zero => rfl
  | succ n ih =>
      obtain ⟨hb, hc⟩ := states_spec h he x n
      rw [List.range_succ, List.map_append, List.map_append]
      exact Mealy.run_append ih
        (Mealy.run_singleton (sample_enabled hb (hc.enabled.trans he) (x n)))

/-! ## A signal of constant magnitude -/

theorem epsilon_pos : (0 : ℝ) < EPSILON := by
  show (0 : ℝ) < 1e-10
  norm_num

theorem wanted_continuous (a : AgcProcessor ℝ) : Continuous a.wanted := by
  have hpos (level : ℝ) : max level EPSILON ≠ 0 := (lt_max_of_lt_right epsilon_pos).ne'
  exact continuous_const.max
    ((continuous_const.div (continuous_id.max continuous_const) hpos).min continuous_const)

/-- The level follows the square of the magnitude. -/
theorem level_follows (h : a.Bounded sampleRate greatest) (he : a.enabled = true) {x : ℕ → ℝ} {c : ℝ}
    (hx : ∀ n, |x n| = c) :
    Smoothing.Follows a.rmsAlpha (fun n => (a.states x n).rmsSqEma) (fun _ => c ^ 2)
      (fun _ => a.rmsAlpha) where
  step n := by
    have hsq : x n * x n = c ^ 2 := by rw [← hx n, sq_abs, sq]
    show (a.states x n).heard (x n) = _
    rw [heard, (states_spec h he x n).2.rmsAlpha, one_literal, mul_assoc, hsq]
    ring
  least _ := le_refl _
  most _ := h.rmsAlpha.2

/-- The gain follows what the level asks for. -/
theorem gain_follows (h : a.Bounded sampleRate greatest) (he : a.enabled = true) (x : ℕ → ℝ) :
    Smoothing.Follows (min a.attackAlpha a.releaseAlpha) (fun n => (a.states x n).currentGain)
      (fun n => a.wanted √((a.states x (n + 1)).rmsSqEma))
      (fun n => if a.wanted √((a.states x (n + 1)).rmsSqEma) < (a.states x n).currentGain
        then a.attackAlpha else a.releaseAlpha) where
  step n := by
    have hc := (states_spec h he x n).2
    show (a.states x n).approach ((a.states x n).wanted √((a.states x n).heard (x n))) = _
    rw [approach, hc.wanted, hc.attackAlpha, hc.releaseAlpha]
    rfl
  least n := by
    split
    · exact min_le_left _ _
    · exact min_le_right _ _
  most n := by
    split
    · exact h.attackAlpha.2
    · exact h.releaseAlpha.2

theorem gain_tendsto (h : a.Bounded sampleRate greatest) (he : a.enabled = true) {x : ℕ → ℝ} {c : ℝ}
    (hx : ∀ n, |x n| = c) :
    Tendsto (fun n => (a.states x n).currentGain) atTop (𝓝 (a.wanted c)) := by
  have hc : 0 ≤ c := (hx 0) ▸ abs_nonneg _
  have hlevel : Tendsto (fun n => (a.states x n).rmsSqEma) atTop (𝓝 (c ^ 2)) :=
    (level_follows h he hx).tendsto h.rmsAlpha.1 tendsto_const_nhds
  have hroot : Tendsto (fun n => √((a.states x (n + 1)).rmsSqEma)) atTop (𝓝 c) := by
    have hsqrt := (Real.continuous_sqrt.tendsto _).comp (hlevel.comp (tendsto_add_atTop_nat 1))
    rwa [Real.sqrt_sq hc] at hsqrt
  exact (gain_follows h he x).tendsto (lt_min h.attackAlpha.1 h.releaseAlpha.1)
    (((wanted_continuous a).tendsto c).comp hroot)

/-- Where the bounds allow it, the wanted gain takes the magnitude to the target. -/
theorem wanted_mul {c : ℝ} (hc : EPSILON ≤ c) (hlo : a.minGain * c ≤ a.targetRms)
    (hhi : a.targetRms ≤ a.maxGain * c) : c * a.wanted c = a.targetRms := by
  have hpos : 0 < c := epsilon_pos.trans_le hc
  rw [wanted, max_eq_left hc, min_eq_left ((div_le_iff₀ hpos).mpr hhi),
    max_eq_right ((le_div_iff₀ hpos).mpr hlo), mul_div_cancel₀ _ hpos.ne']

/-- **The gain goes where the level asks for.**  From any parameters that are allowed and through any
operations, where the control is then enabled: on a signal of constant magnitude the gain tends to the
target over that magnitude, clamped, and the output to the magnitude times that; which is the target
wherever the clamp leaves it alone. -/
theorem gain_converges {enabled : Bool} {targetRmsDbfs maxGainDb attackMs releaseMs sampleRate : ℝ}
    (hrms : timeConstantToAlpha RMS_TIME_CONSTANT_S sampleRate ∈ Ioc 0 1)
    (h : Allowed maxGainDb attackMs releaseMs sampleRate) {ops : List (Op ℝ)}
    (hops : ∀ op ∈ ops, op.Allowed sampleRate) :
    ∃ a outs, Mealy.run step (new enabled targetRmsDbfs maxGainDb attackMs releaseMs sampleRate) ops =
        some (a, outs) ∧
      (a.enabled = true → ∀ (x : ℕ → ℝ) (c : ℝ), (∀ n, |x n| = c) →
        ∃ (s : ℕ → AgcProcessor ℝ) (y : ℕ → ℝ),
          (∀ n, a.process ((List.range n).map x) = some (s n, (List.range n).map y)) ∧
          Tendsto (fun n => (s n).currentGain) atTop (𝓝 (a.wanted c)) ∧
          Tendsto (fun n => |y n|) atTop (𝓝 (c * a.wanted c)) ∧
          (EPSILON ≤ c → a.minGain * c ≤ a.targetRms → a.targetRms ≤ a.maxGain * c →
            c * a.wanted c = a.targetRms)) := by
  obtain ⟨a, outs, hrun, hb, -⟩ := (bounded_new hrms h).run hops
  refine ⟨a, outs, hrun, ?_⟩
  intro he x c hx
  have hgain := gain_tendsto hb he hx
  refine ⟨a.states x, _, process_states hb he x, hgain, ?_, wanted_mul⟩
  have hpos (n : ℕ) : 0 ≤ (a.states x (n + 1)).currentGain :=
    le_trans (by norm_num) (states_spec hb he x (n + 1)).1.currentGain.1
  have hout : (fun n => |x n * (a.states x (n + 1)).currentGain|) =
      fun n => c * (a.states x (n + 1)).currentGain := by
    funext n
    rw [abs_mul, hx n, abs_of_nonneg (hpos n)]
  rw [hout]
  exact (hgain.comp (tendsto_add_atTop_nat 1)).const_mul c

/-- A square wave of half the full scale, from the start: the gain goes to a fifth and the output to
a tenth, which is 20 dB below full scale. -/
theorem gain_converges_half : ∃ (s : ℕ → AgcProcessor ℝ) (y : ℕ → ℝ),
    (∀ n, (new true (-20) 30 20 400 16000).process ((List.range n).map fun k => (-1) ^ k / 2) =
      some (s n, (List.range n).map y)) ∧
    Tendsto (fun n => |y n|) atTop (𝓝 (1 / 10)) := by
  have halpha (t : ℝ) : timeConstantToAlpha t 16000 ∈ Ioc 0 1 :=
    timeConstantToAlpha_mem (by norm_num) t
  have hallowed : Allowed (30 : ℝ) 20 400 16000 :=
    ⟨one_le_dbToLinear (by norm_num), halpha _, halpha _⟩
  obtain ⟨a, outs, hrun, hconv⟩ :=
    @gain_converges true (-20) 30 20 400 16000 (halpha RMS_TIME_CONSTANT_S) hallowed [] (by simp)
  obtain ⟨rfl, -⟩ := Prod.mk.inj (Option.some.inj hrun)
  have htarget : (dbToLinear (-20) : ℝ) = 1 / 10 := by
    show (10.0 : ℝ) ^ ((-20 : ℝ) / 20.0) = 1 / 10
    norm_num [Real.rpow_neg_one]
  have hbounded : (new true (-20) 30 20 400 16000).Bounded 16000 (dbToLinear (30 : ℝ)) :=
    bounded_new (halpha RMS_TIME_CONSTANT_S) hallowed
  have hmin : (1.0 : ℝ) / dbToLinear MAX_ATTENUATION_DB = 1 / 10 := hbounded.minGain
  obtain ⟨s, y, hp, -, hy, hall⟩ := hconv rfl (fun k => (-1) ^ k / 2) (1 / 2) (by
    intro n
    rw [abs_div, abs_pow, abs_neg, abs_one, one_pow, abs_two])
  refine ⟨s, y, hp, ?_⟩
  rw [hall ?_ ?_ ?_] at hy
  · rw [← htarget]
    exact hy
  · show (1e-10 : ℝ) ≤ 1 / 2
    norm_num
  · show (1.0 : ℝ) / dbToLinear MAX_ATTENUATION_DB * (1 / 2) ≤ dbToLinear (-20)
    rw [hmin, htarget]
    norm_num
  · show (dbToLinear (-20) : ℝ) ≤ dbToLinear 30 * (1 / 2)
    have hone : (1 : ℝ) ≤ dbToLinear 30 := one_le_dbToLinear (by norm_num)
    rw [htarget]
    linarith

/-! ## Disabled -/

/-- The gain behind a sample, where the control is disabled. -/
noncomputable def fade (a : AgcProcessor ℝ) : ℝ :=
  if |a.currentGain - 1| < 1e-6 then 1 else a.approach 1

theorem sample_disabled (he : a.enabled = false) (x : ℝ) :
    a.sample x = some ({ a with rmsSqEma := a.heard x, currentGain := a.fade }, [x * a.fade]) := by
  have hgain : nextGain { a with rmsSqEma := a.heard x } = some a.fade := by
    show (if a.enabled = true then _ else _) = _
    rw [if_neg (by simp [he])]
    show (if |a.currentGain - 1.0| < 1e-6 then some (1.0 : ℝ) else some (a.approach 1.0)) = _
    rw [one_literal, fade]
    split <;> rfl
  show (nextGain { a with rmsSqEma := a.heard x }).map _ = _
  rw [hgain]
  rfl

/-- The least part of the way that the gain goes with a sample. -/
noncomputable def pace (a : AgcProcessor ℝ) : ℝ := min a.attackAlpha a.releaseAlpha

theorem pace_mem (h : a.Bounded sampleRate greatest) : a.pace ∈ Ioc 0 1 :=
  ⟨lt_min h.attackAlpha.1 h.releaseAlpha.1, (min_le_left _ _).trans h.attackAlpha.2⟩

/-- A sample takes the gain nearer to unity by that part at least. -/
theorem fade_le (h : a.Bounded sampleRate greatest) :
    |a.fade - 1| ≤ (1 - a.pace) * |a.currentGain - 1| := by
  have hpace := pace_mem h
  rw [fade]
  split
  · rw [sub_self, abs_zero]
    exact mul_nonneg (sub_nonneg.mpr hpace.2) (abs_nonneg _)
  · have hpart : a.pace ≤ if 1 < a.currentGain then a.attackAlpha else a.releaseAlpha := by
      split
      · exact min_le_left _ _
      · exact min_le_right _ _
    have hfactor : a.approach 1 - 1 =
        (1 - if 1 < a.currentGain then a.attackAlpha else a.releaseAlpha) * (a.currentGain - 1) := by
      rw [AgcProcessor.approach]
      ring
    rw [hfactor, abs_mul, abs_of_nonneg (sub_nonneg.mpr (h.alpha 1).2)]
    exact mul_le_mul_of_nonneg_right (sub_le_sub_left hpart 1) (abs_nonneg _)

/-- From `a` to `a'`, given `xs` and giving `ys`, all of it disabled: the distance to unity shrinks
with every sample, and behind the samples that bring it under the snap nothing is changed. -/
structure Fades (sampleRate greatest : ℝ) (a : AgcProcessor ℝ) (xs : List ℝ) (a' : AgcProcessor ℝ)
    (ys : List ℝ) : Prop where
  bounded : a'.Bounded sampleRate greatest
  disabled : a'.enabled = false
  pace : a'.pace = a.pace
  length : ys.length = xs.length
  near : |a'.currentGain - 1| ≤ (1 - a.pace) ^ xs.length * |a.currentGain - 1|
  unchanged : ∀ N, (1 - a.pace) ^ N * |a.currentGain - 1| < 1e-6 →
    ys.drop N = xs.drop N ∧ (N < xs.length → a'.currentGain = 1)

theorem Fades.nil (h : a.Bounded sampleRate greatest) (he : a.enabled = false) :
    Fades sampleRate greatest a [] a [] where
  bounded := h
  disabled := he
  pace := rfl
  length := rfl
  near := by rw [List.length_nil, pow_zero, one_mul]
  unchanged _ _ := ⟨rfl, fun hlt => absurd hlt (Nat.not_lt_zero _)⟩

theorem Fades.sample {xs ys : List ℝ} {a' : AgcProcessor ℝ} (h : Fades sampleRate greatest a xs a' ys)
    (hpace : a.pace ≤ 1) (hpos : 0 ≤ a.pace) (x : ℝ) :
    ∃ b zs, a'.sample x = some (b, zs) ∧ Fades sampleRate greatest a (xs ++ [x]) b (ys ++ zs) := by
  have hs := sample_disabled h.disabled x
  obtain ⟨b, zs, hs', hb, -⟩ := h.bounded.sample x
  rw [hs] at hs'
  cases hs'
  have hfade : |a'.fade - 1| ≤ (1 - a.pace) * |a'.currentGain - 1| := by
    rw [← h.pace]
    exact fade_le h.bounded
  refine ⟨_, _, hs, hb, h.disabled, h.pace, ?_, ?_, ?_⟩
  · rw [List.length_append, List.length_append, h.length, List.length_singleton,
      List.length_singleton]
  · rw [List.length_append, List.length_singleton, pow_succ']
    calc |a'.fade - 1| ≤ (1 - a.pace) * |a'.currentGain - 1| := hfade
      _ ≤ (1 - a.pace) * ((1 - a.pace) ^ xs.length * |a.currentGain - 1|) :=
          mul_le_mul_of_nonneg_left h.near (sub_nonneg.mpr hpace)
      _ = (1 - a.pace) * (1 - a.pace) ^ xs.length * |a.currentGain - 1| := (mul_assoc _ _ _).symm
  · intro N hN
    rcases Nat.lt_or_ge xs.length N with hlt | hle
    · have hxs : (xs ++ [x]).length ≤ N := by
        rw [List.length_append, List.length_singleton]
        exact hlt
      refine ⟨?_, fun hN' => absurd hN' (Nat.not_lt.mpr hxs)⟩
      rw [List.drop_eq_nil_of_le hxs, List.drop_eq_nil_of_le]
      rw [List.length_append, h.length, List.length_singleton]
      exact hlt
    · -- the gain is under the snap by now
      have hsnap : |a'.currentGain - 1| < 1e-6 := by
        refine lt_of_le_of_lt (h.near.trans ?_) hN
        exact mul_le_mul_of_nonneg_right
          (pow_le_pow_of_le_one (sub_nonneg.mpr hpace) (sub_le_self 1 hpos) hle) (abs_nonneg _)
      have hone : a'.fade = 1 := by rw [fade, if_pos hsnap]
      refine ⟨?_, fun _ => hone⟩
      rw [List.drop_append_of_le_length (h.length ▸ hle), List.drop_append_of_le_length hle,
        (h.unchanged N hN).1, hone, mul_one]

theorem fades_process (h : a.Bounded sampleRate greatest) (he : a.enabled = false) (xs : List ℝ) :
    ∃ a' ys, a.process xs = some (a', ys) ∧ Fades sampleRate greatest a xs a' ys := by
  have hpace := pace_mem h
  refine Mealy.run_total (P := Fades sampleRate greatest a) ?_ (.nil h he) xs
  intro xs b ys x hf
  obtain ⟨c, zs, hs, hf'⟩ := hf.sample hpace.2 hpace.1.le x
  exact ⟨c, zs, hs, hf'⟩

/-- **Disabled, the control gets out of the way, and then it is out of the way.**  From any parameters
that are allowed and through any operations, where the control is then disabled there is a number of
samples, and every number that brings the distance to unity under the snap is one, behind which the
samples come out as they are and the gain is unity. -/
theorem gain_returns {enabled : Bool} {targetRmsDbfs maxGainDb attackMs releaseMs sampleRate : ℝ}
    (hrms : timeConstantToAlpha RMS_TIME_CONSTANT_S sampleRate ∈ Ioc 0 1)
    (h : Allowed maxGainDb attackMs releaseMs sampleRate) {ops : List (Op ℝ)}
    (hops : ∀ op ∈ ops, op.Allowed sampleRate) :
    ∃ a outs, Mealy.run step (new enabled targetRmsDbfs maxGainDb attackMs releaseMs sampleRate) ops =
        some (a, outs) ∧
      (a.enabled = false → (∃ N, (1 - a.pace) ^ N * |a.currentGain - 1| < 1e-6) ∧
        ∀ N, (1 - a.pace) ^ N * |a.currentGain - 1| < 1e-6 →
          ∀ xs, ∃ a' ys, a.process xs = some (a', ys) ∧ ys.length = xs.length ∧
            ys.drop N = xs.drop N ∧ (N < xs.length → a'.currentGain = 1)) := by
  obtain ⟨a, outs, hrun, hb, -⟩ := (bounded_new hrms h).run hops
  refine ⟨a, outs, hrun, ?_⟩
  intro he
  have hpace := pace_mem hb
  constructor
  · have hlim : Tendsto (fun N => (1 - a.pace) ^ N * |a.currentGain - 1|) atTop (𝓝 0) := by
      simpa using (tendsto_pow_atTop_nhds_zero_of_lt_one (sub_nonneg.mpr hpace.2)
        (sub_lt_self 1 hpace.1)).mul_const |a.currentGain - 1|
    exact (hlim.eventually_lt_const (by norm_num)).exists
  · intro N hN xs
    obtain ⟨a', ys, hp, hf⟩ := fades_process hb he xs
    exact ⟨a', ys, hp, hf.length, (hf.unchanged N hN).1, (hf.unchanged N hN).2⟩

/-- Disabled at the start, where the gain is unity: no sample is changed. -/
theorem gain_returns_passthrough : ∃ a',
    (new false (-20 : ℝ) 30 20 400 16000).process [1, -1, 1 / 2] = some (a', [1, -1, 1 / 2]) := by
  have halpha (t : ℝ) : timeConstantToAlpha t 16000 ∈ Ioc 0 1 :=
    timeConstantToAlpha_mem (by norm_num) t
  have hallowed : Allowed (30 : ℝ) 20 400 16000 :=
    ⟨one_le_dbToLinear (by norm_num), halpha _, halpha _⟩
  obtain ⟨a, outs, hrun, hreturns⟩ :=
    @gain_returns false (-20) 30 20 400 16000 (halpha RMS_TIME_CONSTANT_S) hallowed [] (by simp)
  obtain ⟨rfl, -⟩ := Prod.mk.inj (Option.some.inj hrun)
  obtain ⟨a', ys, hp, -, hdrop, -⟩ := (hreturns rfl).2 0 (by
    show (1 - _) ^ 0 * |(1.0 : ℝ) - 1| < 1e-6
    norm_num) [1, -1, 1 / 2]
  have hys : ys = [1, -1, 1 / 2] := hdrop
  rw [hys] at hp
  exact ⟨a', hp⟩

end Larmindon.AgcProcessor
