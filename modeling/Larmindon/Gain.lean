/-
# `Gain` — the gain stays between its bounds

The gain follows the level of the signal, which is arbitrary, and every parameter
of it can be changed on the way.  What is fixed is how it moves: a sample takes it
some part of the way towards a target (`approach`),

    enabled     to what the level asks for, clamped between the least and the
                greatest gain
    disabled    to unity, and onto it once it is close

and it starts at unity.  Between the least gain, which no parameter changes, and
the largest of the greatest gains configured so far, which unity does not exceed,
lie all these targets and so, as an interval is convex, every gain (`Bounded`).

This is about exact arithmetic: the weights are those of the source, over the
reals.  They are between zero and one at every sample rate above zero
(`timeConstantToAlpha_mem`), and settings that are validated configure no greatest
gain below unity (`allowed_of_validate`).
-/
import Larmindon.Agc
import Larmindon.Settings
import Mathlib.Analysis.Convex.Basic

namespace Larmindon

open Set

namespace AgcProcessor

/-! ## The operations -/

/-- For session boundaries.  The configuration is preserved. -/
def reset {F : Type} [F32 F] (a : AgcProcessor F) : AgcProcessor F :=
  { a with rmsSqEma := 0.0, currentGain := 1.0 }

inductive Op (F : Type) where
  | process (samples : List F)
  | updateParams (enabled : Bool) (targetRmsDbfs maxGainDb attackMs releaseMs : F)
  | reset

/-- An operation, and the samples it gives. -/
def step {F : Type} [F32 F] : Mealy.Step (AgcProcessor F) (Op F) F
  | a, .process samples => a.process samples
  | a, .updateParams enabled targetRmsDbfs maxGainDb attackMs releaseMs =>
      some (a.updateParams enabled targetRmsDbfs maxGainDb attackMs releaseMs, [])
  | a, .reset => some (a.reset, [])

/-- The samples an operation is given. -/
def Op.samples {F : Type} : Op F → List F
  | .process samples => samples
  | .updateParams _ _ _ _ _ | .reset => []

def Op.enables {F : Type} : Op F → Bool
  | .updateParams enabled _ _ _ _ => enabled
  | .process _ | .reset => false

/-- Parameters as they are wanted at a sample rate: a sample has a weight, and the greatest gain is
not below unity. -/
structure Allowed (maxGainDb attackMs releaseMs sampleRate : ℝ) : Prop where
  unity : 1 ≤ dbToLinear maxGainDb
  attack : timeConstantToAlpha (attackMs / 1000.0) sampleRate ∈ Ioc 0 1
  release : timeConstantToAlpha (releaseMs / 1000.0) sampleRate ∈ Ioc 0 1

def Op.Allowed (sampleRate : ℝ) : Op ℝ → Prop
  | .updateParams _ _ maxGainDb attackMs releaseMs =>
      AgcProcessor.Allowed maxGainDb attackMs releaseMs sampleRate
  | .process _ | .reset => True

/-- The greatest gain that an operation configures, or the one configured before. -/
def Op.greater {F : Type} [F32 F] (greatest : F) : Op F → F
  | .updateParams _ _ maxGainDb _ _ => F32.max greatest (dbToLinear maxGainDb)
  | .process _ | .reset => greatest

/-- The largest greatest gain configured so far, from the first one on. -/
def greatestGain {F : Type} [F32 F] (first : F) (ops : List (Op F)) : F := ops.foldl Op.greater first

theorem greatestGain_snoc {F : Type} [F32 F] (first : F) (ops : List (Op F)) (op : Op F) :
    greatestGain first (ops ++ [op]) = op.greater (greatestGain first ops) := by
  rw [greatestGain, List.foldl_append]
  rfl

/-! ## The weights -/

theorem zero_literal : (0.0 : ℝ) = 0 := by norm_num

theorem one_literal : (1.0 : ℝ) = 1 := by norm_num

/-- The weight of a sample, whatever the time constant. -/
theorem timeConstantToAlpha_mem {sampleRate : ℝ} (h : 0 < sampleRate) (timeConstantS : ℝ) :
    timeConstantToAlpha timeConstantS sampleRate ∈ Ioc 0 1 := by
  rw [timeConstantToAlpha, one_literal, zero_literal]
  split
  case isTrue => exact ⟨one_pos, le_refl 1⟩
  case isFalse hpos =>
      have hexponent : -1 / (timeConstantS * sampleRate) < 0 :=
        div_neg_of_neg_of_pos neg_one_lt_zero (mul_pos (not_le.mp hpos) h)
      have hlt : Real.exp (-1 / (timeConstantS * sampleRate)) < 1 := Real.exp_lt_one_iff.mpr hexponent
      exact ⟨sub_pos.mpr hlt, sub_le_self 1 (Real.exp_pos _).le⟩

theorem one_le_dbToLinear {db : ℝ} (h : 0 ≤ db) : 1 ≤ (dbToLinear db : ℝ) := by
  show 1 ≤ (10.0 : ℝ) ^ (db / 20.0)
  exact Real.one_le_rpow (by norm_num) (div_nonneg h (by norm_num))

/-- Settings that are validated are as wanted. -/
theorem allowed_of_validate {env : CheckEnv ℝ} {s : StoredSettings ℝ} (h : s.validate env = .ok ())
    {sampleRate : ℝ} (hrate : 0 < sampleRate) :
    Allowed s.agcMaxGainDb s.agcAttackMs s.agcReleaseMs sampleRate := by
  refine ⟨?_, timeConstantToAlpha_mem hrate _, timeConstantToAlpha_mem hrate _⟩
  have hzero := (StoredSettings.Valid.of_validate h).agcMaxGainDb.1
  rw [zero_literal] at hzero
  exact one_le_dbToLinear hzero

/-! ## One sample -/

variable {sampleRate greatest : ℝ} {a : AgcProcessor ℝ}

/-- What keeps the gain between its bounds. -/
structure Bounded (sampleRate greatest : ℝ) (a : AgcProcessor ℝ) : Prop where
  sampleRate : a.sampleRate = sampleRate
  minGain : a.minGain = 1 / 10
  maxGain : a.maxGain ∈ Icc 1 greatest
  rmsAlpha : a.rmsAlpha ∈ Ioc 0 1
  attackAlpha : a.attackAlpha ∈ Ioc 0 1
  releaseAlpha : a.releaseAlpha ∈ Ioc 0 1
  /-- The level is the root of this. -/
  rmsSqEma : 0 ≤ a.rmsSqEma
  currentGain : a.currentGain ∈ Icc (1 / 10) greatest

theorem Bounded.unity (h : a.Bounded sampleRate greatest) : (1 : ℝ) ∈ Icc (1 / 10) greatest :=
  ⟨by norm_num, h.maxGain.1.trans h.maxGain.2⟩

/-- Down or up, the gain goes some part of the way. -/
theorem Bounded.alpha (h : a.Bounded sampleRate greatest) (target : ℝ) :
    (if target < a.currentGain then a.attackAlpha else a.releaseAlpha) ∈ Icc (0 : ℝ) 1 := by
  split
  · exact Ioc_subset_Icc_self h.attackAlpha
  · exact Ioc_subset_Icc_self h.releaseAlpha

/-- A part of the way towards a target stays where the gain and the target are. -/
theorem Bounded.approach (h : a.Bounded sampleRate greatest) {target : ℝ}
    (ht : target ∈ Icc (1 / 10) greatest) : a.approach target ∈ Icc (1 / 10) greatest :=
  (convex_Icc (1 / 10) greatest).add_smul_sub_mem h.currentGain ht (h.alpha target)

/-- On the way to unity the distance to it does not grow. -/
theorem Bounded.abs_approach_one (h : a.Bounded sampleRate greatest) :
    |a.approach 1 - 1| ≤ |a.currentGain - 1| := by
  have halpha := h.alpha 1
  have hfactor : a.approach 1 - 1 =
      (1 - if 1 < a.currentGain then a.attackAlpha else a.releaseAlpha) * (a.currentGain - 1) := by
    rw [AgcProcessor.approach]
    ring
  rw [hfactor, abs_mul, abs_of_nonneg (sub_nonneg.mpr halpha.2)]
  exact mul_le_of_le_one_left (abs_nonneg _) (sub_le_self 1 halpha.1)

/-- Between bounds that are in order the clamp does not panic. -/
theorem clamp_mem {lo hi : ℝ} (h : lo ≤ hi) (x : ℝ) :
    ∃ y, F32.clamp x lo hi = some y ∧ y ∈ Icc lo hi := by
  rw [F32.clamp, if_pos h]
  refine ⟨_, rfl, ?_⟩
  split
  case isTrue hlo =>
      split
      · exact ⟨h, le_refl hi⟩
      · exact ⟨le_refl lo, h⟩
  case isFalse hlo =>
      split
      case isTrue => exact ⟨h, le_refl hi⟩
      case isFalse hhi => exact ⟨not_lt.mp hlo, not_lt.mp hhi⟩

/-- The gain behind a sample: between its bounds; and where the control is disabled, not farther from
unity, which it does not leave. -/
theorem Bounded.nextGain (h : a.Bounded sampleRate greatest) : ∃ g, a.nextGain = some g ∧
    g ∈ Icc (1 / 10) greatest ∧ (a.enabled = false → |g - 1| ≤ |a.currentGain - 1|) := by
  rw [AgcProcessor.nextGain]
  split
  case isTrue he =>
      have hbounds : a.minGain ≤ a.maxGain := by
        rw [h.minGain]
        exact h.unity.1.trans h.maxGain.1
      obtain ⟨target, hclamp, hlo, hhi⟩ := clamp_mem hbounds
        (a.targetRms / F32.max (F32.sqrt a.rmsSqEma) EPSILON)
      rw [h.minGain] at hlo
      refine ⟨a.approach target, ?_, h.approach ⟨hlo, hhi.trans h.maxGain.2⟩, ?_⟩
      · simp only [hclamp, Option.map_some]
      · intro hdisabled
        rw [hdisabled] at he
        cases he
  case isFalse =>
      rw [one_literal]
      split
      · refine ⟨1, rfl, h.unity, ?_⟩
        intro _
        rw [sub_self, abs_zero]
        exact abs_nonneg _
      · exact ⟨a.approach 1, rfl, h.approach h.unity, fun _ => h.abs_approach_one⟩

/-- The level stays one. -/
theorem Bounded.level (h : a.Bounded sampleRate greatest) (x : ℝ) :
    0 ≤ a.rmsAlpha * x * x + (1.0 - a.rmsAlpha) * a.rmsSqEma := by
  rw [one_literal, mul_assoc]
  exact add_nonneg (mul_nonneg h.rmsAlpha.1.le (mul_self_nonneg x))
    (mul_nonneg (sub_nonneg.mpr h.rmsAlpha.2) h.rmsSqEma)

/-- What gets no farther from unity does not leave it. -/
theorem eq_one_of_nearer {g g' : ℝ} (h : |g' - 1| ≤ |g - 1|) (hg : g = 1) : g' = 1 := by
  rw [hg, sub_self, abs_zero] at h
  exact sub_eq_zero.mp (abs_nonpos_iff.mp h)

/-- From `a` to `a'`, given `xs` and giving `ys`, all of it disabled: the gain gets no farther from
unity, and from unity on nothing is changed. -/
structure Settles (a a' : AgcProcessor ℝ) (xs ys : List ℝ) : Prop where
  disabled : a'.enabled = false
  nearer : |a'.currentGain - 1| ≤ |a.currentGain - 1|
  unchanged : a.currentGain = 1 → ys = xs

theorem Settles.nil (h : a.enabled = false) : Settles a a [] [] :=
  ⟨h, le_refl _, fun _ => rfl⟩

/-- Unity is not left. -/
theorem Settles.unity {a' : AgcProcessor ℝ} {xs ys : List ℝ} (h : Settles a a' xs ys)
    (ha : a.currentGain = 1) : a'.currentGain = 1 :=
  eq_one_of_nearer h.nearer ha

theorem Settles.trans {b c : AgcProcessor ℝ} {xs ys xs' ys' : List ℝ} (h : Settles a b xs ys)
    (h' : Settles b c xs' ys') : Settles a c (xs ++ xs') (ys ++ ys') := by
  refine ⟨h'.disabled, h'.nearer.trans h.nearer, ?_⟩
  intro ha
  rw [h.unchanged ha, h'.unchanged (h.unity ha)]

/-- A sample is processed without a panic, and the gain stays between its bounds. -/
theorem Bounded.sample (h : a.Bounded sampleRate greatest) (x : ℝ) : ∃ a' ys,
    a.sample x = some (a', ys) ∧ a'.Bounded sampleRate greatest ∧
      (a.enabled = false → Settles a a' [x] ys) := by
  have hlevel : Bounded sampleRate greatest
      { a with rmsSqEma := a.rmsAlpha * x * x + (1.0 - a.rmsAlpha) * a.rmsSqEma } :=
    { h with rmsSqEma := h.level x }
  obtain ⟨g, hg, hbounds, hnear⟩ := hlevel.nextGain
  have hs : a.sample x = some ({ a with
      rmsSqEma := a.rmsAlpha * x * x + (1.0 - a.rmsAlpha) * a.rmsSqEma, currentGain := g },
      [x * g]) := by
    simp only [AgcProcessor.sample, hg, Option.map_some]
  refine ⟨_, _, hs, { hlevel with currentGain := hbounds }, ?_⟩
  intro hdisabled
  refine ⟨hdisabled, hnear hdisabled, ?_⟩
  intro hone
  rw [eq_one_of_nearer (hnear hdisabled) hone, mul_one]

/-! ## Calls -/

theorem Bounded.process (h : a.Bounded sampleRate greatest) (xs : List ℝ) : ∃ a' ys,
    a.process xs = some (a', ys) ∧ a'.Bounded sampleRate greatest ∧
      (a.enabled = false → Settles a a' xs ys) := by
  refine Mealy.run_total (P := fun xs a' ys => a'.Bounded sampleRate greatest ∧
    (a.enabled = false → Settles a a' xs ys)) ?_ ⟨h, .nil⟩ xs
  rintro xs b ys x ⟨hb, hsettles⟩
  obtain ⟨c, y, hs, hc, hsample⟩ := hb.sample x
  refine ⟨c, y, hs, hc, ?_⟩
  intro hdisabled
  exact (hsettles hdisabled).trans (hsample (hsettles hdisabled).disabled)

/-- Every operation keeps the bounds, of which the upper one grows where a greatest gain is configured
that is larger. -/
theorem Bounded.step (h : a.Bounded sampleRate greatest) {op : Op ℝ} (hop : op.Allowed sampleRate) :
    ∃ a' ys, a.step op = some (a', ys) ∧ a'.Bounded sampleRate (op.greater greatest) ∧
      (a.enabled = false → op.enables = false → Settles a a' op.samples ys) := by
  cases op with
  | process samples =>
      obtain ⟨a', ys, hp, hbounded, hsettles⟩ := h.process samples
      exact ⟨a', ys, hp, hbounded, fun hdisabled _ => hsettles hdisabled⟩
  | updateParams enabled targetRmsDbfs maxGainDb attackMs releaseMs =>
      refine ⟨_, _, rfl, ?_, fun _ hop => ⟨hop, le_refl _, fun _ => rfl⟩⟩
      have hgreater : greatest ≤ max greatest (dbToLinear maxGainDb) := le_max_left _ _
      exact
        { h with
          maxGain := ⟨hop.unity, le_max_right _ _⟩
          attackAlpha := by
            show timeConstantToAlpha (attackMs / 1000.0) a.sampleRate ∈ Ioc 0 1
            rw [h.sampleRate]
            exact hop.attack
          releaseAlpha := by
            show timeConstantToAlpha (releaseMs / 1000.0) a.sampleRate ∈ Ioc 0 1
            rw [h.sampleRate]
            exact hop.release
          currentGain := ⟨h.currentGain.1, h.currentGain.2.trans hgreater⟩ }
  | reset =>
      have hreset : a.reset.currentGain = 1 := one_literal
      refine ⟨a.reset, [], rfl, { h with rmsSqEma := ?_, currentGain := ?_ }, ?_⟩
      · exact zero_literal.ge
      · rw [hreset]
        exact h.unity
      · intro hdisabled _
        refine ⟨hdisabled, ?_, fun _ => rfl⟩
        rw [hreset, sub_self, abs_zero]
        exact abs_nonneg _

theorem bounded_new {enabled : Bool} {targetRmsDbfs maxGainDb attackMs releaseMs : ℝ}
    (hrms : timeConstantToAlpha RMS_TIME_CONSTANT_S sampleRate ∈ Ioc 0 1)
    (h : Allowed maxGainDb attackMs releaseMs sampleRate) :
    (new enabled targetRmsDbfs maxGainDb attackMs releaseMs sampleRate).Bounded sampleRate
      (dbToLinear maxGainDb) where
  sampleRate := rfl
  minGain := by
    show (1.0 : ℝ) / (10.0 : ℝ) ^ (20.0 / 20.0 : ℝ) = 1 / 10
    norm_num
  maxGain := ⟨h.unity, le_refl _⟩
  rmsAlpha := hrms
  attackAlpha := h.attack
  releaseAlpha := h.release
  rmsSqEma := zero_literal.ge
  currentGain := by
    show (1.0 : ℝ) ∈ Icc (1 / 10) (dbToLinear maxGainDb)
    rw [one_literal]
    exact ⟨by norm_num, h.unity⟩

/-- Operations that are allowed run, and none of them that enables the control is on the way. -/
theorem Bounded.run (h : a.Bounded sampleRate greatest) {ops : List (Op ℝ)}
    (hops : ∀ op ∈ ops, op.Allowed sampleRate) :
    ∃ a' ys, Mealy.run AgcProcessor.step a ops = some (a', ys) ∧
      a'.Bounded sampleRate (greatestGain greatest ops) ∧
      (a.enabled = false → (∀ op ∈ ops, op.enables = false) →
        Settles a a' (ops.flatMap Op.samples) ys) := by
  refine Mealy.run_within (G := fun ops => ∀ op ∈ ops, op.Allowed sampleRate)
    (P := fun ops a' ys => a'.Bounded sampleRate (greatestGain greatest ops) ∧
      (a.enabled = false → (∀ op ∈ ops, op.enables = false) →
        Settles a a' (ops.flatMap Op.samples) ys)) ?_ ?_ ⟨h, fun hd _ => .nil hd⟩ ops hops
  · intro xs ys hall op hop
    exact hall op (List.mem_append_left ys hop)
  · rintro ops b ys op ⟨hb, hsettles⟩ hall
    obtain ⟨c, zs, hs, hc, hop⟩ := hb.step (hall op (by simp))
    refine ⟨c, zs, hs, ?_, ?_⟩
    · rw [greatestGain_snoc]
      exact hc
    · intro hdisabled hnone
      have hbefore := hsettles hdisabled fun op' hop' => hnone op' (List.mem_append_left _ hop')
      rw [List.flatMap_append, List.flatMap_singleton]
      exact hbefore.trans (hop hbefore.disabled (hnone op (by simp)))

/-- **The gain stays between its bounds.**  In exact arithmetic, from any parameters that are allowed
and through any operations, changes to other parameters that are allowed among them: nothing panics,
and the gain is not below a tenth and not above the largest of the greatest gains configured so far.
Where the control is disabled then, through whatever follows until it is enabled again the gain gets
no farther from unity, and from unity on the samples come out as they are.  A call is as many calls as
it is cut into, so all of this holds behind each sample. -/
theorem gain_bounded {enabled : Bool} {targetRmsDbfs maxGainDb attackMs releaseMs sampleRate : ℝ}
    (hrms : timeConstantToAlpha RMS_TIME_CONSTANT_S sampleRate ∈ Ioc 0 1)
    (h : Allowed maxGainDb attackMs releaseMs sampleRate) {ops : List (Op ℝ)}
    (hops : ∀ op ∈ ops, op.Allowed sampleRate) :
    ∃ a outs, Mealy.run step (new enabled targetRmsDbfs maxGainDb attackMs releaseMs sampleRate) ops =
        some (a, outs) ∧
      1 / 10 ≤ a.currentGain ∧ a.currentGain ≤ greatestGain (dbToLinear maxGainDb) ops ∧
      (a.enabled = false → ∀ later : List (Op ℝ), (∀ op ∈ later, op.Allowed sampleRate) →
        (∀ op ∈ later, op.enables = false) →
        ∃ a' outs', Mealy.run step a later = some (a', outs') ∧
          |a'.currentGain - 1| ≤ |a.currentGain - 1| ∧
          (a.currentGain = 1 → outs' = later.flatMap Op.samples)) := by
  obtain ⟨a, outs, hrun, hbounded, -⟩ := (bounded_new hrms h).run hops
  refine ⟨a, outs, hrun, hbounded.currentGain.1, hbounded.currentGain.2, ?_⟩
  intro hdisabled later hlater hnone
  obtain ⟨a', outs', hrun', -, hsettles⟩ := hbounded.run hlater
  have hs := hsettles hdisabled hnone
  exact ⟨a', outs', hrun', hs.nearer, hs.unchanged⟩

/-- Two samples, then the control is disabled with unity for the greatest gain, then another sample. -/
theorem gain_bounded_disabling : ∃ a outs a' outs',
    Mealy.run step (new true (-20) 30 20 400 16000 : AgcProcessor ℝ)
        [.process [1, 2], .updateParams false (-20) 0 20 400] = some (a, outs) ∧
      1 / 10 ≤ a.currentGain ∧ a.currentGain ≤ max (dbToLinear 30) (dbToLinear 0) ∧
      Mealy.run step a [.process [3]] = some (a', outs') ∧
      |a'.currentGain - 1| ≤ |a.currentGain - 1| := by
  have halpha (s : ℝ) : timeConstantToAlpha s 16000 ∈ Ioc 0 1 :=
    timeConstantToAlpha_mem (by norm_num) s
  have hfirst : Allowed 30 20 400 16000 := ⟨one_le_dbToLinear (by norm_num), halpha _, halpha _⟩
  have hthen : Allowed 0 20 400 16000 := ⟨one_le_dbToLinear (le_refl 0), halpha _, halpha _⟩
  have hops : ∀ op ∈ [Op.process [1, 2], Op.updateParams false (-20) 0 20 400],
      op.Allowed 16000 := by
    intro op hop
    rcases List.mem_pair.mp hop with rfl | rfl
    · trivial
    · exact hthen
  have hlater : ∀ op ∈ [Op.process [3]], op.Allowed 16000 := by
    intro op hop
    rw [List.mem_singleton.mp hop]
    trivial
  obtain ⟨a, outs, hrun, hlo, hhi, hsettles⟩ := gain_bounded (halpha _) hfirst hops
  have hdisabled : a.enabled = false := by
    have hsplit : Mealy.run step (new true (-20) 30 20 400 16000) ([Op.process [1, 2]] ++
        [Op.updateParams false (-20) 0 20 400]) = some (a, outs) := hrun
    obtain ⟨t, os, ps, -, hupdate, -⟩ := Mealy.run_append_inv hsplit
    cases hupdate
    rfl
  obtain ⟨a', outs', hrun', hnear, -⟩ := hsettles hdisabled _ hlater (by
    intro op hop
    rw [List.mem_singleton.mp hop]
    rfl)
  exact ⟨a, outs, a', outs', hrun, hlo, hhi, hrun', hnear⟩

end AgcProcessor

end Larmindon
