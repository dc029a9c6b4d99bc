/-
# `Agc` — automatic gain control, one sample at a time

The gain follows a running estimate of the level.  Everything is a fold over the
samples with the state carried along (`AgcProcessor.sample`), so it does not see
where one call of `process` ends and the next begins.

The arithmetic is the source's `f32`, taken as a type with the operations it
uses and no law (`F32`): what is said of the stages before recognition holds
whatever they round to.  The reals are such a type, where nothing is rounded.
-/
import Larmindon.Lib.Mealy
import Mathlib.Analysis.SpecialFunctions.Pow.Real

namespace Larmindon

/-- The operations of `f32` the source uses. -/
class F32 (F : Type) extends Zero F, Add F, Sub F, Mul F, Div F, Neg F, LE F, LT F, OfScientific F where
  sqrt : F → F
  exp : F → F
  powf : F → F → F
  abs : F → F
  max : F → F → F
  decLE : DecidableLE F
  decLT : DecidableLT F

variable {F : Type} [F32 F]

instance F32.decidableLE : DecidableLE F := F32.decLE

instance F32.decidableLT : DecidableLT F := F32.decLT

noncomputable instance : F32 ℝ where
  sqrt := Real.sqrt
  exp := Real.exp
  powf := fun x y => x ^ y
  abs := fun x => |x|
  max := fun x y => max x y
  decLE := inferInstance
  decLT := inferInstance

/-- `f32::clamp`, which panics where the bounds are not in order. -/
def F32.clamp {F : Type} [LE F] [LT F] [DecidableLE F] [DecidableLT F] (x lo hi : F) : Option F :=
  if lo ≤ hi then
    let x := if x < lo then lo else x
    some (if x > hi then hi else x)
  else none

/-- Avoids a division by zero. -/
def EPSILON : F := 1e-10

/-- Time constant of the level estimate. -/
def RMS_TIME_CONSTANT_S : F := 1.0

def MAX_ATTENUATION_DB : F := 20.0

def dbToLinear (db : F) : F := F32.powf 10.0 (db / 20.0)

/-- The weight of one sample in an average over so many seconds. -/
def timeConstantToAlpha (timeConstantS sampleRate : F) : F :=
  if timeConstantS ≤ 0.0 then 1.0 else 1.0 - F32.exp (-1.0 / (timeConstantS * sampleRate))

structure AgcProcessor (F : Type) where
  enabled : Bool
  targetRms : F
  maxGain : F
  minGain : F
  rmsAlpha : F
  attackAlpha : F
  releaseAlpha : F
  rmsSqEma : F
  currentGain : F
  sampleRate : F

namespace AgcProcessor

def new (enabled : Bool) (targetRmsDbfs maxGainDb attackMs releaseMs sampleRate : F) :
    AgcProcessor F where
  enabled := enabled
  targetRms := dbToLinear targetRmsDbfs
  maxGain := dbToLinear maxGainDb
  minGain := 1.0 / dbToLinear MAX_ATTENUATION_DB
  rmsAlpha := timeConstantToAlpha RMS_TIME_CONSTANT_S sampleRate
  attackAlpha := timeConstantToAlpha (attackMs / 1000.0) sampleRate
  releaseAlpha := timeConstantToAlpha (releaseMs / 1000.0) sampleRate
  rmsSqEma := 0.0
  currentGain := 1.0
  sampleRate := sampleRate

/-- One step of the gain towards `target`: fast down, slow up. -/
def approach (a : AgcProcessor F) (target : F) : F :=
  let alpha := if target < a.currentGain then a.attackAlpha else a.releaseAlpha
  a.currentGain + alpha * (target - a.currentGain)

/-- The gain after a sample; `none` where the clamp panics. -/
def nextGain (a : AgcProcessor F) : Option F :=
  if a.enabled then
    let rmsEstimate := F32.sqrt a.rmsSqEma
    (F32.clamp (a.targetRms / F32.max rmsEstimate EPSILON) a.minGain a.maxGain).map a.approach
  -- disabled, the gain goes to unity without a click, and stays there once it is close
  else if F32.abs (a.currentGain - 1.0) < 1e-6 then some 1.0
  else some (a.approach 1.0)

/-- The loop body of `process`.  The level is tracked even when disabled. -/
def sample : Mealy.Step (AgcProcessor F) F F := fun a x =>
  let a := { a with rmsSqEma := a.rmsAlpha * x * x + (1.0 - a.rmsAlpha) * a.rmsSqEma }
  a.nextGain.map fun currentGain => ({ a with currentGain }, [x * currentGain])

def process (a : AgcProcessor F) (samples : List F) : Option (AgcProcessor F × List F) :=
  Mealy.run sample a samples

/-- Keeps the level and the gain. -/
def updateParams (a : AgcProcessor F) (enabled : Bool)
    (targetRmsDbfs maxGainDb attackMs releaseMs : F) : AgcProcessor F :=
  { a with
    enabled
    targetRms := dbToLinear targetRmsDbfs
    maxGain := dbToLinear maxGainDb
    attackAlpha := timeConstantToAlpha (attackMs / 1000.0) a.sampleRate
    releaseAlpha := timeConstantToAlpha (releaseMs / 1000.0) a.sampleRate }

/-- Disabled, and at unity, it changes no sample. -/
theorem process_disabled {a : AgcProcessor ℝ} (he : a.enabled = false) (hg : a.currentGain = 1)
    (xs : List ℝ) : ∃ a', a.process xs = some (a', xs) := by
  have hstep : ∀ (a : AgcProcessor ℝ) (x : ℝ), a.enabled = false → a.currentGain = 1 →
      ∃ a', a.sample x = some (a', [x]) ∧ a'.enabled = false ∧ a'.currentGain = 1 := by
    intro a x he hg
    have hunity : F32.abs (a.currentGain - 1.0) < (1e-6 : ℝ) := by
      show |a.currentGain - 1.0| < (1e-6 : ℝ)
      rw [hg]
      norm_num
    have hone : (1.0 : ℝ) = 1 := by norm_num
    have hs : a.sample x = some ({ a with
        rmsSqEma := a.rmsAlpha * x * x + (1.0 - a.rmsAlpha) * a.rmsSqEma
        currentGain := 1.0 }, [x * 1.0]) := by
      simp only [sample, nextGain, he, Bool.false_eq_true, if_false, if_pos hunity, Option.map_some]
    rw [hone, mul_one] at hs
    exact ⟨_, hs, he, rfl⟩
  induction xs generalizing a with
  | nil => exact ⟨a, rfl⟩
  | cons x xs ih =>
      obtain ⟨a₁, hs, he₁, hg₁⟩ := hstep a x he hg
      obtain ⟨a₂, hr⟩ := ih he₁ hg₁
      refine ⟨a₂, ?_⟩
      rw [process, Mealy.run_cons hs]
      show (a₁.process xs).map _ = _
      rw [hr]
      rfl

end AgcProcessor

end Larmindon
