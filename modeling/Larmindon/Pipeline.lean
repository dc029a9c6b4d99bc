/-
# `Pipeline` — one iteration of the processing loop, up to recognition

What the capture buffer gives an iteration goes through three stages, two of
which read blocks of one size and keep what is left over for the next iteration.

    stage       reads                               keeps
    resample    blocks of `inputFramesNext`         the resampler, samples left over
    AGC         sample by sample                    the level and the gain
    VAD         frames of 512                       the VAD, samples left over

Each frame becomes calls of the backend (`AudioGating.route`).  A frame the VAD
fails on becomes none, and neither does a block the resampler fails on become
samples; both failures are only written to the diagnostics, which are left out.

The resampler is not part of the repository: `Resampler` is a machine over
blocks of one size.  The VAD is any machine over frames (`Vad`), of which the
source's is one (`VadProcessor.vad`).  `none` is where the source panics.
-/
import Larmindon.Agc
import Larmindon.Gating
import Larmindon.Lib.Chunks
import Larmindon.Silero

namespace Larmindon

variable {F ρ ν St : Type}

/-- The settings the stages read. -/
structure PipelineSettings (F : Type) where
  vadThresholdStart : F
  vadThresholdEnd : F
  agcEnabled : Bool
  agcTargetRmsDbfs : F
  agcMaxGainDb : F
  agcAttackMs : F
  agcReleaseMs : F
  deriving DecidableEq, Repr

/-- A resampler whose `input_frames_next` never changes; it answers with channels. -/
structure Resampler (F ρ : Type) where
  inputFramesNext : ℕ
  pos : 0 < inputFramesNext
  process : ρ → List F → Except String (List (List F)) × ρ

/-- What the frame loop asks of a VAD. -/
structure Vad (F ν : Type) where
  processFrame : ν → List F → Option (Except String (VadDecision F) × ν)
  updateParams : ν → F → F → ν

/-- The VAD of the source, with the durations the loop reloads it with. -/
def VadProcessor.vad [LE F] [DecidableLE F] (N : Network F St) : Vad F (VadProcessor F St) where
  processFrame := fun v frame => v.processFrame N frame
  updateParams := fun v thresholdStart thresholdEnd =>
    v.updateParams thresholdStart thresholdEnd 500 250

/-- `take_complete_frames`: the input in whole frames, and what is left over. -/
def takeCompleteFrames (leftover drained : List F) (frameSize : ℕ) : List F × List F :=
  let input := leftover ++ drained
  let completeLen := input.length / frameSize * frameSize
  if completeLen < input.length then (input.take completeLen, input.drop completeLen) else (input, [])

/-! ## Resampling and gain -/

/-- The stages in front of the VAD. -/
structure Front (F ρ : Type) where
  resampler : Option ρ
  resampleLeftover : List F
  agc : AgcProcessor F

namespace Front

/-- One block, of which the first channel is kept. -/
def block (R : Resampler F ρ) : Mealy.Step ρ (List F) F := fun r inputChunk =>
  match R.process r inputChunk with
  | (.ok output, r) => some (r, output.headD [])
  | (.error _, r) => some (r, [])

def resample (R : Resampler F ρ) (f : Front F ρ) (drained : List F) : Option (Front F ρ × List F) :=
  match f.resampler with
  | none => some (f, drained)
  | some r =>
      let (resampleInput, resampleLeftover) :=
        takeCompleteFrames f.resampleLeftover drained R.inputFramesNext
      (Mealy.run (block R) r (Chunks.cut R.inputFramesNext resampleInput)).map fun (r, resampled) =>
        ({ f with resampler := some r, resampleLeftover }, resampled)

variable [F32 F]

/-- What reaches the VAD of the samples drained. -/
def process (R : Resampler F ρ) : Mealy.Step (Front F ρ) (List F) F := fun f drained =>
  (f.resample R drained).bind fun (f, samples16k) =>
    (f.agc.process samples16k).map fun (agc, samples16k) => ({ f with agc }, samples16k)

/-- The hot reload, where settings were pushed. -/
def reload (f : Front F ρ) : Option (PipelineSettings F) → Front F ρ
  | none => f
  | some s => { f with
      agc := f.agc.updateParams s.agcEnabled s.agcTargetRmsDbfs s.agcMaxGainDb s.agcAttackMs
        s.agcReleaseMs }

end Front

/-! ## An iteration -/

/-- What the stages carry from iteration to iteration. -/
structure Pipeline (F ρ ν : Type) extends Front F ρ where
  vadLeftover : List F
  vad : ν

/-- What an iteration reads: settings that were pushed, and the samples drained. -/
structure Drain (F : Type) where
  reload : Option (PipelineSettings F)
  drained : List F

/-- What an iteration asks of the backend. -/
inductive Request (F : Type) where
  | call (c : BackendCall F)
  | poll
  | process
  deriving DecidableEq, Repr

/-- The calls among the requests. -/
def Request.call? : Request F → Option (BackendCall F)
  | .call c => some c
  | .poll | .process => none

/-- The body of the frame loop.  On an error it goes on with the next frame, in front of the match
on the gating. -/
def Vad.frame (V : Vad F ν) (gating : AudioGating) : Mealy.Step ν (List F) (BackendCall F) :=
  fun v frame =>
    match V.processFrame v frame with
    | none => none
    | some (.error _, v) => some (v, [])
    | some (.ok decision, v) => some (v, gating.route decision frame)

namespace Pipeline

variable [F32 F]

/-- The locals of the loop as it begins, with the resampler and the VAD it is given. -/
def new (resampler : Option ρ) (vad : ν) (s : PipelineSettings F) : Pipeline F ρ ν where
  resampler := resampler
  resampleLeftover := []
  agc := .new s.agcEnabled s.agcTargetRmsDbfs s.agcMaxGainDb s.agcAttackMs s.agcReleaseMs 16000.0
  vadLeftover := []
  vad := vad

/-- The hot reload, where settings were pushed. -/
def reload (V : Vad F ν) (p : Pipeline F ρ ν) : Option (PipelineSettings F) → Pipeline F ρ ν
  | none => p
  | some s => { p.toFront.reload (some s) with
      vadLeftover := p.vadLeftover
      vad := V.updateParams p.vad s.vadThresholdStart s.vadThresholdEnd }

/-- The stages on samples drained, and the calls they end in. -/
def deliver (R : Resampler F ρ) (V : Vad F ν) (gating : AudioGating) :
    Mealy.Step (Pipeline F ρ ν) (List F) (BackendCall F) := fun p drained =>
  (p.toFront.process R drained).bind fun (front, samples16k) =>
    let vadInput := p.vadLeftover ++ samples16k
    (Mealy.run (V.frame gating) p.vad (Chunks.cut vadChunkSize vadInput)).map fun (vad, calls) =>
      ({ front with vadLeftover := Chunks.tail vadChunkSize vadInput, vad }, calls)

/-- One iteration; with nothing drained the backend is only polled. -/
def iterate (R : Resampler F ρ) (V : Vad F ν) (gating : AudioGating) :
    Mealy.Step (Pipeline F ρ ν) (Drain F) (Request F) := fun p i =>
  let p := p.reload V i.reload
  match i.drained with
  | [] => some (p, [.poll])
  | x :: xs =>
      (p.deliver R V gating (x :: xs)).map fun (p, calls) => (p, calls.map .call ++ [.process])

end Pipeline

end Larmindon
