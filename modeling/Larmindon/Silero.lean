/-
# `Silero` — the VAD model, and the processor around it

The model hears each frame behind the last 64 samples of the frame before, and
carries a state from frame to frame.  The network itself is not part of the
repository: `Network` is its interface.  What the processor makes of a frame is
the state machine's decision on the probability the model gives it.

    processFrame fails in the network        nothing changed
    processFrame fails behind it             the model has gone on, the state
                                             machine has not seen the frame
    processFrame succeeds                    both have gone on

A frame has a decision or an error; `none` is where the source panics.
-/
import Larmindon.Vad

namespace Larmindon

variable {F St : Type}

/-- The session of the ONNX runtime: from the input and the state, an error, or the next state with
the output, which may fail to be read. -/
structure Network (F St : Type) where
  zeros : St
  run : List F → St → Except String (St × Except String (List F))

/-- `VAD_CHUNK_SIZE`. -/
def vadChunkSize : ℕ := 512

/-- `VAD_CONTEXT_SIZE`. -/
def vadContextSize : ℕ := 64

structure SileroModel (F St : Type) where
  state : St
  context : List F
  deriving DecidableEq, Repr

namespace SileroModel

variable [Zero F] (N : Network F St)

def new : SileroModel F St where
  state := N.zeros
  context := List.replicate vadContextSize 0

def reset (_ : SileroModel F St) : SileroModel F St where
  state := N.zeros
  context := List.replicate vadContextSize 0

omit [Zero F] in
/-- The speech probability of a frame.  `none` where the frame is of another size, or the output is
empty. -/
def processFrame (m : SileroModel F St) (frame : List F) :
    Option (Except String F × SileroModel F St) :=
  if frame.length = vadChunkSize then
    match N.run (m.context ++ frame) m.state with
    | .error e => some (.error e, m)
    | .ok (state, output) =>
        let m := { state, context := frame.drop (vadChunkSize - vadContextSize) }
        match output with
        | .error e => some (.error e, m)
        | .ok [] => none
        | .ok (prob :: _) => some (.ok prob, m)
  else none

end SileroModel

structure VadProcessor (F St : Type) where
  model : SileroModel F St
  stateMachine : VadStateMachine F F

namespace VadProcessor

variable [Zero F] (N : Network F St)

/-- The model is loaded by now. -/
def new (thresholdStart thresholdEnd : F) (minSilenceDurationMs minSpeechDurationMs : UInt32)
    (preSpeechMs : ℕ) : VadProcessor F St where
  model := .new N
  stateMachine := .new thresholdStart thresholdEnd minSilenceDurationMs minSpeechDurationMs preSpeechMs

def state (v : VadProcessor F St) : VadState := v.stateMachine.state

def reset (v : VadProcessor F St) : VadProcessor F St where
  model := v.model.reset N
  stateMachine := v.stateMachine.reset

omit [Zero F] in
def updateParams (v : VadProcessor F St) (thresholdStart thresholdEnd : F)
    (minSilenceDurationMs minSpeechDurationMs : UInt32) : VadProcessor F St :=
  { v with
    stateMachine := v.stateMachine.updateParams thresholdStart thresholdEnd minSilenceDurationMs
      minSpeechDurationMs }

omit [Zero F] in
/-- The decision on a frame. -/
def processFrame [LE F] [DecidableLE F] (v : VadProcessor F St) (frame : List F) :
    Option (Except String (VadDecision F) × VadProcessor F St) :=
  match v.model.processFrame N frame with
  | none => none
  | some (.error e, model) => some (.error e, { v with model })
  | some (.ok prob, model) =>
      match v.stateMachine.process prob frame with
      | none => none
      | some (decision, stateMachine) => some (.ok decision, { model, stateMachine })

end VadProcessor

end Larmindon
