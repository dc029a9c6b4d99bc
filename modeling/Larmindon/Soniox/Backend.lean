/-
# `Soniox.Backend` — the adapter between pipeline and socket

`fold` maps what the socket task has sent to updates; `deliver` decides what a
call returns, text before status.  The parts of `process`, `poll` and
`push_audio` that touch only the backend are here; what they do to the queues
they share with the socket task is in `Soniox.World`.

`Instant::now()` is read once a message, so a message comes with its reading.
Converting a sample to 16 bits is floating point and a parameter.  Settings,
diagnostics and the blocking wait of `end_session` are left out.
-/
import Larmindon.Soniox.Client
import Larmindon.Soniox.Durable

namespace Larmindon.Soniox

open Journal

/-- A reading of the monotonic clock. -/
abbrev Instant := ℕ

/-- `i16::to_le_bytes`. -/
def toLeBytes (x : Int16) : List UInt8 := [x.toUInt16.toUInt8, (x.toUInt16 >>> 8).toUInt8]

/-- `f32_to_pcm_s16le`, over what it does to one sample. -/
def f32ToPcmS16le {Sample : Type} (quantize : Sample → Int16) (samples : List Sample) : List UInt8 :=
  samples.flatMap fun s => toLeBytes (quantize s)

/-- The handle to the socket thread, less the channels. -/
structure SonioxClient where
  finishSent : Bool
  deriving DecidableEq, Repr

structure SonioxBackend where
  client : Option SonioxClient
  accumulator : Accumulator
  /-- PCM staged by `push_audio`, flushed as one frame by `process`. -/
  staged : List UInt8
  stagedSamples : ℕ
  lastSpeechAt : Option Instant
  framesSent : ℕ
  /-- Status that lost a return slot to text and is owed on the next call. -/
  pendingTransient : Option String
  pendingFatal : Option String
  deriving DecidableEq, Repr

namespace SonioxBackend

def new : SonioxBackend where
  client := none
  accumulator := .new
  staged := []
  stagedSamples := 0
  lastSpeechAt := none
  framesSent := 0
  pendingTransient := none
  pendingFatal := none

/-- `begin_session`, once `SonioxClient::connect` has spawned the socket thread. -/
def beginSession (b : SonioxBackend) : SonioxBackend where
  client := some { finishSent := false }
  accumulator := b.accumulator.reset
  staged := []
  stagedSamples := 0
  lastSpeechAt := none
  framesSent := 0
  pendingTransient := none
  pendingFatal := none

def pushAudio {Sample : Type} (b : SonioxBackend) (quantize : Sample → Int16)
    (samples : List Sample) : SonioxBackend :=
  { b with
    staged := b.staged ++ f32ToPcmS16le quantize samples
    stagedSamples := b.stagedSamples + samples.length }

/-- The loop body of `fold`: one message, read at `now`. -/
def foldMessage : Mealy.Step (SonioxBackend × SegmentIds) (Instant × Inbound) TranscriptUpdate
  | (b, ids), (now, .response r) =>
      -- message arrival is not evidence of speech, only token content counts
      let b := if r.tokens.any Accumulator.isSpeechToken then { b with lastSpeechAt := some now } else b
      (b.accumulator.ingest r ids).map fun w => (({ b with accumulator := w.acc }, w.ids), w.out)
  | (b, ids), (_, .reconnecting reason) =>
      let w := b.accumulator.finish ids
      some (({ b with
        accumulator := w.acc.reset
        pendingTransient := some ("Reconnecting to Soniox: " ++ reason) }, w.ids), w.out)
  | (b, ids), (_, .finished) => some ((b, ids), [])
  | (b, ids), (_, .fatal message) =>
      let w := b.accumulator.finish ids
      some (({ b with
        accumulator := w.acc.reset
        pendingFatal := some message }, w.ids), w.out)

/-- `fold`. -/
def fold (b : SonioxBackend) (messages : List (Instant × Inbound)) (ids : SegmentIds) :
    Option ((SonioxBackend × SegmentIds) × List TranscriptUpdate) :=
  Mealy.run foldMessage (b, ids) messages

/-- Text wins; then the status owed, the worse first; then the fallback. -/
def deliver (b : SonioxBackend) (updates : List TranscriptUpdate) (fallback : Option AsrError) :
    SonioxBackend × Except AsrError (List TranscriptUpdate) :=
  if !updates.isEmpty then (b, .ok updates)
  else match b.pendingFatal with
    | some message => ({ b with pendingFatal := none }, .error (.fatal message))
    | none => match b.pendingTransient with
      | some message => ({ b with pendingTransient := none }, .error (.transient message))
      | none => match fallback with
        | some error => (b, .error error)
        | none => (b, .ok updates)

end SonioxBackend

/-! ## What a fold does to the screen -/

/-- What closes the stream a response belongs to. -/
def Inbound.closes : Inbound → Bool
  | .reconnecting _ | .fatal _ => true
  | _ => false

/-- `finish` and `reset` close every open segment. -/
theorem Screen.finish {n₀ : SegmentIds} {s : Accumulator × SegmentIds} {us : List TranscriptUpdate}
    (h : Screen n₀ s us) :
    Screen n₀ ((s.1.finish s.2).acc.reset, (s.1.finish s.2).ids) (us ++ (s.1.finish s.2).out) := by
  have hids : (s.1.finish s.2).ids = s.2 := by rw [Accumulator.finish_eq h.aligned]
  refine ⟨rfl, ?_, rfl⟩
  rw [journal_append, hids]
  exact h.written.steps (Accumulator.finish_steps h.aligned s.2)

/-- What folding a message does to the accumulator, by the kind of message. -/
inductive Folded (b : SonioxBackend) (ids : SegmentIds) :
    Inbound → SonioxBackend → SegmentIds → List TranscriptUpdate → Prop
  | response {r : SonioxResponse} {w : Work} {b' : SonioxBackend} :
      Accumulator.Ingested b.accumulator r ids w → b'.accumulator = w.acc →
      b'.client = b.client → b'.pendingFatal = b.pendingFatal → Folded b ids (.response r) b' w.ids w.out
  | finished : Folded b ids .finished b ids []
  | closes {m : Inbound} {b' : SonioxBackend} : m.closes = true →
      b'.accumulator = .new → b'.client = b.client →
      (b'.pendingFatal = b.pendingFatal ∨ ∃ message, m = .fatal message) →
      Folded b ids m b' (b.accumulator.finish ids).ids (b.accumulator.finish ids).out

/-- Folding a message never panics. -/
theorem foldMessage_spec {n₀ : SegmentIds} {b : SonioxBackend} {ids : SegmentIds}
    {us : List TranscriptUpdate} (h : Screen n₀ (b.accumulator, ids) us) (now : Instant)
    (m : Inbound) :
    ∃ b' ids' vs, SonioxBackend.foldMessage (b, ids) (now, m) = some ((b', ids'), vs) ∧
      Folded b ids m b' ids' vs ∧ Screen n₀ (b'.accumulator, ids') (us ++ vs) := by
  cases m with
  | response r =>
      obtain ⟨w, hw, hs⟩ := h.ingest_spec r
      by_cases hsp : r.tokens.any Accumulator.isSpeechToken = true
      · refine ⟨{ b with lastSpeechAt := some now, accumulator := w.acc }, w.ids, w.out, ?_,
          .response hw rfl rfl rfl, hs⟩
        simp only [SonioxBackend.foldMessage, if_pos hsp, hw.eq]
        rfl
      · refine ⟨{ b with accumulator := w.acc }, w.ids, w.out, ?_, .response hw rfl rfl rfl, hs⟩
        simp only [SonioxBackend.foldMessage, if_neg hsp, hw.eq]
        rfl
  | reconnecting reason =>
      exact ⟨_, _, _, rfl, .closes rfl rfl rfl (.inl rfl), h.finish⟩
  | finished => exact ⟨b, ids, [], rfl, .finished, by simpa using h⟩
  | fatal message =>
      exact ⟨_, _, _, rfl, .closes rfl rfl rfl (.inr ⟨message, rfl⟩), h.finish⟩

end Larmindon.Soniox
