/-
# `Nemotron.Backend` — the on-device backend

Audio is only buffered inside of the frame loop; `process`, once an iteration,
cuts the buffer into chunks and passes them to the model.  The model is not
part of the repository: `Model` is its interface, a state machine that
transcribes a chunk, or fails to, and can be reset.

Every call of the model and every update leaves an `Event`.  The decoder is
reset in four places, and `ResetCause` tells them apart:

    session       a session begins with a model that is already loaded
    punctuation   a chunk's text ends a sentence
    midSpeech     too many chunks in a row gave no text: the chunks kept are
                  replayed through the fresh decoder
    speechEnd     the last chunk of an utterance was transcribed

The loop of `process` runs on fuel; `process` gives it more than a chunk size
above zero can use up (`chunkLoop_play` in `Nemotron.Utterances`), so `none`
stands for the loop that does not end.
-/
import Larmindon.Asr
import Larmindon.Gating

namespace Larmindon

/-- The settings the backend reads. -/
structure Settings where
  chunkMs : ℕ
  punctuationReset : Bool
  emptyResetThreshold : ℕ
  deriving DecidableEq, Repr

/-- A chunk duration in samples at 16 kHz.  The product is a `usize`; without overflow checks it
wraps, as here. -/
def chunkMsToSamples (ms : ℕ) : ℕ := 16000 * ms % 2 ^ 64 / 1000

/-- Text that ends a sentence; an ellipsis does not, nor does a period behind a digit. -/
def endsWithSentencePunctuation (text : String) : Bool :=
  let trimmed := text.toList.rdropWhile isWhitespace
  match trimmed.getLast? with
  | some '?' | some '!' => true
  | some '.' =>
      if ['.', '.', '.'] <:+ trimmed then
        false
      else
        match (trimmed.dropLast.rdropWhile isWhitespace).getLast? with
        | some c => !isAsciiDigit c
        | none => true
  | _ => false

namespace Nemotron

variable {S σ : Type}

/-! ## The model, and what is seen of it -/

/-- The speech model: a chunk gives a text or an error, and either way the next state. -/
structure Model (S σ : Type) where
  transcribeChunk : σ → List S → Except String String × σ
  reset : σ → σ

/-- Whether a chunk comes from the buffer or from the replay buffer. -/
inductive ChunkSource where
  | live
  | replay
  deriving DecidableEq, Repr

inductive ResetCause (S : Type) where
  | session
  | punctuation
  | midSpeech (replayChunks : List (List S))
  | speechEnd
  deriving DecidableEq, Repr

/-- A call of the model, or an update handed out. -/
inductive Event (S : Type) where
  | transcribe (source : ChunkSource) (chunk : List S) (result : Except String String)
  | reset (cause : ResetCause S)
  | update (u : TranscriptUpdate)

/-! ## The replay buffer -/

/-- Recent chunks kept so they can be re-run through a freshly reset decoder. -/
structure ReplayBuffer (S : Type) where
  chunks : List (List S)
  maxChunks : ℕ
  deriving DecidableEq, Repr

namespace ReplayBuffer

def new (maxChunks : ℕ) : ReplayBuffer S := ⟨[], maxChunks⟩

/-- The loop of `truncate_to_capacity`: chunks leave at the front. -/
def popFront (maxChunks : ℕ) : List (List S) → List (List S)
  | [] => []
  | c :: cs => if maxChunks < (c :: cs).length then popFront maxChunks cs else c :: cs

def truncateToCapacity (rb : ReplayBuffer S) : ReplayBuffer S :=
  { rb with chunks := popFront rb.maxChunks rb.chunks }

def updateCapacity (rb : ReplayBuffer S) (maxChunks : ℕ) : ReplayBuffer S :=
  truncateToCapacity { rb with maxChunks }

def push (rb : ReplayBuffer S) (chunk : List S) : ReplayBuffer S :=
  if rb.maxChunks = 0 then
    rb
  else
    truncateToCapacity { rb with chunks := rb.chunks ++ [chunk] }

def clear (rb : ReplayBuffer S) : ReplayBuffer S := { rb with chunks := [] }

def snapshot (rb : ReplayBuffer S) : List (List S) := rb.chunks

end ReplayBuffer

/-! ## One chunk -/

/-- What the loop of `process` works on beside the buffer: the locals `self` is taken apart into. -/
structure Decoding (S σ : Type) where
  model : σ
  chunkNum : ℕ
  consecutiveEmpty : ℕ
  chunksSinceDecoderReset : ℕ
  replayBuffer : ReplayBuffer S
  ids : SegmentIds

/-- The settings `process` copies before its loop. -/
structure Tuning where
  chunkSize : ℕ
  punctuationResetEnabled : Bool
  emptyResetThreshold : ℕ
  deriving DecidableEq, Repr

namespace Decoding

variable (M : Model S σ)

/-- The four lines of each reset inside of `process`. -/
def reset (d : Decoding S σ) : Decoding S σ :=
  { d with
    model := M.reset d.model
    chunksSinceDecoderReset := 0
    consecutiveEmpty := 0
    replayBuffer := d.replayBuffer.clear }

/-- A text that is not empty becomes an update, already final. -/
def emit (d : Decoding S σ) (text : String) : Decoding S σ × List (Event S) :=
  if text.isEmpty then
    (d, [])
  else
    ({ d with ids := d.ids.next.2 }, [.update ⟨d.ids.next.1, true, text, none⟩])

/-- One turn of the replay loop. -/
def replayChunk (d : Decoding S σ) (chunk : List S) : Decoding S σ × List (Event S) :=
  let d := { d with chunksSinceDecoderReset := d.chunksSinceDecoderReset + 1 }
  match M.transcribeChunk d.model chunk with
  | (.ok text, model) =>
      let e := emit { d with model, chunkNum := d.chunkNum + 1 } text
      (e.1, .transcribe .replay chunk (.ok text) :: e.2)
  | (.error err, model) => ({ d with model }, [.transcribe .replay chunk (.error err)])

def replay (d : Decoding S σ) : List (List S) → Decoding S σ × List (Event S)
  | [] => (d, [])
  | chunk :: chunks =>
      let e := d.replayChunk M chunk
      let r := e.1.replay chunks
      (r.1, e.2 ++ r.2)

/-- The mid-speech reset: the chunks kept are replayed through the fresh decoder. -/
def midSpeechReset (d : Decoding S σ) : Decoding S σ × List (Event S) :=
  let replayChunks := d.replayBuffer.snapshot
  let r := (d.reset M).replay M replayChunks
  (r.1, .reset (.midSpeech replayChunks) :: r.2)

/-- The punctuation-based decoder reset. -/
def punctuationReset (t : Tuning) (d : Decoding S σ) (text : String) :
    Decoding S σ × List (Event S) :=
  if t.punctuationResetEnabled && !text.isEmpty && endsWithSentencePunctuation text then
    (d.reset M, [.reset .punctuation])
  else
    (d, [])

/-- The mid-speech reset heuristic. -/
def heuristic (t : Tuning) (vadIsSpeech : Bool) (d : Decoding S σ) :
    Decoding S σ × List (Event S) :=
  if t.emptyResetThreshold ≤ d.consecutiveEmpty ∧ vadIsSpeech = true then
    d.midSpeechReset M
  else
    (d, [])

/-- The `Ok` branch of a live chunk. -/
def transcribed (t : Tuning) (vadIsSpeech : Bool) (d : Decoding S σ) (text : String) :
    Decoding S σ × List (Event S) :=
  let d := { d with
    chunkNum := d.chunkNum + 1
    consecutiveEmpty := if text.isEmpty && vadIsSpeech then d.consecutiveEmpty + 1 else 0 }
  let p := d.punctuationReset M t text
  let e := p.1.emit text
  let h := e.1.heuristic M t vadIsSpeech
  (h.1, p.2 ++ e.2 ++ h.2)

/-- A live chunk: the body of the loop, up to the speech-end resets. -/
def liveChunk (t : Tuning) (vadIsSpeech : Bool) (d : Decoding S σ) (chunk : List S) :
    Decoding S σ × List (Event S) :=
  let d := { d with
    replayBuffer := if vadIsSpeech then d.replayBuffer.push chunk else d.replayBuffer
    chunksSinceDecoderReset := d.chunksSinceDecoderReset + 1 }
  match M.transcribeChunk d.model chunk with
  | (.ok text, model) =>
      let r := transcribed M t vadIsSpeech { d with model } text
      (r.1, .transcribe .live chunk (.ok text) :: r.2)
  | (.error err, model) => ({ d with model }, [.transcribe .live chunk (.error err)])

/-- The inner loop: the speech-end resets that are due, and those that are not. -/
def speechEndResets (asrConsumed : ℕ) (d : Decoding S σ) :
    List ℕ → Decoding S σ × List (Event S) × List ℕ
  | [] => (d, [], [])
  | resetAfterSamples :: pending =>
      if resetAfterSamples ≤ asrConsumed then
        let r := speechEndResets asrConsumed (d.reset M) pending
        (r.1, .reset .speechEnd :: r.2.1, r.2.2)
      else
        (d, [], resetAfterSamples :: pending)

end Decoding

/-! ## The chunk loop -/

/-- The loop of `process` over the buffer, from the samples consumed so far; `none` when the fuel
runs out. -/
def chunkLoop (M : Model S σ) (t : Tuning) (vadIsSpeech : Bool) (asrBuffer : List S) :
    ℕ → ℕ → List ℕ → Decoding S σ → Option (ℕ × List ℕ × Decoding S σ × List (Event S))
  | 0, _, _, _ => none
  | fuel + 1, asrConsumed, pending, d =>
      if t.chunkSize ≤ asrBuffer.length - asrConsumed then
        let chunk := (asrBuffer.drop asrConsumed).take t.chunkSize
        let asrConsumed := asrConsumed + t.chunkSize
        let c := d.liveChunk M t vadIsSpeech chunk
        let r := c.1.speechEndResets M asrConsumed pending
        match chunkLoop M t vadIsSpeech asrBuffer fuel asrConsumed r.2.2 r.1 with
        | none => none
        | some (asrConsumed, pending, d, evs) => some (asrConsumed, pending, d, c.2 ++ r.2.1 ++ evs)
      else
        some (asrConsumed, pending, d, [])

/-! ## The backend -/

/-- Of a pending speech-end reset only `reset_after_samples` is kept; the times go to diagnostics. -/
structure NemotronBackend (S σ : Type) where
  model : Option σ
  asrBuffer : List S
  chunkSize : ℕ
  chunkNum : ℕ
  consecutiveEmpty : ℕ
  chunksSinceDecoderReset : ℕ
  punctuationResetEnabled : Bool
  emptyResetThreshold : ℕ
  replayBuffer : ReplayBuffer S
  pendingSpeechEndResets : List ℕ

namespace NemotronBackend

def new : NemotronBackend S σ where
  model := none
  asrBuffer := []
  chunkSize := 0
  chunkNum := 0
  consecutiveEmpty := 0
  chunksSinceDecoderReset := 0
  punctuationResetEnabled := true
  emptyResetThreshold := 1
  replayBuffer := .new 0
  pendingSpeechEndResets := []

/-- The second half of `begin_session`, with the model at hand. -/
def started (b : NemotronBackend S σ) (settings : Settings) (model : σ) : NemotronBackend S σ :=
  { b with
    model := some model
    chunkSize := chunkMsToSamples settings.chunkMs
    punctuationResetEnabled := settings.punctuationReset
    emptyResetThreshold := settings.emptyResetThreshold
    replayBuffer := .new settings.emptyResetThreshold
    pendingSpeechEndResets := []
    asrBuffer := []
    chunkNum := 0
    consecutiveEmpty := 0
    chunksSinceDecoderReset := 0 }

/-- A model left from an earlier session is reset, otherwise one is loaded; `load` is what loading
gives. -/
def beginSession (M : Model S σ) (load : Except String σ) (settings : Settings)
    (b : NemotronBackend S σ) : Except AsrError (NemotronBackend S σ × List (Event S)) :=
  match b.model with
  | some model => .ok (b.started settings (M.reset model), [.reset .session])
  | none =>
      match load with
      | .ok model => .ok (b.started settings model, [])
      | .error e => .error (.fatal ("Failed to load Nemotron model: " ++ e))

def pushAudio (b : NemotronBackend S σ) (samples : List S) : NemotronBackend S σ :=
  { b with asrBuffer := b.asrBuffer ++ samples }

def markSpeechStart (b : NemotronBackend S σ) : NemotronBackend S σ :=
  { b with consecutiveEmpty := 0, replayBuffer := b.replayBuffer.clear }

/-- `pad_to_chunk_boundary`. -/
def padToChunkBoundary [Zero S] (buffer : List S) (chunkSize : ℕ) : List S :=
  if buffer.isEmpty ∨ chunkSize = 0 then
    buffer
  else
    let remainder := buffer.length % chunkSize
    if remainder = 0 then buffer else buffer ++ List.replicate (chunkSize - remainder) 0

def markSpeechEnd [Zero S] (b : NemotronBackend S σ) : NemotronBackend S σ :=
  let asrBuffer := padToChunkBoundary b.asrBuffer b.chunkSize
  { b with
    asrBuffer
    pendingSpeechEndResets := b.pendingSpeechEndResets ++ [asrBuffer.length] }

def updateSettings (b : NemotronBackend S σ) (settings : Settings) : NemotronBackend S σ :=
  { b with
    punctuationResetEnabled := settings.punctuationReset
    emptyResetThreshold := settings.emptyResetThreshold
    replayBuffer := b.replayBuffer.updateCapacity settings.emptyResetThreshold }

/-- The calls the frame loop makes. -/
def hear [Zero S] (b : NemotronBackend S σ) : BackendCall S → NemotronBackend S σ
  | .markSpeechStart => b.markSpeechStart
  | .pushAudio samples => b.pushAudio samples
  | .markSpeechEnd => b.markSpeechEnd

def tuning (b : NemotronBackend S σ) : Tuning where
  chunkSize := b.chunkSize
  punctuationResetEnabled := b.punctuationResetEnabled
  emptyResetThreshold := b.emptyResetThreshold

/-- The locals the loop works on. -/
def decoding (b : NemotronBackend S σ) (model : σ) (ids : SegmentIds) : Decoding S σ where
  model := model
  chunkNum := b.chunkNum
  consecutiveEmpty := b.consecutiveEmpty
  chunksSinceDecoderReset := b.chunksSinceDecoderReset
  replayBuffer := b.replayBuffer
  ids := ids

/-- The backend as the loop leaves it, with what it consumed drained. -/
def drained (b : NemotronBackend S σ) (asrConsumed : ℕ) (pending : List ℕ) (d : Decoding S σ) :
    NemotronBackend S σ :=
  { b with
    model := some d.model
    asrBuffer := b.asrBuffer.drop asrConsumed
    chunkNum := d.chunkNum
    consecutiveEmpty := d.consecutiveEmpty
    chunksSinceDecoderReset := d.chunksSinceDecoderReset
    replayBuffer := d.replayBuffer
    pendingSpeechEndResets := pending }

/-- One pass over the buffer.  The updates returned are those among the events; `none` where the
loop does not end. -/
def process (M : Model S σ) (vadState : VadState) (b : NemotronBackend S σ) (ids : SegmentIds) :
    Option (Except AsrError (NemotronBackend S σ × SegmentIds × List (Event S))) :=
  match b.model with
  | none => some (.error (.fatal "Nemotron model not loaded"))
  | some model =>
      match chunkLoop M b.tuning (vadState = .speech) b.asrBuffer (b.asrBuffer.length + 1) 0
          b.pendingSpeechEndResets (b.decoding model ids) with
      | none => none
      | some (asrConsumed, pending, d, evs) =>
          some (.ok (b.drained asrConsumed pending d, d.ids, evs))

end NemotronBackend

/-! ## Iterations of the engine's loop -/

/-- One iteration: the frames are decided on and routed, then one pass with the VAD state sampled
after them.  There is no step where the pass does not end, or fails. -/
def iteration [Zero S] (M : Model S σ) :
    Mealy.Step (NemotronBackend S σ × SegmentIds) (List (VadDecision S × List S) × VadState)
      (Event S) := fun s i =>
  match ((AudioGating.vadGated.calls i.1).foldl .hear s.1).process M i.2 s.2 with
  | some (.ok (b, ids, evs)) => some ((b, ids), evs)
  | some (.error _) | none => none

end Nemotron

end Larmindon
