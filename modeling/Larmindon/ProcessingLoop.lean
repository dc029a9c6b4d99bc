/-
# `ProcessingLoop` — the thread of a session

A session's thread first sets up what it works with, then iterates until it is
told to stop or a backend fails for good.  It hands back the models it loaded,
so that the next session can reuse them.

    spawned     with the models cached, where they are compatible
    looping     one iteration after another
    finished    returned, with the models or without (a failure to set up)
    panicked

What of the loop lies outside of the repository is a `Platform`: the networks,
the resamplers, the home directory.  A model that is loaded keeps the key it was
loaded for beside its state; nothing reads it but the theorems.

A Soniox backend is seen through the results of its calls, which are inputs
here; its own model is in `Soniox.Backend`.
-/
import Larmindon.Capture
import Larmindon.Nemotron.Backend
import Larmindon.Pipeline
import Larmindon.Text

namespace Larmindon

open Nemotron (NemotronBackend)

variable {F St σ ρ : Type}

/-! ## Settings -/

/-- The settings that the engine and the loop read. -/
structure SessionSettings (F : Type) extends Settings, PipelineSettings F where
  asrProvider : String
  modelPath : String
  intraThreads : ℕ
  interThreads : ℕ
  diagnosticsEnabled : Bool
  sonioxApiKey : String

/-- `PathBuf::join`. -/
def joinPath (base path : String) : String :=
  if path.toList.head? = some '/' then path
  else if base.toList.getLast?.all (· = '/') then base ++ path
  else base ++ "/" ++ path

/-- `expand_tilde`, for the home directory of the environment. -/
def expandTilde (home : Option String) (path : String) : String :=
  match path.toList, home with
  | '~' :: '/' :: stripped, some home => joinPath home (String.ofList stripped)
  | _, _ => path

/-- What a model is loaded for. -/
structure ModelKey where
  asrProvider : String
  /-- Expanded. -/
  modelPath : String
  intraThreads : ℕ
  interThreads : ℕ
  deriving DecidableEq, Repr

def SessionSettings.modelKey (home : Option String) (s : SessionSettings F) : ModelKey where
  asrProvider := s.asrProvider
  modelPath := expandTilde home s.modelPath
  intraThreads := s.intraThreads
  interThreads := s.interThreads

/-! ## Backends -/

/-- A model with the key it was loaded for. -/
def Nemotron.Model.keyed (M : Nemotron.Model F σ) : Nemotron.Model F (ModelKey × σ) where
  transcribeChunk := fun m chunk =>
    let r := M.transcribeChunk m.2 chunk
    (r.1, m.1, r.2)
  reset := fun m => (m.1, M.reset m.2)

/-- What lies outside of the repository. -/
structure Platform (F St σ ρ : Type) where
  home : Option String
  network : Network F St
  model : Nemotron.Model F σ
  /-- A model as it is when it was just loaded. -/
  loaded : ModelKey → σ
  /-- The resampler from a rate to 16 kHz, and one just made. -/
  resampler : ℕ → Resampler F ρ
  newResampler : ℕ → ρ

/-- The backends of `create_backend`. -/
inductive Backend (F σ : Type) where
  | nemotron (b : NemotronBackend F (ModelKey × σ))
  | soniox

namespace Backend

def id : Backend F σ → String
  | .nemotron _ => "nemotron"
  | .soniox => "soniox"

def isCacheable : Backend F σ → Bool
  | .nemotron _ => true
  | .soniox => false

/-- Of the capabilities, what the frame loop reads. -/
def audioGating : Backend F σ → AudioGating
  | .nemotron _ => .vadGated
  | .soniox => .continuous

def updateSettings (s : Settings) : Backend F σ → Backend F σ
  | .nemotron b => .nemotron (b.updateSettings s)
  | .soniox => .soniox

/-- The hot reload, where settings were pushed. -/
def reload (b : Backend F σ) : Option Settings → Backend F σ
  | none => b
  | some s => b.updateSettings s

/-- The updates among the events of a pass. -/
def updates (evs : List (Nemotron.Event F)) : List TranscriptUpdate :=
  evs.filterMap fun
    | .update u => some u
    | .transcribe _ _ _ | .reset _ => none

/-- A call of the loop, and its result where it has one; `answer` is what a Soniox backend answers.
There is no step where a pass over the buffer does not end. -/
def serve [Zero F] (M : Nemotron.Model F σ) (vadState : VadState)
    (answer : Except AsrError (List TranscriptUpdate)) :
    Mealy.Step (Backend F σ × SegmentIds) (Request F) (Except AsrError (List TranscriptUpdate))
  | (.nemotron b, ids), .call c => some ((.nemotron (b.hear c), ids), [])
  | (.nemotron b, ids), .poll => some ((.nemotron b, ids), [.ok []])
  | (.nemotron b, ids), .process =>
      match b.process M.keyed vadState ids with
      | none => none
      | some (.error e) => some ((.nemotron b, ids), [.error e])
      | some (.ok (b, ids, evs)) => some ((.nemotron b, ids), [.ok (updates evs)])
  | (.soniox, ids), .call _ => some ((.soniox, ids), [])
  | (.soniox, ids), .poll => some ((.soniox, ids), [answer])
  | (.soniox, ids), .process => some ((.soniox, ids), [answer])

end Backend

/-- `create_backend`: the cached one, when it is the same cacheable provider. -/
def createBackend (s : SessionSettings F) (cached : Option (Backend F σ)) :
    Except AsrError (Backend F σ) :=
  let reusable := cached.filter fun b => b.isCacheable && b.id == s.asrProvider
  if s.asrProvider = "nemotron" then .ok (reusable.getD (.nemotron .new))
  else if s.asrProvider = "soniox" then .ok .soniox
  else .error (.fatal ("Unknown transcription provider '" ++ s.asrProvider ++ "'"))

/-! ## The thread -/

inductive Phase (F St σ ρ : Type) where
  | spawned (cachedBackend : Option (Backend F σ)) (cachedVad : Option (VadProcessor F St))
  | looping (backend : Backend F σ) (pipeline : Pipeline F ρ (VadProcessor F St))
  | finished (models : Option (Backend F σ × VadProcessor F St))
  | panicked

/-- The thread with its ends of what it shares with the engine. -/
structure Thread (F St σ ρ : Type) where
  settings : SessionSettings F
  inputRate : ℕ
  stopFlag : Bool
  settingsRx : List (SessionSettings F)
  phase : Phase F St σ ρ

/-- What is told to the UI; and when settings are taken, or a command fails. -/
inductive EngineEvent (F : Type) where
  | onTranscriptUpdate (u : TranscriptUpdate)
  | onError (message : String)
  | onStatus (message : String)
  | onSourceSwitched (deviceId : String)
  | devices (reply : List AudioDevice)
  /-- The settings a session starts with, then each that are pushed to it. -/
  | took (s : SessionSettings F)
  | failed

/-- What setting up a session meets outside: whether the diagnostics open, whether the models load
and whether there is a resampler for the rate; and whether the socket thread of a Soniox backend is
spawned. -/
structure SetUp where
  diag : Except String Unit
  loadVad : Except String Unit
  newResampler : Except String Unit
  loadModel : Except String Unit
  spawnSocket : Except AsrError Unit

/-- What an iteration reads: the samples drained, and what a Soniox backend answers. -/
structure Iteration (F : Type) where
  drained : List F
  answer : Except AsrError (List TranscriptUpdate)

/-- `to_string`. -/
def AsrError.message : AsrError → String
  | .fatal m | .transient m => m

/-- `SonioxClient::connect`: without a key nothing is spawned. -/
def connect (apiKey : String) (spawn : Except AsrError Unit) : Except AsrError Unit :=
  if isBlank apiKey then .error (.fatal "No Soniox API key is configured. Add one in Preferences.")
  else spawn

/-- `begin_session` on a backend. -/
def Backend.beginSession (P : Platform F St σ ρ) (i : SetUp) (s : SessionSettings F) :
    Backend F σ → Except AsrError (Backend F σ)
  | .nemotron b =>
      let key := s.modelKey P.home
      match b.beginSession P.model.keyed (i.loadModel.map fun _ => (key, P.loaded key)) s.toSettings with
      | .ok (b, _) => .ok (.nemotron b)
      | .error e => .error e
  | .soniox => (connect s.sonioxApiKey i.spawnSocket).map fun _ => .soniox

/-- Where the service is the backend, a session that began has a key. -/
theorem Backend.connected_of_beginSession {P : Platform F St σ ρ} {s : SessionSettings F} {i : SetUp}
    {b : Backend F σ} (h : Backend.beginSession P i s .soniox = .ok b) :
    isBlank s.sonioxApiKey = false ∧ b = .soniox := by
  rw [Backend.beginSession, connect] at h
  cases hkey : isBlank s.sonioxApiKey with
  | true =>
      rw [hkey] at h
      cases h
  | false =>
      rw [hkey] at h
      cases hspawn : i.spawnSocket with
      | error e =>
          rw [hspawn] at h
          cases h
      | ok u =>
          rw [hspawn] at h
          cases h
          exact ⟨rfl, rfl⟩

/-- The VAD of a session: the cached one, reset, or one just loaded. -/
def setUpVad [Zero F] (N : Network F St) (s : SessionSettings F) (loadVad : Except String Unit) :
    Option (VadProcessor F St) → Except String (VadProcessor F St)
  | some v => .ok (v.reset N)
  | none => loadVad.map fun _ => .new N s.vadThresholdStart s.vadThresholdEnd 500 250 500

/-- `resampler`, which is made where the rate is not 16 kHz. -/
def setUpResampler (P : Platform F St σ ρ) (inputRate : ℕ) (newResampler : Except String Unit) :
    Except String (Option ρ) :=
  if inputRate = 16000 then .ok none else newResampler.map fun _ => some (P.newResampler inputRate)

variable [F32 F]

/-- `processing_loop` up to its loop. -/
def setUp (P : Platform F St σ ρ) (s : SessionSettings F) (inputRate : ℕ)
    (cachedBackend : Option (Backend F σ)) (cachedVad : Option (VadProcessor F St)) (i : SetUp) :
    Except String (Backend F σ × Pipeline F ρ (VadProcessor F St)) := do
  i.diag
  let backend ← (createBackend s cachedBackend).mapError AsrError.message
  let vad ← setUpVad P.network s i.loadVad cachedVad
  let resampler ← setUpResampler P inputRate i.newResampler
  let backend ← (backend.beginSession P i s).mapError AsrError.message
  return (backend, .new resampler vad s.toPipelineSettings)

/-- Taking a `do` block apart. -/
theorem bind_ok {ε α β : Type} {x : Except ε α} {f : α → Except ε β} {b : β}
    (h : (x >>= f) = .ok b) : ∃ a, x = .ok a ∧ f a = .ok b := by
  cases x with
  | error e => cases h
  | ok a => exact ⟨a, rfl, h⟩

theorem mapError_ok {ε δ α : Type} {x : Except ε α} {f : ε → δ} {a : α}
    (h : x.mapError f = .ok a) : x = .ok a := by
  cases x with
  | error e => cases h
  | ok a' =>
      cases h
      rfl

/-- What a session is set up from, where it is. -/
theorem setUp_ok {P : Platform F St σ ρ} {s : SessionSettings F} {inputRate : ℕ}
    {cachedBackend : Option (Backend F σ)} {cachedVad : Option (VadProcessor F St)} {i : SetUp}
    {backend : Backend F σ} {pipeline : Pipeline F ρ (VadProcessor F St)}
    (h : setUp P s inputRate cachedBackend cachedVad i = .ok (backend, pipeline)) :
    ∃ created vad resampler, createBackend s cachedBackend = .ok created ∧
      setUpVad P.network s i.loadVad cachedVad = .ok vad ∧
      created.beginSession P i s = .ok backend ∧
      pipeline = .new resampler vad s.toPipelineSettings := by
  obtain ⟨-, -, h⟩ := bind_ok h
  obtain ⟨created, hcreated, h⟩ := bind_ok h
  obtain ⟨vad, hvad, h⟩ := bind_ok h
  obtain ⟨resampler, -, h⟩ := bind_ok h
  obtain ⟨begun, hbegun, h⟩ := bind_ok h
  cases h
  exact ⟨created, vad, resampler, mapError_ok hcreated, hvad, mapError_ok hbegun, rfl⟩

/-- What the loop tells the UI of a result. -/
def report : Except AsrError (List TranscriptUpdate) → List (EngineEvent F)
  | .ok us => us.map .onTranscriptUpdate
  | .error (.transient message) => [.onStatus message]
  | .error (.fatal message) => [.onError ("Transcription error: " ++ message)]

/-- A result that ends the session. -/
def endsSession : Except AsrError (List TranscriptUpdate) → Bool
  | .ok _ => false
  | .error e => e.isFatal

/-- What a thread does next. -/
inductive ThreadMove (F : Type) where
  | begin (i : SetUp)
  | iterate (i : Iteration F)
  | panic

namespace Thread

/-- The thread up to its loop. -/
def begin (P : Platform F St σ ρ) (t : Thread F St σ ρ) (ids : SegmentIds) (i : SetUp) :
    Option (Thread F St σ ρ × SegmentIds × List (EngineEvent F)) :=
  match t.phase with
  | .spawned cachedBackend cachedVad =>
      match setUp P t.settings t.inputRate cachedBackend cachedVad i with
      | .ok (backend, pipeline) =>
          some ({ t with phase := .looping backend pipeline }, ids, [.took t.settings])
      | .error e =>
          some ({ t with phase := .finished none }, ids, [.onError ("Transcription stopped: " ++ e)])
  | .looping _ _ | .finished _ | .panicked => none

/-- One turn of the loop. -/
def iterate (P : Platform F St σ ρ) (t : Thread F St σ ρ) (ids : SegmentIds) (i : Iteration F) :
    Option (Thread F St σ ρ × SegmentIds × List (EngineEvent F)) :=
  match t.phase with
  | .looping backend pipeline =>
      if t.stopFlag then
        -- what a session's end still gives is told, but not its failure
        let final := match i.answer with
          | .ok us => us
          | .error _ => []
        let us := match backend with
          | .nemotron _ => []
          | .soniox => final
        some ({ t with phase := .finished (some (backend, pipeline.vad)) }, ids, report (.ok us))
      else
        -- the settings pushed first, if there are any
        let taken := t.settingsRx.head?
        let backend := backend.reload (taken.map (·.toSettings))
        match pipeline.iterate (P.resampler t.inputRate) (VadProcessor.vad P.network)
            backend.audioGating ⟨taken.map (·.toPipelineSettings), i.drained⟩ with
        | none => none
        | some (pipeline, requests) =>
            match Mealy.run (Backend.serve P.model pipeline.vad.state i.answer) (backend, ids)
                requests with
            | none => none
            | some ((backend, ids), results) =>
                let phase := if results.any endsSession then
                    .finished (some (backend, pipeline.vad))
                  else .looping backend pipeline
                some ({ t with settingsRx := t.settingsRx.tail, phase }, ids,
                  taken.toList.map .took ++ results.flatMap report)
  | .spawned _ _ | .finished _ | .panicked => none

def panic (t : Thread F St σ ρ) (ids : SegmentIds) :
    Option (Thread F St σ ρ × SegmentIds × List (EngineEvent F)) :=
  match t.phase with
  | .spawned _ _ | .looping _ _ => some ({ t with phase := .panicked }, ids, [])
  | .finished _ | .panicked => none

def step (P : Platform F St σ ρ) (t : Thread F St σ ρ) (ids : SegmentIds) :
    ThreadMove F → Option (Thread F St σ ρ × SegmentIds × List (EngineEvent F))
  | .begin i => t.begin P ids i
  | .iterate i => t.iterate P ids i
  | .panic => t.panic ids

/-! ## What a thread can do -/

/-- A move of a thread, with what it comes from. -/
inductive Turn (P : Platform F St σ ρ) (t : Thread F St σ ρ) (ids : SegmentIds) :
    ThreadMove F → Thread F St σ ρ → SegmentIds → List (EngineEvent F) → Prop
  | begun {cachedBackend cachedVad backend pipeline i} (h : t.phase = .spawned cachedBackend cachedVad)
      (hs : setUp P t.settings t.inputRate cachedBackend cachedVad i = .ok (backend, pipeline)) :
      Turn P t ids (.begin i) { t with phase := .looping backend pipeline } ids [.took t.settings]
  | crashed {cachedBackend cachedVad i} (h : t.phase = .spawned cachedBackend cachedVad)
      (message : String) :
      Turn P t ids (.begin i) { t with phase := .finished none } ids [.onError message]
  | stopped {backend pipeline i} (h : t.phase = .looping backend pipeline) (hs : t.stopFlag = true)
      (us : List TranscriptUpdate) :
      Turn P t ids (.iterate i) { t with phase := .finished (some (backend, pipeline.vad)) } ids
        (report (.ok us))
  | iterated {backend pipeline pipeline' requests backend' ids' results i phase}
      (h : t.phase = .looping backend pipeline)
      (hp : pipeline.iterate (P.resampler t.inputRate) (VadProcessor.vad P.network)
        backend.audioGating ⟨t.settingsRx.head?.map (·.toPipelineSettings), i.drained⟩ =
          some (pipeline', requests))
      (hb : Mealy.run (Backend.serve P.model pipeline'.vad.state i.answer)
        (backend.reload (t.settingsRx.head?.map (·.toSettings)), ids) requests =
          some ((backend', ids'), results))
      (hphase : phase = .finished (some (backend', pipeline'.vad)) ∨
        phase = .looping backend' pipeline') :
      Turn P t ids (.iterate i) { t with settingsRx := t.settingsRx.tail, phase } ids'
        (t.settingsRx.head?.toList.map .took ++ results.flatMap report)
  | panicked (h : (∃ cachedBackend cachedVad, t.phase = .spawned cachedBackend cachedVad) ∨
      ∃ backend pipeline, t.phase = .looping backend pipeline) :
      Turn P t ids .panic { t with phase := .panicked } ids []

omit [F32 F] in
/-- The gating of a backend does not depend on its settings. -/
theorem audioGating_reload (b : Backend F σ) (s : Option Settings) :
    (b.reload s).audioGating = b.audioGating := by
  cases s with
  | none => rfl
  | some s => cases b <;> rfl

theorem turn_of_step {P : Platform F St σ ρ} {t t' : Thread F St σ ρ} {ids ids' : SegmentIds}
    {m : ThreadMove F} {evs : List (EngineEvent F)} (h : t.step P ids m = some (t', ids', evs)) :
    Turn P t ids m t' ids' evs := by
  cases m with
  | begin i =>
      simp only [step, begin] at h
      split at h
      case h_1 cachedBackend cachedVad hphase =>
        split at h
        case h_1 backend pipeline hs =>
          cases h
          exact .begun hphase hs
        case h_2 e hs =>
          cases h
          exact .crashed hphase _
      all_goals cases h
  | iterate i =>
      simp only [step, iterate] at h
      split at h
      case h_1 backend pipeline hphase =>
        split at h
        case isTrue hstop =>
          cases h
          exact .stopped hphase hstop _
        case isFalse hstop =>
          rw [audioGating_reload] at h
          split at h
          case h_1 => cases h
          case h_2 pipeline' requests hp =>
            split at h
            case h_1 => cases h
            case h_2 backend' ids₁ results hb =>
              cases h
              refine .iterated hphase hp hb ?_
              split
              · exact .inl rfl
              · exact .inr rfl
      all_goals cases h
  | panic =>
      simp only [step, panic] at h
      split at h
      case h_1 cachedBackend cachedVad hphase =>
        cases h
        exact .panicked (.inl ⟨_, _, hphase⟩)
      case h_2 backend pipeline hphase =>
        cases h
        exact .panicked (.inr ⟨_, _, hphase⟩)
      all_goals cases h

end Thread

end Larmindon
