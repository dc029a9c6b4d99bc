/-
# `AudioEngine` — sessions, one after another

The engine takes commands one at a time.  Inside of a command it passes through
points where another thread can see what it has done so far: the session's
thread, which it joins, and the watcher, which reads the session info.  `Doing`
is where it stands; it takes the next command when it is `idle`.

    Start        joining → starting → spawning → idle
    Stop         joining → idle
    Reconnect    switching → idle

A command that fails is idle again at once.  The handles it holds (two flags, the
buffer, the sending end of the settings channel) are modelled as being there or
not; what is in the flag and in the channel of a thread is with the thread, and
the handle to join a thread is the thread.
-/
import Larmindon.Capture
import Larmindon.ProcessingLoop

namespace Larmindon

variable {F St σ ρ : Type}

/-- That something shared with another thread is held. -/
structure Handle where
  deriving DecidableEq, Repr

/-- A stream of a capture backend, by the device it was started on. -/
structure AudioStream where
  deviceId : String
  sampleRate : ℕ
  deriving DecidableEq, Repr

structure AudioEngine (F St σ ρ : Type) where
  activeStream : Option AudioStream
  processingThread : Option (Thread F St σ ρ)
  stopFlag : Option Handle
  captureStopFlag : Option Handle
  activeBuffer : Option Handle
  activeSessionInfo : ActiveSessionInfo
  settingsTx : Option Handle
  cachedBackend : Option (Backend F σ)
  cachedBackendId : Option String
  cachedVad : Option (VadProcessor F St)
  cachedModelPath : Option String
  cachedModelConfig : Option (ℕ × ℕ)
  diagEnabled : Bool

inductive Command (F : Type) where
  | listDevices
  | start (deviceId : Option String) (settings : SessionSettings F)
  | stop
  | reconnect (deviceId : String)
  | updateSettings (settings : SessionSettings F)

/-- Where the engine stands in a command. -/
inductive Doing (F : Type) where
  | idle
  /-- In `stop_active_session`, in front of the join; for a `Start`, with what is to be started. -/
  | joining (next : Option (Option String × SessionSettings F))
  /-- In `start_session`, with no capture yet. -/
  | starting (deviceId : Option String) (settings : SessionSettings F)
  /-- In `start_session`, with the capture started. -/
  | spawning (settings : SessionSettings F) (info : ActiveSessionInfo) (stream : AudioStream)
  /-- In `reconnect_stream`, with the new capture started. -/
  | switching (stream : AudioStream)

/-- Behind `stop_active_session`. -/
def Doing.behind : Option (Option String × SessionSettings F) → Doing F
  | none => .idle
  | some (deviceId, settings) => .starting deviceId settings

namespace AudioEngine

def new (diagEnabled : Bool) : AudioEngine F St σ ρ where
  activeStream := none
  processingThread := none
  stopFlag := none
  captureStopFlag := none
  activeBuffer := none
  activeSessionInfo := {}
  settingsTx := none
  cachedBackend := none
  cachedBackendId := none
  cachedVad := none
  cachedModelPath := none
  cachedModelConfig := none
  diagEnabled := diagEnabled

/-! ## `stop_active_session` -/

/-- Up to the join: the flags are set and the stream is stopped. -/
def signalStop (e : AudioEngine F St σ ρ) : AudioEngine F St σ ρ :=
  { e with
    processingThread := match e.stopFlag with
      | some _ => e.processingThread.map fun t => { t with stopFlag := true }
      | none => e.processingThread
    stopFlag := none
    captureStopFlag := none
    settingsTx := none
    activeStream := none }

/-- What is kept of a thread that was joined; `none` while it runs. -/
def keep (e : AudioEngine F St σ ρ) (t : Thread F St σ ρ) :
    Option (AudioEngine F St σ ρ × List (EngineEvent F)) :=
  match t.phase with
  | .spawned _ _ | .looping _ _ => none
  | .finished (some (backend, vad)) =>
      if backend.isCacheable then
        some ({ e with cachedBackend := some backend, cachedVad := some vad }, [])
      else
        some ({ e with cachedBackendId := none, cachedVad := some vad }, [])
  | .finished none => some ({ e with cachedBackendId := none }, [])
  | .panicked =>
      some ({ e with cachedBackendId := none }, [.onError "Transcription thread crashed."])

/-- Behind the join. -/
def release (e : AudioEngine F St σ ρ) : AudioEngine F St σ ρ :=
  { e with processingThread := none, activeBuffer := none, activeSessionInfo := {} }

/-- From the join on. -/
def join (e : AudioEngine F St σ ρ) : Option (AudioEngine F St σ ρ × List (EngineEvent F)) :=
  match e.processingThread with
  | some t => (e.keep t).map fun r => (r.1.release, r.2)
  | none => some (e.release, [])

/-! ## `start_session` -/

/-- The device named, or the default one. -/
def selectDevice (deviceId : Option String) (a : CaptureAnswers) : Except String String :=
  match deviceId with
  | some id => .ok id
  | none =>
      match a.select with
      | .error e => .error e
      | .ok devices =>
          match selectDefaultDevice devices with
          | some id => .ok id
          | none => .error "No device available for capture"

/-- Up to the capture, which every error of `start_session` comes before. -/
def openCapture (deviceId : Option String) (a : CaptureAnswers) :
    Except String (ActiveSessionInfo × AudioStream) :=
  match selectDevice deviceId a with
  | .error e => .error e
  | .ok id =>
      match a.start with
      | .error e => .error e
      | .ok metadata => .ok (.on id a.enumerate, ⟨id, metadata.sampleRate⟩)

/-- `cached_compatible`. -/
def cachedCompatible (home : Option String) (e : AudioEngine F St σ ρ) (s : SessionSettings F) :
    Bool :=
  e.cachedModelPath = some (expandTilde home s.modelPath) &&
    e.cachedModelConfig = some (s.intraThreads, s.interThreads) &&
    e.cachedBackendId = some s.asrProvider

/-- From the capture on. -/
def spawnSession (home : Option String) (e : AudioEngine F St σ ρ) (s : SessionSettings F)
    (info : ActiveSessionInfo) (stream : AudioStream) : AudioEngine F St σ ρ :=
  let compatible := e.cachedCompatible home s
  { activeStream := some stream
    processingThread := some
      { settings := s
        inputRate := stream.sampleRate
        stopFlag := false
        settingsRx := []
        phase := .spawned (if compatible then e.cachedBackend else none)
          (if compatible then e.cachedVad else none) }
    stopFlag := some {}
    captureStopFlag := some {}
    activeBuffer := some {}
    activeSessionInfo := info
    settingsTx := some {}
    cachedBackend := none
    cachedBackendId := some s.asrProvider
    cachedVad := none
    cachedModelPath := some (expandTilde home s.modelPath)
    cachedModelConfig := some (s.intraThreads, s.interThreads)
    diagEnabled := s.diagnosticsEnabled }

/-! ## `reconnect_stream` and the hot reload -/

/-- Up to the new capture: the old one is stopped. -/
def dropCapture (e : AudioEngine F St σ ρ) : AudioEngine F St σ ρ :=
  { e with activeStream := none, captureStopFlag := none }

/-- From the new capture on. -/
def switchSource (e : AudioEngine F St σ ρ) (stream : AudioStream) (a : CaptureAnswers) :
    AudioEngine F St σ ρ :=
  { e with
    activeStream := some stream
    captureStopFlag := some {}
    activeSessionInfo := .on stream.deviceId a.enumerate }

/-- Settings are sent to the thread, where there is a channel. -/
def updateSettings (e : AudioEngine F St σ ρ) (s : SessionSettings F) : AudioEngine F St σ ρ :=
  { e with
    diagEnabled := s.diagnosticsEnabled
    processingThread := match e.settingsTx with
      | some _ => e.processingThread.map fun t => { t with settingsRx := t.settingsRx ++ [s] }
      | none => e.processingThread }

end AudioEngine

namespace AudioEngine

/-- The caches are as they were, and so is the thread but for its ends of flag and channel. -/
structure Untouched (e e' : AudioEngine F St σ ρ) : Prop where
  cachedBackend : e'.cachedBackend = e.cachedBackend
  cachedBackendId : e'.cachedBackendId = e.cachedBackendId
  cachedVad : e'.cachedVad = e.cachedVad
  cachedModelPath : e'.cachedModelPath = e.cachedModelPath
  cachedModelConfig : e'.cachedModelConfig = e.cachedModelConfig
  thread : ∀ t', e'.processingThread = some t' → ∃ t, e.processingThread = some t ∧
    t'.settings = t.settings ∧ t'.phase = t.phase
  noThread : e.processingThread = none → e'.processingThread = none

theorem Untouched.refl (e : AudioEngine F St σ ρ) : e.Untouched e :=
  ⟨rfl, rfl, rfl, rfl, rfl, fun t ht => ⟨t, ht, rfl, rfl⟩, id⟩

theorem untouched_signalStop (e : AudioEngine F St σ ρ) : e.Untouched e.signalStop := by
  refine ⟨rfl, rfl, rfl, rfl, rfl, ?_, ?_⟩
  · intro t' ht'
    rw [signalStop] at ht'
    cases hflag : e.stopFlag with
    | none =>
        rw [hflag] at ht'
        exact ⟨t', ht', rfl, rfl⟩
    | some flag =>
        rw [hflag] at ht'
        obtain ⟨t, ht, rfl⟩ := Option.map_eq_some_iff.mp ht'
        exact ⟨t, ht, rfl, rfl⟩
  · intro hnone
    rw [signalStop, hnone]
    cases e.stopFlag <;> rfl

theorem untouched_updateSettings (e : AudioEngine F St σ ρ) (s : SessionSettings F) :
    e.Untouched (e.updateSettings s) := by
  refine ⟨rfl, rfl, rfl, rfl, rfl, ?_, ?_⟩
  · intro t' ht'
    rw [updateSettings] at ht'
    cases htx : e.settingsTx with
    | none =>
        rw [htx] at ht'
        exact ⟨t', ht', rfl, rfl⟩
    | some tx =>
        rw [htx] at ht'
        obtain ⟨t, ht, rfl⟩ := Option.map_eq_some_iff.mp ht'
        exact ⟨t, ht, rfl, rfl⟩
  · intro hnone
    rw [updateSettings, hnone]
    cases e.settingsTx <;> rfl

theorem untouched_dropCapture (e : AudioEngine F St σ ρ) : e.Untouched e.dropCapture :=
  ⟨rfl, rfl, rfl, rfl, rfl, fun t ht => ⟨t, ht, rfl, rfl⟩, id⟩

theorem untouched_switchSource (e : AudioEngine F St σ ρ) (stream : AudioStream)
    (a : CaptureAnswers) : e.Untouched (e.switchSource stream a) :=
  ⟨rfl, rfl, rfl, rfl, rfl, fun t ht => ⟨t, ht, rfl, rfl⟩, id⟩

end AudioEngine

/-! ## What a join does -/

namespace AudioEngine

/-- The engine behind a join, and what it tells, by what the thread has come to. -/
inductive Joined (e : AudioEngine F St σ ρ) : AudioEngine F St σ ρ → List (EngineEvent F) → Prop
  | alone (h : e.processingThread = none) : Joined e e.release []
  | cached {t backend vad} (ht : e.processingThread = some t)
      (h : t.phase = .finished (some (backend, vad))) (hc : backend.isCacheable = true) :
      Joined e { e.release with cachedBackend := some backend, cachedVad := some vad } []
  | notCacheable {t backend vad} (ht : e.processingThread = some t)
      (h : t.phase = .finished (some (backend, vad))) :
      Joined e { e.release with cachedBackendId := none, cachedVad := some vad } []
  | gaveUp {t} (ht : e.processingThread = some t) (h : t.phase = .finished none) :
      Joined e { e.release with cachedBackendId := none } []
  | panicked {t} (ht : e.processingThread = some t) (message : String) :
      Joined e { e.release with cachedBackendId := none } [.onError message]

theorem joined_of_join {e e' : AudioEngine F St σ ρ} {evs : List (EngineEvent F)}
    (h : e.join = some (e', evs)) : e.Joined e' evs := by
  rw [join] at h
  split at h
  case h_2 hnone =>
    cases h
    exact .alone hnone
  case h_1 t ht =>
    obtain ⟨⟨e₁, evs₁⟩, hk, heq⟩ := Option.map_eq_some_iff.mp h
    cases heq
    rw [keep] at hk
    split at hk
    case h_3 backend vad hfinished =>
      split at hk
      case isTrue hcacheable =>
        cases hk
        exact .cached ht hfinished hcacheable
      case isFalse =>
        cases hk
        exact .notCacheable ht hfinished
    case h_4 hfinished =>
      cases hk
      exact .gaveUp ht hfinished
    case h_5 =>
      cases hk
      exact .panicked ht _
    all_goals cases hk

end AudioEngine

/-! ## The engine and its thread -/

/-- The engine where it stands; `ids` is shared by all sessions. -/
structure World (F St σ ρ : Type) where
  engine : AudioEngine F St σ ρ
  doing : Doing F
  ids : SegmentIds

inductive Move (F : Type) where
  /-- The next command, with what the capture backend answers. -/
  | receive (c : Command F) (a : CaptureAnswers)
  | join
  | openCapture (a : CaptureAnswers)
  | spawn
  | switchSource (a : CaptureAnswers)
  | thread (m : ThreadMove F)

namespace World

/-- The engine as it is made. -/
def new (diagEnabled : Bool) : World F St σ ρ where
  engine := .new diagEnabled
  doing := .idle
  ids := .new

/-- A command, up to the first point where it can be seen. -/
def receive (w : World F St σ ρ) (a : CaptureAnswers) :
    Command F → World F St σ ρ × List (EngineEvent F)
  | .listDevices =>
      let devices := match a.enumerate with
        | .ok devices => sortDevicesByPriority devices
        | .error _ => []
      (w, [.devices devices])
  | .start deviceId settings =>
      ({ w with engine := w.engine.signalStop, doing := .joining (some (deviceId, settings)) }, [])
  | .stop => ({ w with engine := w.engine.signalStop, doing := .joining none }, [])
  | .reconnect deviceId =>
      match w.engine.activeBuffer with
      | none => (w, [])
      | some _ =>
          match a.start with
          | .ok metadata =>
              ({ w with
                engine := w.engine.dropCapture, doing := .switching ⟨deviceId, metadata.sampleRate⟩ },
                [])
          | .error e =>
              ({ w with engine := w.engine.dropCapture }, [.onError ("Reconnect failed: " ++ e), .failed])
  | .updateSettings settings => ({ w with engine := w.engine.updateSettings settings }, [])

/-- A command alone does not touch the caches, nor what the thread is at. -/
theorem untouched_receive (w : World F St σ ρ) (c : Command F) (a : CaptureAnswers) :
    w.engine.Untouched (w.receive a c).1.engine := by
  cases c with
  | listDevices => exact .refl w.engine
  | start deviceId settings => exact w.engine.untouched_signalStop
  | stop => exact w.engine.untouched_signalStop
  | updateSettings settings => exact w.engine.untouched_updateSettings settings
  | reconnect deviceId =>
      rw [receive]
      split
      · exact .refl w.engine
      · split
        · exact w.engine.untouched_dropCapture
        · exact w.engine.untouched_dropCapture

variable [F32 F]

def step (P : Platform F St σ ρ) : Mealy.Step (World F St σ ρ) (Move F) (EngineEvent F) :=
  fun w m =>
    match m, w.doing with
    | .receive c a, .idle => some (w.receive a c)
    | .join, .joining next =>
        w.engine.join.map fun (engine, evs) => ({ w with engine, doing := .behind next }, evs)
    | .openCapture a, .starting deviceId settings =>
        match AudioEngine.openCapture deviceId a with
        | .ok (info, stream) => some ({ w with doing := .spawning settings info stream }, [])
        | .error e => some ({ w with doing := .idle }, [.onError ("Error: " ++ e), .failed])
    | .spawn, .spawning settings info stream =>
        some ({ w with engine := w.engine.spawnSession P.home settings info stream, doing := .idle }, [])
    | .switchSource a, .switching stream =>
        some ({ w with engine := w.engine.switchSource stream a, doing := .idle },
          [.onSourceSwitched stream.deviceId])
    | .thread m, _ =>
        w.engine.processingThread.bind fun t => (t.step P w.ids m).map fun (t, ids, evs) =>
          ({ w with engine.processingThread := some t, ids }, evs)
    | _, _ => none

/-- A step of the world, with what it comes from. -/
inductive Turn (P : Platform F St σ ρ) (w : World F St σ ρ) :
    Move F → World F St σ ρ → List (EngineEvent F) → Prop
  | receive (h : w.doing = .idle) (c : Command F) (a : CaptureAnswers) :
      Turn P w (.receive c a) (w.receive a c).1 (w.receive a c).2
  | join {next engine evs} (h : w.doing = .joining next) (hj : w.engine.join = some (engine, evs)) :
      Turn P w .join { w with engine, doing := .behind next } evs
  | opened {deviceId settings info stream a} (h : w.doing = .starting deviceId settings)
      (ho : AudioEngine.openCapture deviceId a = .ok (info, stream)) :
      Turn P w (.openCapture a) { w with doing := .spawning settings info stream } []
  | failed {deviceId settings a} (h : w.doing = .starting deviceId settings) (message : String) :
      Turn P w (.openCapture a) { w with doing := .idle } [.onError message, .failed]
  | spawn {settings info stream} (h : w.doing = .spawning settings info stream) :
      Turn P w .spawn
        { w with engine := w.engine.spawnSession P.home settings info stream, doing := .idle } []
  | switchSource {stream} (h : w.doing = .switching stream) (a : CaptureAnswers) :
      Turn P w (.switchSource a)
        { w with engine := w.engine.switchSource stream a, doing := .idle }
        [.onSourceSwitched stream.deviceId]
  | thread {t t' m ids evs} (ht : w.engine.processingThread = some t)
      (hs : Thread.Turn P t w.ids m t' ids evs) :
      Turn P w (.thread m) { w with engine.processingThread := some t', ids } evs

theorem turn_of_step {P : Platform F St σ ρ} {w w' : World F St σ ρ} {m : Move F}
    {evs : List (EngineEvent F)} (h : step P w m = some (w', evs)) : Turn P w m w' evs := by
  obtain ⟨engine, doing, ids⟩ := w
  cases m with
  | thread m =>
      obtain ⟨t, ht, hm⟩ := Option.bind_eq_some_iff.mp h
      obtain ⟨r, hr, heq⟩ := Option.map_eq_some_iff.mp hm
      cases heq
      exact .thread ht (Thread.turn_of_step hr)
  | receive c a =>
      cases doing with
      | idle =>
          have heq := Option.some.inj h
          obtain rfl : _ = w' := congrArg Prod.fst heq
          obtain rfl : _ = evs := congrArg Prod.snd heq
          exact .receive rfl c a
      | _ => cases h
  | join =>
      cases doing with
      | joining next =>
          obtain ⟨r, hr, heq⟩ := Option.map_eq_some_iff.mp h
          cases heq
          exact .join rfl hr
      | _ => cases h
  | openCapture a =>
      cases doing with
      | starting deviceId settings =>
          simp only [step] at h
          split at h
          case h_1 info stream ho =>
            cases h
            exact .opened rfl ho
          case h_2 e ho =>
            cases h
            exact .failed rfl _
      | _ => cases h
  | spawn =>
      cases doing with
      | spawning settings info stream =>
          cases h
          exact .spawn rfl
      | _ => cases h
  | switchSource a =>
      cases doing with
      | switching stream =>
          cases h
          exact .switchSource rfl a
      | _ => cases h

end World

end Larmindon
