/-
# `Coherence` — what the engine holds between two commands

Of a session the engine holds six things and a description for the watcher.
Between two commands they are all there or all gone, and the description names
the device that is captured (`Coherent`); a command that fails leaves no session
(`Stopped`).

One command breaks this.  `reconnect_stream` stops the capture before it starts
the new one, and when that fails it leaves the rest of the session behind: the
thread goes on without a capture, and the description still names the device
that is gone (`reconnect_half_stopped`).  In every run without such a failure
the engine is coherent (`coherent_run`).
-/
import Larmindon.AudioEngine

namespace Larmindon

variable {F St σ ρ : Type}

namespace AudioEngine

/-- The description is of the device captured, and what a session consists of is there as a whole. -/
structure Coherent (e : AudioEngine F St σ ρ) : Prop where
  device : e.activeSessionInfo.deviceId = e.activeStream.map (·.deviceId)
  thread : e.processingThread.isSome = e.activeStream.isSome
  stopFlag : e.stopFlag.isSome = e.activeStream.isSome
  captureStopFlag : e.captureStopFlag.isSome = e.activeStream.isSome
  buffer : e.activeBuffer.isSome = e.activeStream.isSome
  settingsTx : e.settingsTx.isSome = e.activeStream.isSome

/-- There is no session. -/
structure Stopped (e : AudioEngine F St σ ρ) : Prop where
  stream : e.activeStream = none
  thread : e.processingThread = none
  stopFlag : e.stopFlag = none
  captureStopFlag : e.captureStopFlag = none
  buffer : e.activeBuffer = none
  settingsTx : e.settingsTx = none
  info : e.activeSessionInfo = {}

theorem Stopped.coherent {e : AudioEngine F St σ ρ} (h : e.Stopped) : e.Coherent where
  device := by rw [h.info, h.stream]; rfl
  thread := by rw [h.thread, h.stream]; rfl
  stopFlag := by rw [h.stopFlag, h.stream]; rfl
  captureStopFlag := by rw [h.captureStopFlag, h.stream]; rfl
  buffer := by rw [h.buffer, h.stream]; rfl
  settingsTx := by rw [h.settingsTx, h.stream]; rfl

/-- The engine as it stands in a command. -/
inductive Shape (e : AudioEngine F St σ ρ) : Doing F → Prop
  | idle (h : e.Coherent) : Shape e .idle
  | joining {next} (stream : e.activeStream = none) (stopFlag : e.stopFlag = none)
      (captureStopFlag : e.captureStopFlag = none) (settingsTx : e.settingsTx = none) :
      Shape e (.joining next)
  | starting {deviceId settings} (h : e.Stopped) : Shape e (.starting deviceId settings)
  | spawning {settings info stream} (h : e.Stopped) (hi : info.deviceId = some stream.deviceId) :
      Shape e (.spawning settings info stream)
  | switching {stream} (thread : e.processingThread.isSome) (stopFlag : e.stopFlag.isSome)
      (buffer : e.activeBuffer.isSome) (settingsTx : e.settingsTx.isSome) :
      Shape e (.switching stream)

/-! ## What each part of a command does -/

/-- A join touches the caches, and nothing else of what it does not clear. -/
theorem join_spec {e e' : AudioEngine F St σ ρ} {evs : List (EngineEvent F)}
    (h : e.join = some (e', evs)) :
    ∃ (errors : List String) (cachedBackend : _) (cachedBackendId : _) (cachedVad : _),
      e' = { e.release with cachedBackend, cachedBackendId, cachedVad } ∧
      evs = errors.map .onError := by
  cases joined_of_join h with
  | panicked _ message => exact ⟨[message], _, _, _, rfl, rfl⟩
  | _ => exact ⟨[], _, _, _, rfl, rfl⟩

theorem shape_join {e e' : AudioEngine F St σ ρ} {evs : List (EngineEvent F)}
    {next : Option (Option String × SessionSettings F)} (hs : e.Shape (.joining next))
    (h : e.join = some (e', evs)) : e'.Shape (.behind next) ∧ .failed ∉ evs := by
  obtain ⟨errors, cachedBackend, cachedBackendId, cachedVad, rfl, rfl⟩ := join_spec h
  refine ⟨?_, by simp⟩
  cases hs with
  | joining stream stopFlag captureStopFlag settingsTx =>
      have hstopped : Stopped { e.release with cachedBackend, cachedBackendId, cachedVad } :=
        ⟨stream, rfl, stopFlag, captureStopFlag, rfl, settingsTx, rfl⟩
      cases next with
      | none => exact .idle hstopped.coherent
      | some s => exact .starting hstopped

theorem Coherent.signalStop {e : AudioEngine F St σ ρ}
    (next : Option (Option String × SessionSettings F)) : e.signalStop.Shape (.joining next) :=
  .joining rfl rfl rfl rfl

theorem Coherent.updateSettings {e : AudioEngine F St σ ρ} (h : e.Coherent)
    (s : SessionSettings F) : (e.updateSettings s).Coherent where
  device := h.device
  thread := by
    refine Eq.trans ?_ h.thread
    rw [AudioEngine.updateSettings]
    cases e.settingsTx with
    | none => rfl
    | some tx => exact Option.isSome_map
  stopFlag := h.stopFlag
  captureStopFlag := h.captureStopFlag
  buffer := h.buffer
  settingsTx := h.settingsTx

theorem Coherent.dropCapture {e : AudioEngine F St σ ρ} (h : e.Coherent)
    (hb : e.activeBuffer.isSome) (stream : AudioStream) :
    e.dropCapture.Shape (.switching stream) := by
  have hstream : e.activeStream.isSome := h.buffer ▸ hb
  exact .switching (h.thread.trans hstream) (h.stopFlag.trans hstream) hb
    (h.settingsTx.trans hstream)

theorem shape_spawnSession (home : Option String) (e : AudioEngine F St σ ρ)
    (s : SessionSettings F) {info : ActiveSessionInfo} {stream : AudioStream}
    (hi : info.deviceId = some stream.deviceId) : (e.spawnSession home s info stream).Coherent :=
  ⟨hi, rfl, rfl, rfl, rfl, rfl⟩

theorem shape_switchSource {e : AudioEngine F St σ ρ} {stream : AudioStream}
    (h : e.Shape (.switching stream)) (a : CaptureAnswers) : (e.switchSource stream a).Coherent := by
  cases h with
  | switching thread stopFlag buffer settingsTx =>
      exact ⟨rfl, thread, stopFlag, rfl, buffer, settingsTx⟩

/-- The device the session info names is the one the capture was started on. -/
theorem openCapture_info {deviceId : Option String} {a : CaptureAnswers} {info : ActiveSessionInfo}
    {stream : AudioStream} (h : openCapture deviceId a = .ok (info, stream)) :
    info.deviceId = some stream.deviceId := by
  rw [openCapture] at h
  split at h
  · cases h
  · split at h
    · cases h
    · cases h
      rfl

/-- The thread does not matter, as long as there is one. -/
theorem Shape.withThread {e : AudioEngine F St σ ρ} {doing : Doing F} (h : e.Shape doing)
    {t : Thread F St σ ρ} (ht : e.processingThread = some t) (t' : Thread F St σ ρ) :
    Shape { e with processingThread := some t' } doing := by
  cases h with
  | idle h =>
      refine .idle ⟨h.device, ?_, h.stopFlag, h.captureStopFlag, h.buffer, h.settingsTx⟩
      rw [← h.thread, ht]
      rfl
  | joining stream stopFlag captureStopFlag settingsTx =>
      exact .joining stream stopFlag captureStopFlag settingsTx
  | starting h =>
      rw [h.thread] at ht
      cases ht
  | spawning h _ =>
      rw [h.thread] at ht
      cases ht
  | switching _ stopFlag buffer settingsTx => exact .switching rfl stopFlag buffer settingsTx

end AudioEngine

/-! ## Every step -/

namespace World

/-- No `Reconnect` comes to a session when the new capture fails to start. -/
def Reopens (w : World F St σ ρ) : Move F → Prop
  | .receive (.reconnect _) a => w.engine.activeBuffer = none ∨ ∃ metadata, a.start = .ok metadata
  | _ => True

theorem shape_receive {w : World F St σ ρ} (h : w.engine.Coherent) (hd : w.doing = .idle)
    {c : Command F} {a : CaptureAnswers} (hc : w.Reopens (.receive c a)) :
    (w.receive a c).1.engine.Shape (w.receive a c).1.doing ∧ .failed ∉ (w.receive a c).2 := by
  cases c with
  | listDevices =>
      refine ⟨?_, by simp [receive]⟩
      show w.engine.Shape w.doing
      rw [hd]
      exact .idle h
  | start deviceId settings =>
      exact ⟨AudioEngine.Coherent.signalStop _, List.not_mem_nil⟩
  | stop => exact ⟨AudioEngine.Coherent.signalStop _, List.not_mem_nil⟩
  | updateSettings settings =>
      refine ⟨?_, List.not_mem_nil⟩
      show (w.engine.updateSettings settings).Shape w.doing
      rw [hd]
      exact .idle (h.updateSettings settings)
  | reconnect deviceId =>
      rw [receive]
      split
      case h_1 =>
        rw [hd]
        exact ⟨.idle h, List.not_mem_nil⟩
      case h_2 buffer hb =>
        obtain ⟨metadata, hm⟩ := hc.resolve_left (by rw [hb]; exact Option.some_ne_none _)
        rw [hm]
        exact ⟨h.dropCapture (by rw [hb]; rfl) _, List.not_mem_nil⟩

variable [F32 F]

omit [F32 F] in
theorem failed_not_mem_report (r : Except AsrError (List TranscriptUpdate)) :
    (.failed : EngineEvent F) ∉ report r := by
  match r with
  | .ok us => simp [report]
  | .error (.transient m) => simp [report]
  | .error (.fatal m) => simp [report]

/-- Nothing a thread does is the failure of a command. -/
theorem failed_not_mem_thread {P : Platform F St σ ρ} {t t' : Thread F St σ ρ}
    {ids ids' : SegmentIds} {m : ThreadMove F} {evs : List (EngineEvent F)}
    (h : Thread.Turn P t ids m t' ids' evs) : .failed ∉ evs := by
  cases h with
  | begun => simp
  | crashed => simp
  | stopped => exact failed_not_mem_report _
  | iterated => simp [failed_not_mem_report]
  | panicked => exact List.not_mem_nil

/-- Every step but a failing `Reconnect`. -/
theorem shape_turn {P : Platform F St σ ρ} {w w' : World F St σ ρ} {m : Move F}
    {evs : List (EngineEvent F)} (h : Turn P w m w' evs) (hs : w.engine.Shape w.doing)
    (hc : w.Reopens m) :
    w'.engine.Shape w'.doing ∧ (.failed ∈ evs → w'.engine.Stopped) := by
  cases h with
  | receive hd c a =>
      rw [hd] at hs
      cases hs with
      | idle h =>
          obtain ⟨hshape, hevs⟩ := shape_receive h hd hc
          exact ⟨hshape, fun hf => absurd hf hevs⟩
  | join hd hj =>
      rw [hd] at hs
      obtain ⟨hshape, hevs⟩ := AudioEngine.shape_join hs hj
      exact ⟨hshape, fun hf => absurd hf hevs⟩
  | opened hd ho =>
      rw [hd] at hs
      cases hs with
      | starting h =>
          exact ⟨.spawning h (AudioEngine.openCapture_info ho), fun hf => absurd hf List.not_mem_nil⟩
  | failed hd message =>
      rw [hd] at hs
      cases hs with
      | starting h => exact ⟨.idle h.coherent, fun _ => h⟩
  | spawn hd =>
      rw [hd] at hs
      cases hs with
      | spawning h hi =>
          exact ⟨.idle (AudioEngine.shape_spawnSession P.home _ _ hi),
            fun hf => absurd hf List.not_mem_nil⟩
  | switchSource hd a =>
      rw [hd] at hs
      refine ⟨.idle (AudioEngine.shape_switchSource hs a), ?_⟩
      intro hf
      simp at hf
  | thread ht hturn =>
      exact ⟨hs.withThread ht _, fun hf => absurd hf (failed_not_mem_thread hturn)⟩

/-- In every run in which no `Reconnect` comes to a session when the new capture fails to start: the
engine is coherent between two commands, and a command that fails leaves no session. -/
theorem coherent_run {P : Platform F St σ ρ} {diagEnabled : Bool} {moves : List (Move F)}
    {w : World F St σ ρ} {evs : List (EngineEvent F)}
    (hrun : Mealy.run (step P) (new diagEnabled) moves = some (w, evs))
    (hc : Mealy.Along (step P) Reopens (new diagEnabled) moves) :
    (w.doing = .idle → w.engine.Coherent) ∧
    ∀ m w' evs', w.Reopens m → step P w m = some (w', evs') → .failed ∈ evs' →
      w'.engine.Stopped := by
  have hshape : w.engine.Shape w.doing := by
    refine Mealy.run_along (P := fun _ w _ => w.engine.Shape w.doing) ?_ ?_ hc hrun
    · intro is w₁ os m w₂ os' hs hm hstep
      exact (shape_turn (turn_of_step hstep) hs hm).1
    · exact .idle ⟨rfl, rfl, rfl, rfl, rfl, rfl⟩
  refine ⟨?_, ?_⟩
  · intro hd
    rw [hd] at hshape
    cases hshape with
    | idle h => exact h
  · intro m w' evs' hm hstep
    exact (shape_turn (turn_of_step hstep) hshape hm).2

/-! ## Two runs -/

section Runs

/-- A platform on which nothing is said. -/
def still : Platform ℝ Unit Unit Unit where
  home := some "/home/user"
  network := ⟨(), fun _ _ => .ok ((), .ok [0])⟩
  model := ⟨fun m _ => (.ok "", m), id⟩
  loaded := fun _ => ()
  resampler := fun _ => ⟨1024, by decide, fun r block => (.ok [block], r)⟩
  newResampler := fun _ => ()

def onDevice (thresholdStart thresholdEnd : F) : SessionSettings F where
  chunkMs := 560
  punctuationReset := true
  emptyResetThreshold := 2
  vadThresholdStart := thresholdStart
  vadThresholdEnd := thresholdEnd
  agcEnabled := false
  agcTargetRmsDbfs := -20.0
  agcMaxGainDb := 30.0
  agcAttackMs := 20.0
  agcReleaseMs := 400.0
  asrProvider := "nemotron"
  modelPath := "~/models/nemotron"
  intraThreads := 2
  interThreads := 1
  diagnosticsEnabled := false
  sonioxApiKey := ""

/-- A capture backend that captures at 48 kHz, and one that does not start. -/
def captures : CaptureAnswers := ⟨.ok [], .ok [], .ok ⟨48000, 1, "F32LE"⟩⟩

def refuses : CaptureAnswers := ⟨.ok [], .ok [], .error "Timeout"⟩

/-- A session is started on a device. -/
def startOn (deviceId : String) (s : SessionSettings F) : List (Move F) :=
  [.receive (.start (some deviceId) s) captures, .join, .openCapture captures, .spawn]

theorem run_startOn {P : Platform F St σ ρ} {w : World F St σ ρ} (hd : w.doing = .idle)
    (ht : w.engine.processingThread = none) (deviceId : String) (s : SessionSettings F) :
    Mealy.run (step P) w (startOn deviceId s) =
      some ({ w with
        engine := w.engine.signalStop.release.spawnSession P.home s (.on deviceId (.ok []))
          ⟨deviceId, 48000⟩
        doing := .idle }, []) := by
  obtain ⟨e, doing, ids⟩ := w
  obtain rfl : doing = .idle := hd
  have hthread : e.signalStop.processingThread = none := e.untouched_signalStop.noThread ht
  have hjoin : e.signalStop.join = some (e.signalStop.release, []) := by
    rw [AudioEngine.join, hthread]
  simp only [startOn, Mealy.run, step, receive, hjoin, Option.map_some]
  rfl

/-- A session is set up, stopped, and joined. -/
def beginAndStop : List (Move F) :=
  [.thread (.begin ⟨.ok (), .ok (), .ok (), .ok (), .ok ()⟩), .receive .stop captures,
    .thread (.iterate ⟨[], .ok []⟩), .join]

/-- A session that is moved to another device, a start that fails, and a session again. -/
theorem coherent_run_moved :
    let moves : List (Move ℝ) := startOn "41" (onDevice 0.5 0.3) ++
      [.receive (.reconnect "42") captures, .switchSource captures, .thread .panic,
        .receive (.start none (onDevice 0.5 0.3)) captures, .join, .openCapture refuses] ++
      startOn "43" (onDevice 0.5 0.3)
    ∃ w evs, Mealy.run (step still) (new true) moves = some (w, evs) ∧
      w.engine.activeStream = some ⟨"43", 48000⟩ ∧ w.engine.Coherent := by
  intro moves
  have hrun : Mealy.run (step still) (new true) moves = some (_, _) := rfl
  have hreopens : ∀ m ∈ moves, ∀ w : World ℝ Unit Unit Unit, w.Reopens m := by
    simp [moves, startOn, Reopens, captures]
  exact ⟨_, _, hrun, rfl, (coherent_run hrun (.of_forall hreopens _)).1 rfl⟩

/-- A `Reconnect` that fails: the thread and the rest of the session are left without a capture, and
the session info names the device that is gone. -/
theorem reconnect_half_stopped :
    ∃ w evs w' evs', Mealy.run (step still) (new true) (startOn "41" (onDevice 0.5 0.3)) = some (w, evs) ∧
      w.engine.Coherent ∧
      step still w (.receive (.reconnect "42") refuses) = some (w', evs') ∧
      .failed ∈ evs' ∧ w'.doing = .idle ∧
      w'.engine.activeSessionInfo.deviceId = some "41" ∧ w'.engine.activeStream = none ∧
      w'.engine.captureStopFlag = none ∧ w'.engine.processingThread.isSome ∧
      ¬ w'.engine.Coherent ∧ w'.engine ≠ w.engine ∧ ¬ w'.engine.Stopped := by
  have hrun : Mealy.run (step still) (new true) (startOn "41" (onDevice (0.5 : ℝ) 0.3)) = some (_, _) := rfl
  refine ⟨_, _, _, _, hrun, ⟨rfl, rfl, rfl, rfl, rfl, rfl⟩, rfl, by simp, rfl, rfl, rfl, rfl, rfl, ?_, ?_, ?_⟩
  · intro h
    cases h.thread
  · intro h
    cases congrArg AudioEngine.activeStream h
  · intro h
    cases h.thread

end Runs

end World

end Larmindon
