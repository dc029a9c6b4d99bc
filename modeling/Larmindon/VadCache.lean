/-
# `VadCache` — thresholds, and the VAD that is reused

A session sets the thresholds of a VAD it loads, and of its VAD whenever settings
are pushed to it.  A VAD from the cache it only resets, which clears what the VAD
is at and keeps how it is configured:

    field                  new          reset        pushed settings
    thresholds             settings     kept         settings
    frame counts           500, 250 ms  kept         500, 250 ms
    ring                   500 ms       500 ms       kept
    network, counters      cleared      cleared      kept

The frame counts and the size of the ring are the same everywhere, so a cached
VAD that is reset is a new one with the thresholds it was last given.  These are
not always those of the session that reuses it: the key of the cache does not
cover them (`vad_stale_thresholds`).  In every run in which they are, the
thresholds are those of the settings last taken (`vad_follows_settings`).
-/
import Larmindon.BackendCache

namespace Larmindon

variable {F St σ ρ P : Type}

/-! ## The configuration of the state machine -/

/-- Two states of a machine that is configured the same. -/
structure VadStateMachine.SameConfig (m m' : VadStateMachine F P) : Prop where
  thresholdStart : m'.thresholdStart = m.thresholdStart
  thresholdEnd : m'.thresholdEnd = m.thresholdEnd
  minSilenceFrames : m'.minSilenceFrames = m.minSilenceFrames
  minSpeechFrames : m'.minSpeechFrames = m.minSpeechFrames
  capacity : m'.ringBuffer.capacity = m.ringBuffer.capacity

namespace VadStateMachine

theorem SameConfig.refl (m : VadStateMachine F P) : m.SameConfig m := ⟨rfl, rfl, rfl, rfl, rfl⟩

theorem SameConfig.trans {m₁ m₂ m₃ : VadStateMachine F P} (h₁ : m₁.SameConfig m₂)
    (h₂ : m₂.SameConfig m₃) : m₁.SameConfig m₃ where
  thresholdStart := h₂.thresholdStart.trans h₁.thresholdStart
  thresholdEnd := h₂.thresholdEnd.trans h₁.thresholdEnd
  minSilenceFrames := h₂.minSilenceFrames.trans h₁.minSilenceFrames
  minSpeechFrames := h₂.minSpeechFrames.trans h₁.minSpeechFrames
  capacity := h₂.capacity.trans h₁.capacity

end VadStateMachine

namespace PreSpeechRingBuffer

theorem foldlM_write_capacity (samples : List F) : ∀ {rb rb' : PreSpeechRingBuffer F},
    samples.foldlM write rb = some rb' → rb'.capacity = rb.capacity := by
  induction samples with
  | nil =>
      intro rb rb' h
      cases h
      rfl
  | cons s samples ih =>
      intro rb rb' h
      obtain ⟨rb₁, hw, hrest⟩ := Option.bind_eq_some_iff.mp h
      rw [ih hrest]
      rw [write] at hw
      split at hw
      · cases hw
        rfl
      · cases hw

theorem pushSlice_capacity {rb rb' : PreSpeechRingBuffer F} {samples : List F}
    (h : rb.pushSlice samples = some rb') : rb'.capacity = rb.capacity := by
  rw [pushSlice] at h
  split at h
  · cases h
  case h_2 rb₁ hf =>
    cases h
    show rb₁.capacity = rb.capacity
    exact foldlM_write_capacity samples hf

theorem drainAll_capacity {rb rb' : PreSpeechRingBuffer F} {out : List F}
    (h : rb.drainAll = some (out, rb')) : rb'.capacity = rb.capacity := by
  rw [drainAll] at h
  split at h
  · cases h
    rfl
  · simp only at h
    split at h
    · cases h
    · cases h
      rfl

end PreSpeechRingBuffer

/-- A frame does not touch the configuration. -/
theorem VadStateMachine.sameConfig_process [LE P] [DecidableLE P] {m m' : VadStateMachine F P}
    {prob : P} {frame : List F} {d : VadDecision F} (h : m.process prob frame = some (d, m')) :
    m.SameConfig m' := by
  cases moves_of_process h with
  | kept _ hp => exact ⟨rfl, rfl, rfl, rfl, PreSpeechRingBuffer.pushSlice_capacity hp⟩
  | started _ hd => exact ⟨rfl, rfl, rfl, rfl, PreSpeechRingBuffer.drainAll_capacity hd⟩
  | continues | ended => exact ⟨rfl, rfl, rfl, rfl, rfl⟩

/-! ## The VAD of a session -/

namespace VadProcessor

/-- The parts of the configuration that are the same in every session. -/
structure Standard (v : VadProcessor F St) : Prop where
  minSilenceFrames : v.stateMachine.minSilenceFrames = 500 / VadStateMachine.frameMs
  minSpeechFrames : v.stateMachine.minSpeechFrames = 250 / VadStateMachine.frameMs
  capacity : v.stateMachine.ringBuffer.capacity = 8000

/-- The thresholds are those of the settings. -/
def Fits (v : VadProcessor F St) (s : SessionSettings F) : Prop :=
  v.stateMachine.thresholdStart = s.vadThresholdStart ∧
    v.stateMachine.thresholdEnd = s.vadThresholdEnd

theorem Standard.of_sameConfig {v v' : VadProcessor F St} (h : v.Standard)
    (hs : v.stateMachine.SameConfig v'.stateMachine) : v'.Standard where
  minSilenceFrames := hs.minSilenceFrames.trans h.minSilenceFrames
  minSpeechFrames := hs.minSpeechFrames.trans h.minSpeechFrames
  capacity := hs.capacity.trans h.capacity

theorem Fits.of_sameConfig {v v' : VadProcessor F St} {s : SessionSettings F} (h : v.Fits s)
    (hs : v.stateMachine.SameConfig v'.stateMachine) : v'.Fits s :=
  ⟨hs.thresholdStart.trans h.1, hs.thresholdEnd.trans h.2⟩

/-- What a session loads. -/
theorem standard_new [Zero F] (N : Network F St) (thresholdStart thresholdEnd : F) :
    (new N thresholdStart thresholdEnd 500 250 500).Standard := ⟨rfl, rfl, rfl⟩

/-- A reset VAD is a new one with the thresholds it has. -/
theorem Standard.reset_eq_new [Zero F] {v : VadProcessor F St} (h : v.Standard) (N : Network F St) :
    v.reset N =
      new N v.stateMachine.thresholdStart v.stateMachine.thresholdEnd 500 250 500 := by
  obtain ⟨model, m⟩ := v
  obtain ⟨hsilence, hspeech, hcapacity⟩ := h
  simp only [reset, new, SileroModel.reset, SileroModel.new, VadStateMachine.reset,
    VadStateMachine.new, mk.injEq, true_and]
  simp only at hsilence hspeech hcapacity
  rw [hsilence, hspeech, hcapacity]
  rfl

/-- Pushed settings. -/
theorem Standard.updateParams {v : VadProcessor F St} (h : v.Standard)
    (s : SessionSettings F) :
    (v.updateParams s.vadThresholdStart s.vadThresholdEnd 500 250).Standard ∧
      (v.updateParams s.vadThresholdStart s.vadThresholdEnd 500 250).Fits s :=
  ⟨⟨rfl, rfl, h.capacity⟩, rfl, rfl⟩

theorem sameConfig_processFrame [LE F] [DecidableLE F] {N : Network F St} {v v' : VadProcessor F St}
    {frame : List F} {r : Except String (VadDecision F)}
    (h : v.processFrame N frame = some (r, v')) : v.stateMachine.SameConfig v'.stateMachine := by
  rw [processFrame] at h
  split at h
  · cases h
  · cases h
    exact .refl _
  · split at h
    · cases h
    case h_2 hp =>
      cases h
      exact VadStateMachine.sameConfig_process hp

end VadProcessor

/-- The frame loop does not touch the configuration. -/
theorem VadProcessor.sameConfig_frames [LE F] [DecidableLE F] {N : Network F St}
    {gating : AudioGating} {v v' : VadProcessor F St} {frames : List (List F)}
    {calls : List (BackendCall F)}
    (h : Mealy.run ((vad N).frame gating) v frames = some (v', calls)) :
    v.stateMachine.SameConfig v'.stateMachine := by
  refine Mealy.run_sound (P := fun _ w _ => v.stateMachine.SameConfig w.stateMachine) ?_
    (.refl _) h
  intro is w os frame w' os' hw hstep
  simp only [Vad.frame] at hstep
  split at hstep
  · cases hstep
  case h_2 hf =>
    cases hstep
    exact hw.trans (sameConfig_processFrame hf)
  case h_3 hf =>
    cases hstep
    exact hw.trans (sameConfig_processFrame hf)

variable [F32 F]

/-- Of an iteration, only the hot reload touches the configuration. -/
theorem Pipeline.sameConfig_iterate {R : Resampler F ρ} {N : Network F St} {gating : AudioGating}
    {p p' : Pipeline F ρ (VadProcessor F St)} {i : Drain F} {rs : List (Request F)}
    (h : p.iterate R (VadProcessor.vad N) gating i = some (p', rs)) :
    (p.reload (VadProcessor.vad N) i.reload).vad.stateMachine.SameConfig p'.vad.stateMachine := by
  simp only [Pipeline.iterate] at h
  split at h
  · cases h
    exact .refl _
  · obtain ⟨⟨q, calls⟩, hdeliver, heq⟩ := Option.map_eq_some_iff.mp h
    cases heq
    obtain ⟨⟨front, samples⟩, -, hframes⟩ := Option.bind_eq_some_iff.mp hdeliver
    obtain ⟨⟨v, calls'⟩, hv, heq⟩ := Option.map_eq_some_iff.mp hframes
    cases heq
    exact VadProcessor.sameConfig_frames hv

/-! ## Every run -/

/-- The settings a session took. -/
def EngineEvent.took? : EngineEvent F → Option (SessionSettings F)
  | .took s => some s
  | _ => none

/-- The settings taken last. -/
def lastTook (evs : List (EngineEvent F)) : Option (SessionSettings F) :=
  (evs.filterMap EngineEvent.took?).getLast?

omit [F32 F] in
theorem lastTook_quiet {evs evs' : List (EngineEvent F)} (h : evs'.filterMap EngineEvent.took? = []) :
    lastTook (evs ++ evs') = lastTook evs := by
  rw [lastTook, lastTook, List.filterMap_append, h, List.append_nil]

omit [F32 F] in
/-- Settings that are taken, and then what is told of an iteration. -/
theorem lastTook_took {evs evs' : List (EngineEvent F)} {s : SessionSettings F}
    (h : evs'.filterMap EngineEvent.took? = []) : lastTook (evs ++ .took s :: evs') = some s := by
  rw [lastTook, List.filterMap_append,
    List.filterMap_cons_some (show (EngineEvent.took s).took? = some s from rfl), h]
  exact List.getLast?_concat

omit [F32 F] in
theorem took_report (results : List (Except AsrError (List TranscriptUpdate))) :
    (results.flatMap report : List (EngineEvent F)).filterMap EngineEvent.took? = [] := by
  rw [List.filterMap_flatMap, List.flatMap_eq_nil_iff]
  intro r _
  match r with
  | .ok us => simp [report, EngineEvent.took?]
  | .error (.transient m) => simp [report, EngineEvent.took?]
  | .error (.fatal m) => simp [report, EngineEvent.took?]

omit [F32 F] in
theorem took_receive (w : World F St σ ρ) (c : Command F) (a : CaptureAnswers) :
    (w.receive a c).2.filterMap EngineEvent.took? = [] := by
  cases c with
  | listDevices => rfl
  | start deviceId settings => rfl
  | stop => rfl
  | updateSettings settings => rfl
  | reconnect deviceId =>
      rw [World.receive]
      split
      · rfl
      · split <;> rfl

/-- A VAD with the thresholds of the settings taken last. -/
def VadProcessor.Kept (v : VadProcessor F St) (taken : Option (SessionSettings F)) : Prop :=
  v.Standard ∧ ∃ s, taken = some s ∧ v.Fits s

/-- The VAD of a thread, wherever it stands: that of the session before, where it is cached, and its own
while it loops and when it has ended. -/
def Phase.VadFits (taken : Option (SessionSettings F)) : Phase F St σ ρ → Prop
  | .spawned _ cachedVad => ∀ v ∈ cachedVad, v.Kept taken
  | .looping _ pipeline => pipeline.vad.Kept taken
  | .finished (some (_, v)) => v.Kept taken
  | .finished none | .panicked => True

/-- No settings are taken between two sessions, so a VAD in the cache has the thresholds of the settings
that the session took last which left it. -/
structure VadKept (e : AudioEngine F St σ ρ) (evs : List (EngineEvent F)) : Prop where
  cached : ∀ v, e.cachedVad = some v → e.processingThread = none ∧ v.Kept (lastTook evs)
  thread : ∀ t, e.processingThread = some t → t.phase.VadFits (lastTook evs)

omit [F32 F] in
theorem VadKept.untouched {e e' : AudioEngine F St σ ρ} {evs evs' : List (EngineEvent F)}
    (h : VadKept e evs) (hu : e.Untouched e') (hevs : evs'.filterMap EngineEvent.took? = []) :
    VadKept e' (evs ++ evs') where
  cached := by
    intro v hv
    obtain ⟨hnone, hkept⟩ := h.cached v (hu.cachedVad ▸ hv)
    rw [lastTook_quiet hevs]
    exact ⟨hu.noThread hnone, hkept⟩
  thread := by
    intro t' ht'
    obtain ⟨t, ht, -, hphase⟩ := hu.thread t' ht'
    rw [lastTook_quiet hevs, hphase]
    exact h.thread t ht

omit [F32 F] in
/-- A join caches the VAD of a session that ended well. -/
theorem VadKept.join {e e' : AudioEngine F St σ ρ} {evs evs' : List (EngineEvent F)}
    (h : VadKept e evs) (hj : e.join = some (e', evs')) : VadKept e' (evs ++ evs') := by
  have hquiet : lastTook (evs ++ evs') = lastTook evs := by
    cases AudioEngine.joined_of_join hj with
    | alone | gaveUp | cached | notCacheable | panicked => exact lastTook_quiet rfl
  have hkept : ∀ v, e.cachedVad = some v → v.Kept (lastTook evs) := fun v hv => (h.cached v hv).2
  rw [← hquiet] at hkept
  cases AudioEngine.joined_of_join hj with
  | alone | gaveUp | panicked =>
      exact ⟨fun v hv => ⟨rfl, hkept v hv⟩, by intro t ht; cases ht⟩
  | cached ht hfinished | notCacheable ht hfinished =>
      have hphase := h.thread _ ht
      rw [hfinished, ← hquiet] at hphase
      refine ⟨?_, by intro t ht; cases ht⟩
      intro v hv
      cases hv
      exact ⟨rfl, hphase⟩

omit [F32 F] in
theorem VadKept.spawnSession {e : AudioEngine F St σ ρ} {evs : List (EngineEvent F)}
    (h : VadKept e evs) (home : Option String) (s : SessionSettings F) (info : ActiveSessionInfo)
    (stream : AudioStream) : VadKept (e.spawnSession home s info stream) evs where
  cached := by
    intro v hv
    cases hv
  thread := by
    intro t ht
    cases ht
    intro v hv
    exact (h.cached v (Option.mem_ite_none_right.mp hv).2).2

/-- A VAD of a session that is set up: cached or not, it is a new one with the thresholds of the
settings, where the cached one has these. -/
theorem vad_of_setUp {P : Platform F St σ ρ} {s : SessionSettings F} {inputRate : ℕ}
    {cached : Option (Backend F σ)} {cachedVad : Option (VadProcessor F St)} {i : SetUp}
    {b : Backend F σ} {pipeline : Pipeline F ρ (VadProcessor F St)}
    (hs : setUp P s inputRate cached cachedVad i = .ok (b, pipeline))
    (hstandard : ∀ v ∈ cachedVad, v.Standard) (hfits : ∀ v ∈ cachedVad, v.Fits s) :
    pipeline.vad = .new P.network s.vadThresholdStart s.vadThresholdEnd 500 250 500 := by
  obtain ⟨created, vad, resampler, -, hvad, -, rfl⟩ := setUp_ok hs
  show vad = _
  cases cachedVad with
  | some v =>
      cases hvad
      obtain ⟨hstart, hend⟩ := hfits v rfl
      rw [(hstandard v rfl).reset_eq_new, hstart, hend]
  | none =>
      rw [setUpVad] at hvad
      cases hl : i.loadVad with
      | error e =>
          rw [hl] at hvad
          cases hvad
      | ok u =>
          rw [hl] at hvad
          cases hvad
          rfl

omit [F32 F] in
/-- It fits settings with the same thresholds. -/
theorem VadProcessor.Kept.fits {v : VadProcessor F St} {taken : Option (SessionSettings F)}
    {s : SessionSettings F} (h : v.Kept taken)
    (hs : ∀ s', taken = some s' → s'.vadThresholdStart = s.vadThresholdStart ∧
      s'.vadThresholdEnd = s.vadThresholdEnd) : v.Fits s := by
  obtain ⟨-, s', htaken, hstart, hend⟩ := h
  obtain ⟨hstart', hend'⟩ := hs s' htaken
  exact ⟨hstart.trans hstart', hend.trans hend'⟩

theorem Phase.VadFits.turn {P : Platform F St σ ρ} {t t' : Thread F St σ ρ} {ids ids' : SegmentIds}
    {m : ThreadMove F} {evs evs' : List (EngineEvent F)} (h : t.phase.VadFits (lastTook evs))
    (hc : ∀ i, m = .begin i → ∀ cachedBackend v, t.phase = .spawned cachedBackend (some v) →
      ∀ taken, lastTook evs = some taken → taken.vadThresholdStart = t.settings.vadThresholdStart ∧
        taken.vadThresholdEnd = t.settings.vadThresholdEnd)
    (ht : Thread.Turn P t ids m t' ids' evs') : t'.phase.VadFits (lastTook (evs ++ evs')) := by
  cases ht with
  | @begun cachedBackend cachedVad backend pipeline i hphase hs =>
      rw [hphase] at h
      have hnew := vad_of_setUp hs (fun v hv => (h v hv).1) (by
        rintro v rfl
        exact (h v rfl).fits (hc i rfl cachedBackend v hphase))
      rw [lastTook_took rfl]
      show pipeline.vad.Standard ∧ _
      rw [hnew]
      exact ⟨VadProcessor.standard_new _ _ _, t.settings, rfl, rfl, rfl⟩
  | crashed => exact trivial
  | stopped hphase =>
      rw [hphase] at h
      rw [lastTook_quiet (by simpa using took_report [.ok _])]
      exact h
  | @iterated backend pipeline pipeline' requests backend' ids' results i phase hphase hp hb hphase' =>
      rw [hphase] at h
      obtain ⟨hstandard, s, hs, hfits⟩ := h
      have hsame := Pipeline.sameConfig_iterate hp
      -- behind the hot reload, in front of the stages
      have hreloaded : ∀ q, q = pipeline.reload (VadProcessor.vad P.network)
            (t.settingsRx.head?.map (·.toPipelineSettings)) →
          q.vad.Kept (lastTook (evs ++ (t.settingsRx.head?.toList.map .took ++
            results.flatMap report))) := by
        rintro q rfl
        cases hrx : t.settingsRx.head? with
        | none =>
            rw [Option.toList_none, List.map_nil, List.nil_append,
              lastTook_quiet (took_report results)]
            exact ⟨hstandard, s, hs, hfits⟩
        | some s' =>
            obtain ⟨hstandard', hfits'⟩ := hstandard.updateParams s'
            rw [Option.toList_some, List.map_singleton, List.singleton_append,
              lastTook_took (took_report results)]
            exact ⟨hstandard', s', rfl, hfits'⟩
      obtain ⟨hstandard', s', hs', hfits'⟩ := hreloaded _ rfl
      have hkept : pipeline'.vad.Kept (lastTook (evs ++ (t.settingsRx.head?.toList.map .took ++
          results.flatMap report))) :=
        ⟨hstandard'.of_sameConfig hsame, s', hs', hfits'.of_sameConfig hsame⟩
      rcases hphase' with rfl | rfl
      · exact hkept
      · exact hkept
  | panicked => exact trivial

/-- Of what was taken in the run so far, the last had the thresholds of a session that is set up with a
cached VAD. -/
def ThresholdsFit (s : World F St σ ρ × List (EngineEvent F)) : Move F → Prop
  | .thread (.begin _) => ∀ t cachedBackend v, s.1.engine.processingThread = some t →
      t.phase = .spawned cachedBackend (some v) → ∀ taken, lastTook s.2 = some taken →
        taken.vadThresholdStart = t.settings.vadThresholdStart ∧
          taken.vadThresholdEnd = t.settings.vadThresholdEnd
  | _ => True

theorem VadKept.turn {P : Platform F St σ ρ} {w w' : World F St σ ρ} {m : Move F}
    {evs evs' : List (EngineEvent F)} (h : VadKept w.engine evs) (hc : ThresholdsFit (w, evs) m)
    (ht : World.Turn P w m w' evs') : VadKept w'.engine (evs ++ evs') := by
  cases ht with
  | receive _ c a => exact h.untouched (w.untouched_receive c a) (took_receive w c a)
  | join _ hj => exact h.join hj
  | opened => exact h.untouched (.refl _) rfl
  | failed => exact h.untouched (.refl _) rfl
  | spawn =>
      rw [List.append_nil]
      exact h.spawnSession _ _ _ _
  | switchSource => exact h.untouched (w.engine.untouched_switchSource _ _) rfl
  | thread hthread hturn =>
      refine ⟨?_, ?_⟩
      · intro v hv
        rw [(h.cached v hv).1] at hthread
        cases hthread
      intro t ht
      cases ht
      refine (h.thread _ hthread).turn ?_ hturn
      rintro i rfl cachedBackend v hphase
      exact hc _ cachedBackend v hthread hphase

/-- The decisions of a VAD, or its errors, frame by frame. -/
def VadProcessor.decide (N : Network F St) :
    Mealy.Step (VadProcessor F St) (List F) (Except String (VadDecision F)) := fun v frame =>
  (v.processFrame N frame).map fun r => (r.2, [r.1])

/-- The thresholds follow the settings.  In every run in which no session is set up with a cached VAD
when the settings taken last, by the session that left it, had other thresholds: the thresholds of a
session that loops are those of the settings it took last, and a VAD that is handed to a session from
the cache decides on every sequence of frames as one that is loaded with the same settings. -/
theorem vad_follows_settings {P : Platform F St σ ρ} {diagEnabled : Bool} {moves : List (Move F)}
    {w : World F St σ ρ} {evs : List (EngineEvent F)}
    (hrun : Mealy.run (World.step P) (.new diagEnabled) moves = some (w, evs))
    (hc : Mealy.Along (Mealy.logged (World.step P)) ThresholdsFit (.new diagEnabled, []) moves) :
    (∀ t backend pipeline, w.engine.processingThread = some t → t.phase = .looping backend pipeline →
      ∃ s, lastTook evs = some s ∧
        pipeline.vad.stateMachine.thresholdStart = s.vadThresholdStart ∧
        pipeline.vad.stateMachine.thresholdEnd = s.vadThresholdEnd) ∧
    ∀ t cachedBackend v i, w.engine.processingThread = some t →
      t.phase = .spawned cachedBackend (some v) → ThresholdsFit (w, evs) (.thread (.begin i)) →
      ∀ frames, Mealy.run (VadProcessor.decide P.network) (v.reset P.network) frames =
        Mealy.run (VadProcessor.decide P.network)
          (.new P.network t.settings.vadThresholdStart t.settings.vadThresholdEnd 500 250 500)
          frames := by
  have hkept : VadKept w.engine evs := by
    refine Mealy.run_along (P := fun _ s _ => VadKept s.1.engine s.2) ?_ ?_ hc (Mealy.run_logged hrun [])
    · rintro is ⟨w₁, log⟩ os m ⟨w₂, log'⟩ os' hkept hm hlogged
      obtain ⟨hstep, rfl⟩ := Mealy.logged_step hlogged
      exact hkept.turn hm (World.turn_of_step hstep)
    · refine ⟨?_, ?_⟩
      · intro v hv
        cases hv
      · intro t ht
        cases ht
  refine ⟨?_, ?_⟩
  · intro t backend pipeline ht hphase
    have hfits := hkept.thread t ht
    rw [hphase] at hfits
    exact hfits.2
  · intro t cachedBackend v i ht hphase hfit frames
    have hcached := hkept.thread t ht
    rw [hphase] at hcached
    obtain ⟨hstart, hend⟩ := (hcached v rfl).fits (hfit t cachedBackend v ht hphase)
    rw [(hcached v rfl).1.reset_eq_new, hstart, hend]

section Twice

open World

/-- Nothing fails. -/
def settingUp : SetUp := ⟨.ok (), .ok (), .ok (), .ok (), .ok ()⟩

/-- A session that reuses a backend and a VAD. -/
theorem setUp_reused (s : SessionSettings ℝ) (hs : s.asrProvider = "nemotron") (inputRate : ℕ)
    {cached : Nemotron.NemotronBackend ℝ (ModelKey × Unit)} {m : ModelKey × Unit}
    (hm : cached.model = some m) (vad : VadProcessor ℝ Unit) :
    ∃ backend pipeline, setUp still s inputRate (some (.nemotron cached)) (some vad) settingUp =
      .ok (backend, pipeline) ∧ pipeline.vad = vad.reset still.network := by
  have hcreate : createBackend s (some (.nemotron cached)) = .ok (.nemotron cached) := by
    rw [createBackend, if_pos hs, hs]
    rfl
  obtain ⟨r, hr⟩ : ∃ r, setUpResampler still inputRate settingUp.newResampler = .ok r := by
    rw [setUpResampler]
    split
    · exact ⟨_, rfl⟩
    · exact ⟨_, rfl⟩
  obtain ⟨begun, hbegin⟩ : ∃ begun, (Backend.nemotron cached).beginSession still settingUp s =
      .ok begun := by
    simp only [Backend.beginSession, Nemotron.NemotronBackend.beginSession, hm]
    exact ⟨_, rfl⟩
  refine ⟨begun, .new r (vad.reset still.network) s.toPipelineSettings, ?_, rfl⟩
  rw [setUp, hcreate, hr]
  show ((Backend.nemotron cached).beginSession still settingUp s).mapError _ >>= _ = _
  rw [hbegin]
  rfl

/-- The VAD of the second session has the thresholds of the first. -/
theorem run_twice_begin (a b c d : ℝ) : ∃ w evs w' t backend pipeline,
    Mealy.run (step still) (new true)
      (startOn "41" (onDevice a b) ++ beginAndStop ++ startOn "42" (onDevice c d)) = some (w, evs) ∧
    lastTook evs = some (onDevice a b) ∧
    (∀ t cachedBackend v, w.engine.processingThread = some t →
      t.phase = .spawned cachedBackend (some v) → t.settings = onDevice c d) ∧
    step still w (.thread (.begin settingUp)) = some (w', [.took (onDevice c d)]) ∧
    w'.engine.processingThread = some t ∧ t.phase = .looping backend pipeline ∧
    pipeline.vad.stateMachine.thresholdStart = a ∧ pipeline.vad.stateMachine.thresholdEnd = b := by
  obtain ⟨w, evs, t, cached, vad, hrun, rfl, -, ht, hsettings, hphase, hm, rfl⟩ := run_twice a b c d
  have hprovider : t.settings.asrProvider = "nemotron" := by
    rw [hsettings]
    rfl
  obtain ⟨backend, pipeline, hsetUp, hvad⟩ := setUp_reused t.settings hprovider t.inputRate hm
    (.new still.network a b 500 250 500)
  refine ⟨w, _, { w with engine.processingThread := some { t with phase := .looping backend pipeline } },
    { t with phase := .looping backend pipeline }, backend, pipeline, hrun, rfl, ?_, ?_, rfl, rfl, ?_, ?_⟩
  · intro t' cachedBackend v ht' hphase'
    rw [ht] at ht'
    cases ht'
    exact hsettings
  · rw [step, ht]
    simp only [Thread.step, Thread.begin, hphase, hsetUp, Option.bind_some, Option.map_some]
    rw [hsettings]
  · rw [hvad]
    rfl
  · rw [hvad]
    rfl

/-- The first session has nothing to reuse. -/
theorem run_startOn_spawned (deviceId : String) (s : SessionSettings ℝ) : ∃ w evs t,
    Mealy.run (step still) (new true) (startOn deviceId s) = some (w, evs) ∧
      w.engine.processingThread = some t ∧ t.phase = .spawned none none :=
  ⟨_, _, _, run_startOn rfl rfl deviceId s, rfl, rfl⟩

/-- Two sessions with the same thresholds. -/
theorem vad_follows_settings_twice :
    let moves : List (Move ℝ) := startOn "41" (onDevice 0.5 0.3) ++ beginAndStop ++
      startOn "42" (onDevice 0.5 0.3) ++ [.thread (.begin settingUp)]
    ∃ w evs t backend pipeline s, Mealy.run (step still) (new true) moves = some (w, evs) ∧
      w.engine.processingThread = some t ∧ t.phase = .looping backend pipeline ∧
      lastTook evs = some s ∧ pipeline.vad.stateMachine.thresholdStart = s.vadThresholdStart ∧
      pipeline.vad.stateMachine.thresholdEnd = s.vadThresholdEnd := by
  intro moves
  obtain ⟨w, evs, w', t, backend, pipeline, hrun, htook, hsettings, hstep, ht, hphase, -, -⟩ :=
    run_twice_begin 0.5 0.3 0.5 0.3
  have hrun' := Mealy.run_append hrun (Mealy.run_singleton hstep)
  have hc : Mealy.Along (Mealy.logged (step still)) ThresholdsFit (new true, []) moves := by
    refine (Mealy.along_snoc_iff (Mealy.run_logged hrun []) _).mpr ⟨?_, ?_⟩
    · obtain ⟨w₁, evs₁, t₁, hrun₁, ht₁, hphase₁⟩ := run_startOn_spawned "41" (onDevice 0.5 0.3)
      have hrest : ∀ m ∈ beginAndStop.tail ++ startOn "42" (onDevice 0.5 0.3),
          ∀ s : World ℝ Unit Unit Unit × List (EngineEvent ℝ), ThresholdsFit s m := by
        simp [beginAndStop, startOn, ThresholdsFit]
      rw [List.append_assoc]
      refine (Mealy.along_append_iff (Mealy.run_logged hrun₁ []) _).mpr
        ⟨.of_forall ?_ _, ?_, fun s _ _ => .of_forall hrest s⟩
      · simp [startOn, ThresholdsFit]
      · intro t' cachedBackend v ht' hphase'
        rw [ht₁] at ht'
        cases ht'
        rw [hphase₁] at hphase'
        cases hphase'
    · intro t' cachedBackend v ht' hphase' taken htaken
      obtain rfl : onDevice 0.5 0.3 = taken := Option.some.inj (htook.symm.trans htaken)
      rw [hsettings t' cachedBackend v ht' hphase']
      exact ⟨rfl, rfl⟩
  obtain ⟨s, hs, hstart, hend⟩ := (vad_follows_settings hrun' hc).1 t backend pipeline ht hphase
  exact ⟨w', _, t, backend, pipeline, s, hrun', ht, hphase, hs, hstart, hend⟩

/-- Thresholds that are changed between two sessions, with the same model: the second session takes
the new ones, and has a VAD with the old ones. -/
theorem vad_stale_thresholds :
    ∃ w evs t backend pipeline s, Mealy.run (step still) (new true)
        (startOn "41" (onDevice 0.5 0.3) ++ beginAndStop ++ startOn "42" (onDevice 0.9 0.8) ++
          [.thread (.begin settingUp)]) = some (w, evs) ∧
      w.engine.processingThread = some t ∧ t.phase = .looping backend pipeline ∧
      lastTook evs = some s ∧ s.vadThresholdStart = 0.9 ∧
      pipeline.vad.stateMachine.thresholdStart = 0.5 ∧
      pipeline.vad.stateMachine.thresholdStart ≠ s.vadThresholdStart := by
  obtain ⟨w, evs, w', t, backend, pipeline, hrun, -, -, hstep, ht, hphase, hstart, -⟩ :=
    run_twice_begin 0.5 0.3 0.9 0.8
  refine ⟨w', _, t, backend, pipeline, onDevice 0.9 0.8, Mealy.run_append hrun
    (Mealy.run_singleton hstep), ht, hphase, lastTook_took rfl, rfl, hstart, ?_⟩
  rw [hstart]
  show (0.5 : ℝ) ≠ 0.9
  norm_num

end Twice

end Larmindon
