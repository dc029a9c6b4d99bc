/-
# `BackendCache` — a cached backend is as good as a new one

The key of the cache is spread over three fields of the engine, which are set as
a session starts and partly cleared as it is joined.  The invariant ties them to
the model itself: while a session is there, to the settings it was started with;
while none is, to the key the cached model was loaded for.

    cached    the cached backend has a model, loaded for the key in the fields
    thread    nothing is cached, the key in the fields is that of the thread's
              settings, and so is that of its model

So a session that reuses a backend reuses a model loaded for its own key, and
`begin_session` leaves it as it leaves a new one (`cache_transparent`).
-/
import Larmindon.Coherence
import Larmindon.Nemotron.Derives

namespace Larmindon

open Nemotron (NemotronBackend Model)

variable {F St σ ρ : Type}

/-! ## The model of a backend -/

theorem Nemotron.Model.Derives.keyed {M : Model F σ} {key : ModelKey} {m : σ} {n : ModelKey × σ}
    (h : M.keyed.Derives (key, m) n) : n.1 = key ∧ M.Derives m n.2 := by
  induction h with
  | refl => exact ⟨rfl, .refl⟩
  | transcribe _ chunk ih => exact ⟨ih.1, ih.2.transcribe chunk⟩
  | reset _ ih => exact ⟨ih.1, ih.2.reset⟩

/-- A model that was loaded for the key, and has been used since. -/
def LoadedFor (P : Platform F St σ ρ) (key : ModelKey) (b : NemotronBackend F (ModelKey × σ)) : Prop :=
  ∃ m, b.model = some (key, m) ∧ P.model.Derives (P.loaded key) m

namespace Backend

/-- A backend in a session under this key. -/
def InSession (P : Platform F St σ ρ) (key : ModelKey) : Backend F σ → Prop
  | .nemotron b => key.asrProvider = "nemotron" ∧ LoadedFor P key b
  | .soniox => True

theorem InSession.reload {P : Platform F St σ ρ} {key : ModelKey} {b : Backend F σ}
    (h : b.InSession P key) (s : Option Settings) : (b.reload s).InSession P key := by
  cases s with
  | none => exact h
  | some s =>
      cases b with
      | nemotron b => exact h
      | soniox => trivial

theorem InSession.serve [Zero F] {P : Platform F St σ ρ} {key : ModelKey} {vadState : VadState}
    {answer : Except AsrError (List TranscriptUpdate)} {b b' : Backend F σ} {ids ids' : SegmentIds}
    {r : Request F} {results : List (Except AsrError (List TranscriptUpdate))}
    (h : b.InSession P key)
    (hs : Backend.serve P.model vadState answer (b, ids) r = some ((b', ids'), results)) :
    b'.InSession P key := by
  cases b with
  | soniox =>
      cases r with
      | _ =>
          cases hs
          trivial
  | nemotron b =>
      cases r with
      | call c =>
          cases hs
          obtain ⟨hp, m, hm, hd⟩ := h
          exact ⟨hp, m, (b.hear_model c).trans hm, hd⟩
      | poll =>
          cases hs
          exact h
      | process =>
          simp only [Backend.serve] at hs
          split at hs
          case h_1 => cases hs
          case h_2 =>
            cases hs
            exact h
          case h_3 b₁ ids₁ evs hp =>
            cases hs
            obtain ⟨hprovider, m, hm, hd⟩ := h
            obtain ⟨m₁, m₂, hm₁, hm₂, hd₂⟩ := NemotronBackend.process_derives hp
            obtain rfl : (key, m) = m₁ := Option.some.inj (hm.symm.trans hm₁)
            obtain ⟨key₂, m₂⟩ := m₂
            obtain ⟨rfl, hstate⟩ := hd₂.keyed
            exact ⟨hprovider, m₂, hm₂, hd.trans hstate⟩

theorem InSession.run [Zero F] {P : Platform F St σ ρ} {key : ModelKey} {vadState : VadState}
    {answer : Except AsrError (List TranscriptUpdate)} {b b' : Backend F σ} {ids ids' : SegmentIds}
    {rs : List (Request F)} {results : List (Except AsrError (List TranscriptUpdate))}
    (h : b.InSession P key)
    (hs : Mealy.run (Backend.serve P.model vadState answer) (b, ids) rs =
      some ((b', ids'), results)) : b'.InSession P key :=
  Mealy.run_sound (P := fun _ s _ => s.1.InSession P key)
    (fun _ _ _ _ _ _ hs hstep => InSession.serve hs hstep) h hs

/-- A backend in front of a session: a new one has no model yet. -/
def Ready (P : Platform F St σ ρ) (key : ModelKey) : Backend F σ → Prop
  | .nemotron b => key.asrProvider = "nemotron" ∧ (b.model = none ∨ LoadedFor P key b)
  | .soniox => True

theorem ready_createBackend {P : Platform F St σ ρ} {s : SessionSettings F}
    {cached : Option (Backend F σ)} {b : Backend F σ}
    (h : ∀ b ∈ cached, b.InSession P (s.modelKey P.home)) (hb : createBackend s cached = .ok b) :
    b.Ready P (s.modelKey P.home) := by
  rw [createBackend] at hb
  split at hb
  case isTrue hprovider =>
    cases hb
    generalize hreusable : cached.filter _ = reusable
    cases reusable with
    | none => exact ⟨hprovider, .inl rfl⟩
    | some b =>
        have hin := h b (Option.filter_eq_some_iff.mp hreusable).1
        cases b with
        | nemotron b => exact ⟨hin.1, .inr hin.2⟩
        | soniox => trivial
  case isFalse =>
    split at hb
    · cases hb
      trivial
    · cases hb

theorem Ready.beginSession {P : Platform F St σ ρ} {s : SessionSettings F} {i : SetUp}
    {b b' : Backend F σ} (h : b.Ready P (s.modelKey P.home)) (hb : b.beginSession P i s = .ok b') :
    b'.InSession P (s.modelKey P.home) := by
  cases b with
  | soniox =>
      obtain rfl := (Backend.connected_of_beginSession hb).2
      trivial
  | nemotron b =>
      obtain ⟨hprovider, hmodel⟩ := h
      rw [Backend.beginSession] at hb
      split at hb
      case h_2 => cases hb
      case h_1 begun evs hbegun =>
        cases hb
        rcases hmodel with hnone | ⟨m, hm, hd⟩
        · simp only [NemotronBackend.beginSession, hnone] at hbegun
          cases hl : i.loadModel with
          | error e =>
              rw [hl] at hbegun
              cases hbegun
          | ok u =>
              rw [hl] at hbegun
              cases hbegun
              exact ⟨hprovider, _, rfl, .refl⟩
        · simp only [NemotronBackend.beginSession, hm] at hbegun
          cases hbegun
          exact ⟨hprovider, _, rfl, hd.reset⟩

/-- A new session, on a backend that was made or was cached for its key. -/
theorem InSession.setUp [F32 F] {P : Platform F St σ ρ} {s : SessionSettings F} {inputRate : ℕ}
    {cached : Option (Backend F σ)} {cachedVad : Option (VadProcessor F St)} {i : SetUp}
    {b : Backend F σ} {pipeline : Pipeline F ρ (VadProcessor F St)}
    (h : ∀ b ∈ cached, b.InSession P (s.modelKey P.home))
    (hs : Larmindon.setUp P s inputRate cached cachedVad i = .ok (b, pipeline)) :
    b.InSession P (s.modelKey P.home) := by
  obtain ⟨created, vad, resampler, hcreated, -, hbegun, -⟩ := setUp_ok hs
  exact (ready_createBackend h hcreated).beginSession hbegun

end Backend

/-! ## The cache and its key -/

/-- The key in the fields of the engine. -/
def AudioEngine.Keyed (e : AudioEngine F St σ ρ) (key : ModelKey) : Prop :=
  e.cachedModelPath = some key.modelPath ∧
    e.cachedModelConfig = some (key.intraThreads, key.interThreads) ∧
    e.cachedBackendId = some key.asrProvider

/-- The backend of a thread, wherever it stands. -/
def Phase.InSession (P : Platform F St σ ρ) (key : ModelKey) : Phase F St σ ρ → Prop
  | .spawned cachedBackend _ => ∀ b ∈ cachedBackend, b.isCacheable ∧ b.InSession P key
  | .looping backend _ | .finished (some (backend, _)) => backend.InSession P key
  | .finished none | .panicked => True

structure CacheKept (P : Platform F St σ ρ) (e : AudioEngine F St σ ρ) : Prop where
  cached : ∀ b, e.cachedBackend = some b → e.processingThread = none ∧ b.isCacheable ∧
    ∃ key, b.InSession P key ∧ e.Keyed key
  thread : ∀ t, e.processingThread = some t →
    e.Keyed (t.settings.modelKey P.home) ∧ t.phase.InSession P (t.settings.modelKey P.home)

theorem CacheKept.untouched {P : Platform F St σ ρ} {e e' : AudioEngine F St σ ρ}
    (h : CacheKept P e) (hu : e.Untouched e') : CacheKept P e' where
  cached := by
    intro b hcached
    obtain ⟨hthread, hcacheable, key, hin, hkeyed⟩ := h.cached b (hu.cachedBackend ▸ hcached)
    refine ⟨hu.noThread hthread, hcacheable, key, hin, ?_⟩
    rwa [AudioEngine.Keyed, hu.cachedModelPath, hu.cachedModelConfig, hu.cachedBackendId]
  thread := by
    intro t' ht'
    obtain ⟨t, hthread, hsettings, hphase⟩ := hu.thread t' ht'
    rw [AudioEngine.Keyed, hu.cachedModelPath, hu.cachedModelConfig, hu.cachedBackendId, hsettings,
      hphase]
    exact h.thread t hthread

/-- A join caches the backend of a session that ended well, under the key in the fields. -/
theorem CacheKept.join {P : Platform F St σ ρ} {e e' : AudioEngine F St σ ρ}
    {evs : List (EngineEvent F)} (h : CacheKept P e) (hj : e.join = some (e', evs)) :
    CacheKept P e' := by
  -- next to a thread the cache is empty
  have hempty : ∀ t b, e.processingThread = some t → e.cachedBackend ≠ some b := by
    intro t b ht hb
    rw [(h.cached b hb).1] at ht
    cases ht
  cases AudioEngine.joined_of_join hj with
  | alone hnone =>
      exact h.untouched ⟨rfl, rfl, rfl, rfl, rfl, (by intro t ht; cases ht), fun _ => rfl⟩
  | cached ht hfinished hcacheable =>
      obtain ⟨⟨hpath, hconfig, hid⟩, hphase⟩ := h.thread _ ht
      rw [hfinished] at hphase
      refine ⟨?_, by intro t ht; cases ht⟩
      intro b hb
      cases hb
      exact ⟨rfl, hcacheable, _, hphase, hpath, hconfig, hid⟩
  | notCacheable ht _ | gaveUp ht _ | panicked ht _ =>
      exact ⟨fun b hb => absurd hb (hempty _ b ht), by intro t ht; cases ht⟩

theorem AudioEngine.Keyed.compatible {e : AudioEngine F St σ ρ} {home : Option String}
    {s : SessionSettings F} (h : e.Keyed (s.modelKey home)) : e.cachedCompatible home s = true := by
  obtain ⟨hpath, hconfig, hid⟩ := h
  simp [AudioEngine.cachedCompatible, hpath, hconfig, hid, SessionSettings.modelKey]

/-- A session that is spawned gets the cached backend where the key is its own. -/
theorem CacheKept.spawnSession {P : Platform F St σ ρ} {e : AudioEngine F St σ ρ}
    (h : CacheKept P e) (s : SessionSettings F) (info : ActiveSessionInfo) (stream : AudioStream) :
    CacheKept P (e.spawnSession P.home s info stream) where
  cached := by
    intro b hb
    cases hb
  thread := by
    intro t ht
    cases ht
    refine ⟨⟨rfl, rfl, rfl⟩, ?_⟩
    intro b hb
    obtain ⟨hcompatible, hb⟩ := Option.mem_ite_none_right.mp hb
    obtain ⟨-, hcacheable, key, hin, hpath, hconfig, hid⟩ := h.cached b hb
    refine ⟨hcacheable, ?_⟩
    simp only [AudioEngine.cachedCompatible, Bool.and_eq_true, decide_eq_true_eq, hpath, hconfig,
      hid, Option.some.injEq, Prod.mk.injEq] at hcompatible
    obtain ⟨provider, path, intra, inter⟩ := key
    obtain ⟨⟨rfl, rfl, rfl⟩, rfl⟩ := hcompatible
    exact hin

variable [F32 F]

theorem Phase.InSession.turn {P : Platform F St σ ρ} {t t' : Thread F St σ ρ}
    {ids ids' : SegmentIds} {m : ThreadMove F} {evs : List (EngineEvent F)}
    (h : t.phase.InSession P (t.settings.modelKey P.home)) (ht : Thread.Turn P t ids m t' ids' evs) :
    t'.settings = t.settings ∧ t'.phase.InSession P (t.settings.modelKey P.home) := by
  cases ht with
  | begun hphase hs =>
      rw [hphase] at h
      exact ⟨rfl, .setUp (fun b hb => (h b hb).2) hs⟩
  | crashed => exact ⟨rfl, trivial⟩
  | stopped hphase =>
      rw [hphase] at h
      exact ⟨rfl, h⟩
  | iterated hphase hp hb hphase' =>
      rw [hphase] at h
      have hin := (Backend.InSession.reload h _).run hb
      refine ⟨rfl, ?_⟩
      rcases hphase' with rfl | rfl
      · exact hin
      · exact hin
  | panicked => exact ⟨rfl, trivial⟩

theorem CacheKept.turn {P : Platform F St σ ρ} {w w' : World F St σ ρ} {m : Move F}
    {evs : List (EngineEvent F)} (h : CacheKept P w.engine) (ht : World.Turn P w m w' evs) :
    CacheKept P w'.engine := by
  cases ht with
  | receive _ c a => exact h.untouched (w.untouched_receive c a)
  | join _ hj => exact h.join hj
  | opened => exact h
  | failed => exact h
  | spawn => exact h.spawnSession _ _ _
  | switchSource => exact h.untouched (w.engine.untouched_switchSource _ _)
  | thread hthread hturn =>
      obtain ⟨hkeyed, hphase⟩ := h.thread _ hthread
      obtain ⟨hsettings, hphase'⟩ := hphase.turn hturn
      refine ⟨?_, ?_⟩
      · intro b hb
        rw [(h.cached b hb).1] at hthread
        cases hthread
      · intro t ht
        cases ht
        rw [hsettings]
        exact ⟨hkeyed, hphase'⟩

/-! ## A session that reuses a backend -/

/-- The cache of backends does not show.  Where resetting a model brings it back to what it was when
it was loaded: in every run, a session to which a cached backend was handed uses it, its model was
loaded for the provider, the expanded path and the threads of this session's settings, and
`begin_session` leaves it exactly as it leaves a new backend with the same settings. -/
theorem cache_transparent {P : Platform F St σ ρ}
    (hreset : ∀ key m, P.model.Derives (P.loaded key) m → P.model.reset m = P.loaded key)
    {diagEnabled : Bool} {moves : List (Move F)} {w : World F St σ ρ} {evs : List (EngineEvent F)}
    (hrun : Mealy.run (World.step P) (.new diagEnabled) moves = some (w, evs))
    {t : Thread F St σ ρ} {b : Backend F σ} {cachedVad : Option (VadProcessor F St)}
    (ht : w.engine.processingThread = some t) (hphase : t.phase = .spawned (some b) cachedVad) :
    let key := t.settings.modelKey P.home
    let new : NemotronBackend F (ModelKey × σ) := .new
    createBackend t.settings (some b) = .ok b ∧
    ∃ cached m begun, b = .nemotron cached ∧ cached.model = some (key, m) ∧
      (∀ load, cached.beginSession P.model.keyed load t.settings.toSettings =
        .ok (begun, [.reset .session])) ∧
      new.beginSession P.model.keyed (.ok (key, P.loaded key)) t.settings.toSettings =
        .ok (begun, []) := by
  have hkept : CacheKept P w.engine := by
    refine Mealy.run_sound (P := fun _ w _ => CacheKept P w.engine) ?_ ?_ hrun
    · intro is w₁ os m w₂ os' hkept hstep
      exact hkept.turn (World.turn_of_step hstep)
    · refine ⟨?_, ?_⟩
      · intro b hb
        cases hb
      · intro t ht
        cases ht
  have hin := (hkept.thread t ht).2
  rw [hphase] at hin
  obtain ⟨hcacheable, hin⟩ := hin b rfl
  cases b with
  | soniox => cases hcacheable
  | nemotron cached =>
      obtain ⟨hprovider, m, hm, hd⟩ := hin
      have hprovider : t.settings.asrProvider = "nemotron" := hprovider
      refine ⟨?_, cached, m, _, rfl, hm, ?_, rfl⟩
      · rw [createBackend, if_pos hprovider, hprovider]
        rfl
      · intro load
        simp only [NemotronBackend.beginSession, hm]
        show Except.ok (cached.started _ (_, P.model.reset m), _) = _
        rw [hreset _ m hd]
        rfl

/-! ## Two sessions, of which the second reuses the models of the first -/

section Twice

open World

/-- The key of both. -/
def onDeviceKey : ModelKey := ⟨"nemotron", "/home/user/models/nemotron", 2, 1⟩

theorem modelKey_onDevice (thresholdStart thresholdEnd : F) :
    (onDevice thresholdStart thresholdEnd).modelKey still.home = onDeviceKey := by
  show (⟨"nemotron", expandTilde (some "/home/user") "~/models/nemotron", 2, 1⟩ : ModelKey) = _
  decide +kernel

/-- Whatever their thresholds are. -/
theorem run_twice (a b c d : ℝ) : ∃ w evs t cached vad,
    Mealy.run (step still) (new true)
      (startOn "41" (onDevice a b) ++ beginAndStop ++ startOn "42" (onDevice c d)) = some (w, evs) ∧
    evs = [.took (onDevice a b)] ∧
    w.doing = .idle ∧ w.engine.processingThread = some t ∧ t.settings = onDevice c d ∧
    t.phase = .spawned (some (.nemotron cached)) (some vad) ∧
    cached.model = some (onDeviceKey, ()) ∧ vad = .new still.network a b 500 250 500 := by
  obtain ⟨w₁, evs₁, cached, hrun₁, hevs, hd, ht, hkeyed, hb, hm, hv⟩ : ∃ w₁ evs₁ cached,
      Mealy.run (step still) (new true) (startOn "41" (onDevice a b) ++ beginAndStop) =
        some (w₁, evs₁) ∧ evs₁ = [.took (onDevice a b)] ∧ w₁.doing = .idle ∧
      w₁.engine.processingThread = none ∧
      w₁.engine.Keyed ((onDevice a b).modelKey still.home) ∧
      w₁.engine.cachedBackend = some (.nemotron cached) ∧
      cached.model = some ((onDevice a b).modelKey still.home, ()) ∧
      w₁.engine.cachedVad = some (.new still.network a b 500 250 500) :=
    ⟨_, _, _, rfl, rfl, rfl, rfl, ⟨rfl, rfl, rfl⟩, rfl, rfl, rfl⟩
  rw [modelKey_onDevice] at hkeyed hm
  rw [← modelKey_onDevice c d] at hkeyed
  have hcompatible : w₁.engine.signalStop.release.cachedCompatible still.home (onDevice c d) = true :=
    AudioEngine.Keyed.compatible hkeyed
  refine ⟨_, _, _, cached, _, Mealy.run_append hrun₁ (run_startOn hd ht "42" (onDevice c d)), ?_,
    rfl, rfl, rfl, ?_, hm, rfl⟩
  · rw [hevs]
    rfl
  show Phase.spawned
    (if w₁.engine.signalStop.release.cachedCompatible still.home (onDevice c d) then
      w₁.engine.cachedBackend else none)
    (if w₁.engine.signalStop.release.cachedCompatible still.home (onDevice c d) then
      w₁.engine.cachedVad else none) = _
  rw [hcompatible, hb, hv]
  rfl

theorem cache_transparent_twice :
    ∃ w evs t cached vad, Mealy.run (step still) (new true) (startOn "41" (onDevice 0.5 0.3) ++
        beginAndStop ++ startOn "42" (onDevice 0.5 0.3)) = some (w, evs) ∧
      w.engine.processingThread = some t ∧ t.phase = .spawned (some (.nemotron cached)) (some vad) ∧
      cached.model = some (onDeviceKey, ()) ∧
      createBackend t.settings (some (.nemotron cached)) = .ok (.nemotron cached) := by
  obtain ⟨w, evs, t, cached, vad, hrun, -, -, ht, -, hphase, hm, -⟩ := run_twice 0.5 0.3 0.5 0.3
  obtain ⟨hcreate, -⟩ := cache_transparent (fun _ _ _ => rfl) hrun ht hphase
  exact ⟨w, evs, t, cached, vad, hrun, ht, hphase, hm, hcreate⟩

end Twice

end Larmindon
