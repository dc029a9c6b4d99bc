/-
# `Rates` — the rate the audio comes at, and the rate it is resampled from

A session's thread is told once, when it is spawned, at which rate the audio in
the buffer is to be read; it resamples from there to 16 kHz.  The buffer outlives
the stream that fills it: a `Reconnect` puts another one behind it.

`start_session` reads the rate off the metadata of the stream it started.
`reconnect_stream` does not look at the metadata at all, so what it switches to
is read at the rate of the stream before (`reconnect_slows_down`).  The two rates
agree throughout a run exactly where every stream that a `Reconnect` starts comes
at the rate of the session's thread (`rates_agree_iff`).
-/
import Larmindon.Coherence

namespace Larmindon

variable {F St σ ρ : Type}

namespace World

/-- The stream that fills the buffer: the one the engine holds, or the one it just started. -/
def filling (w : World F St σ ρ) : Option AudioStream :=
  match w.doing with
  | .spawning _ _ stream | .switching stream => some stream
  | .idle | .joining _ | .starting _ _ => w.engine.activeStream

/-- The thread resamples from the rate of the stream that fills the buffer. -/
def RatesAgree (w : World F St σ ρ) : Prop :=
  ∀ t stream, w.engine.processingThread = some t → w.filling = some stream →
    stream.sampleRate = t.inputRate

/-- The stream a `Reconnect` starts for a session comes at the rate of the session's thread. -/
def SameRate (w : World F St σ ρ) : Move F → Prop
  | .receive (.reconnect _) a => ∀ metadata t, a.start = .ok metadata →
      w.engine.activeBuffer.isSome → w.engine.processingThread = some t →
      metadata.sampleRate = t.inputRate
  | _ => True

/-- The invariant: beside the rates, that a session is not begun beside another one's thread. -/
structure Paced (w : World F St σ ρ) : Prop where
  rates : w.RatesAgree
  alone : ∀ deviceId settings, w.doing = .starting deviceId settings → w.engine.processingThread = none

/-! ## Every step -/

/-- Where no stream fills the buffer, or none is read, the rates agree. -/
theorem RatesAgree.of_filling_none {w : World F St σ ρ} (h : w.filling = none) : w.RatesAgree := by
  intro t stream _ hstream
  rw [h] at hstream
  cases hstream

theorem RatesAgree.of_thread_none {w : World F St σ ρ} (h : w.engine.processingThread = none) :
    w.RatesAgree := by
  intro t stream ht
  rw [h] at ht
  cases ht

/-- A thread keeps its rate. -/
theorem inputRate_turn [F32 F] {P : Platform F St σ ρ} {t t' : Thread F St σ ρ}
    {ids ids' : SegmentIds} {m : ThreadMove F} {evs : List (EngineEvent F)}
    (h : Thread.Turn P t ids m t' ids' evs) : t'.inputRate = t.inputRate := by
  cases h <;> rfl

theorem inputRate_updateSettings {e : AudioEngine F St σ ρ} {s : SessionSettings F}
    {t' : Thread F St σ ρ} (h : (e.updateSettings s).processingThread = some t') :
    ∃ t, e.processingThread = some t ∧ t'.inputRate = t.inputRate := by
  rw [AudioEngine.updateSettings] at h
  cases htx : e.settingsTx with
  | none =>
      rw [htx] at h
      exact ⟨t', h, rfl⟩
  | some tx =>
      rw [htx] at h
      obtain ⟨t, ht, rfl⟩ := Option.map_eq_some_iff.mp h
      exact ⟨t, ht, rfl⟩

/-- A command, from a state in which the rates agree. -/
theorem paced_receive {w : World F St σ ρ} (h : w.RatesAgree) (hd : w.doing = .idle)
    {c : Command F} {a : CaptureAnswers} (hc : w.SameRate (.receive c a)) :
    (w.receive a c).1.Paced := by
  obtain ⟨engine, doing, ids⟩ := w
  obtain rfl : doing = .idle := hd
  cases c with
  | listDevices => exact ⟨h, by rintro _ _ ⟨⟩⟩
  | start deviceId settings => exact ⟨.of_filling_none rfl, by rintro _ _ ⟨⟩⟩
  | stop => exact ⟨.of_filling_none rfl, by rintro _ _ ⟨⟩⟩
  | updateSettings settings =>
      refine ⟨?_, by rintro _ _ ⟨⟩⟩
      intro t' stream ht' hstream
      obtain ⟨t, ht, hrate⟩ := inputRate_updateSettings ht'
      rw [hrate]
      exact h t stream ht hstream
  | reconnect deviceId =>
      rw [receive]
      cases hbuffer : engine.activeBuffer with
      | none => exact ⟨h, by rintro _ _ ⟨⟩⟩
      | some buffer =>
          cases hstart : a.start with
          | error e => exact ⟨.of_filling_none rfl, by rintro _ _ ⟨⟩⟩
          | ok metadata =>
              refine ⟨?_, by rintro _ _ ⟨⟩⟩
              intro t stream ht hstream
              obtain rfl := Option.some.inj hstream
              refine hc metadata t hstart ?_ ht
              show engine.activeBuffer.isSome
              rw [hbuffer]
              rfl

/-- A `Reconnect` to a stream at another rate: the rates do not agree as soon as it has started. -/
theorem rates_part {w : World F St σ ρ} {deviceId : String} {a : CaptureAnswers}
    (hc : ¬ w.SameRate (.receive (.reconnect deviceId) a)) :
    ¬ (w.receive a (.reconnect deviceId)).1.RatesAgree := by
  intro hrates
  refine hc ?_
  intro metadata t hstart hbuffer ht
  obtain ⟨buffer, hbuffer⟩ := Option.isSome_iff_exists.mp hbuffer
  refine hrates t ⟨deviceId, metadata.sampleRate⟩ ?_ ?_
  · rw [receive, hbuffer]
    simp only [hstart]
    exact ht
  · rw [receive, hbuffer]
    simp only [hstart]
    rfl

variable [F32 F]

theorem paced_turn {P : Platform F St σ ρ} {w w' : World F St σ ρ} {m : Move F}
    {evs : List (EngineEvent F)} (ht : Turn P w m w' evs) (h : w.Paced) (hc : w.SameRate m) :
    w'.Paced := by
  obtain ⟨engine, doing, ids⟩ := w
  cases ht with
  | receive hd c a => exact paced_receive h.rates hd hc
  | join hd hj =>
      obtain ⟨-, cachedBackend, cachedBackendId, cachedVad, rfl, -⟩ := AudioEngine.join_spec hj
      exact ⟨.of_thread_none rfl, fun _ _ _ => rfl⟩
  | opened hd ho =>
      obtain rfl : doing = _ := hd
      exact ⟨.of_thread_none (h.alone _ _ rfl), by rintro _ _ ⟨⟩⟩
  | failed hd message =>
      obtain rfl : doing = _ := hd
      exact ⟨.of_thread_none (h.alone _ _ rfl), by rintro _ _ ⟨⟩⟩
  | spawn hd =>
      refine ⟨?_, by rintro _ _ ⟨⟩⟩
      -- the thread is spawned with the rate of the stream
      intro t stream ht hstream
      cases ht
      cases hstream
      rfl
  | switchSource hd a =>
      obtain rfl : doing = _ := hd
      exact ⟨h.rates, by rintro _ _ ⟨⟩⟩
  | @thread t t' m ids' evs ht hturn =>
      refine ⟨?_, ?_⟩
      · intro t₁ stream ht₁ hstream
        obtain rfl := Option.some.inj ht₁
        rw [inputRate_turn hturn]
        refine h.rates t stream ht ?_
        cases doing <;> exact hstream
      · rintro deviceId settings hd
        have hnone : engine.processingThread = none := h.alone deviceId settings hd
        have hsome : engine.processingThread = some t := ht
        rw [hnone] at hsome
        cases hsome

/-- Along every run of the engine, whatever it captures from and whatever the commands: the thread
resamples from the rate of the stream that fills the buffer in every state on the way exactly where
each stream that a `Reconnect` starts comes at the rate of the session's thread. -/
theorem rates_agree_iff {P : Platform F St σ ρ} {diagEnabled : Bool} {moves : List (Move F)}
    {w : World F St σ ρ} {evs : List (EngineEvent F)}
    (hrun : Mealy.run (step P) (new diagEnabled) moves = some (w, evs)) :
    Mealy.Throughout (step P) RatesAgree (new diagEnabled) moves ↔
      Mealy.Along (step P) SameRate (new diagEnabled) moves := by
  refine Mealy.throughout_iff_along (fun (w : World F St σ ρ) (h : w.Paced) => h.rates) ?_ ?_ ?_ hrun
  · intro w₁ m w₂ evs₁ h hc hs
    exact paced_turn (turn_of_step hs) h hc
  · intro w₁ m w₂ evs₁ h hc hs
    cases turn_of_step hs with
    | receive hd c a =>
        cases c with
        | reconnect deviceId => exact rates_part hc
        | _ => exact absurd trivial hc
    | _ => exact absurd trivial hc
  · exact ⟨.of_thread_none rfl, by rintro _ _ ⟨⟩⟩

/-! ## Two runs -/

section Runs

/-- A capture backend that captures at 44.1 kHz. -/
def capturesSlower : CaptureAnswers := ⟨.ok [], .ok [], .ok ⟨44100, 1, "F32LE"⟩⟩

/-- A session that is moved to a device of the same rate: the rates agree all along. -/
theorem rates_agree_moved :
    Mealy.Throughout (step still) RatesAgree (new true) (startOn "41" (onDevice (0.5 : ℝ) 0.3) ++
      [.receive (.reconnect "42") captures, .switchSource captures]) := by
  have hrun : Mealy.run (step still) (new true) (startOn "41" (onDevice (0.5 : ℝ) 0.3) ++
      [.receive (.reconnect "42") captures, .switchSource captures]) = some (_, _) := rfl
  refine (rates_agree_iff hrun).mpr ?_
  rw [Mealy.along_append_iff (run_startOn rfl rfl "41" (onDevice 0.5 0.3))]
  refine ⟨.of_forall (by simp [startOn, SameRate]) _, ?_, fun _ _ _ => ⟨trivial, fun _ _ _ => trivial⟩⟩
  intro metadata t hstart _ ht
  cases hstart
  cases ht
  rfl

/-- A session on a device at 48 kHz, moved to one at 44.1 kHz, which goes on to be read at 48. -/
theorem reconnect_slows_down :
    ∃ w evs t, Mealy.run (step still) (new true) (startOn "41" (onDevice (0.5 : ℝ) 0.3) ++
        [.receive (.reconnect "42") capturesSlower, .switchSource capturesSlower]) = some (w, evs) ∧
      w.doing = .idle ∧ w.engine.activeStream = some ⟨"42", 44100⟩ ∧
      w.engine.processingThread = some t ∧ t.inputRate = 48000 ∧ ¬ w.RatesAgree := by
  refine ⟨_, _, _, rfl, rfl, rfl, rfl, rfl, ?_⟩
  intro h
  cases h _ _ rfl rfl

end Runs

end World

end Larmindon
