/-
# `Gating` — which audio the frame loop hands to a backend

The frame loop of the engine asks the VAD state machine about each frame and
turns the answer into calls of the backend.  `AudioGating.route` is its match,
for both kinds of backend; `gatedRun` is the loop over a list of frames.

A backend that is gated by the VAD gets windows of the captured stream: with C
the capacity of the ring,

    frames     ..............[started].....[ended].......[started]......
    windows            <-- C |-------------------|   <--|-------------
                             onset            stop

each opened at the onset of speech, reaching back over the last `C` samples but
never into the window before it, and stopping where the speech ends
(`gated_windows`).
-/
import Larmindon.Lib.Mealy
import Larmindon.Lib.Windows
import Larmindon.Vad

namespace Larmindon

open Windows (Window Follow)

variable {S P : Type}

/-! ## The calls of the frame loop -/

/-- How the pipeline routes audio into a backend. -/
inductive AudioGating where
  | vadGated
  | continuous
  deriving DecidableEq, Repr

/-- A call the frame loop makes on the backend; the times `mark_speech_end` is told are left out. -/
inductive BackendCall (S : Type) where
  | markSpeechStart
  | pushAudio (samples : List S)
  | markSpeechEnd
  deriving DecidableEq, Repr

/-- The match of the frame loop on the gating and the decision. -/
def AudioGating.route : AudioGating → VadDecision S → List S → List (BackendCall S)
  | .vadGated, .silence, _ => []
  | .vadGated, .speechStarted preSpeechSamples, frame =>
      [.markSpeechStart, .pushAudio preSpeechSamples, .pushAudio frame]
  | .vadGated, .speechContinues, frame => [.pushAudio frame]
  | .vadGated, .speechEnded, frame => [.pushAudio frame, .markSpeechEnd]
  -- Every frame once, and never the ring: its samples already went out as frames.
  | .continuous, .speechStarted _, frame => [.pushAudio frame, .markSpeechStart]
  | .continuous, .speechEnded, frame => [.pushAudio frame, .markSpeechEnd]
  | .continuous, .silence, frame => [.pushAudio frame]
  | .continuous, .speechContinues, frame => [.pushAudio frame]

/-- The machine over frames and their probabilities; it writes each decision with its frame. -/
def VadStateMachine.frame [LE P] [DecidableLE P] :
    Mealy.Step (VadStateMachine S P) (P × List S) (VadDecision S × List S) := fun m i =>
  match m.process i.1 i.2 with
  | none => none
  | some (d, m') => some (m', [(d, i.2)])

/-- The calls made for a list of frames already decided on. -/
def AudioGating.calls (gating : AudioGating) (fs : List (VadDecision S × List S)) :
    List (BackendCall S) :=
  fs.flatMap fun f => gating.route f.1 f.2

/-! ## The audio of the calls, and the frames it comes from -/

/-- All the samples pushed. -/
def pushed (cs : List (BackendCall S)) : List S :=
  cs.flatMap fun
    | .pushAudio samples => samples
    | .markSpeechStart | .markSpeechEnd => []

/-- One call more: a mark of speech opens an utterance, and audio goes to the last one open. -/
def addCall (us : List (List S)) : BackendCall S → List (List S)
  | .markSpeechStart => us ++ [[]]
  | .pushAudio samples => us.dropLast ++ [us.getLastD [] ++ samples]
  | .markSpeechEnd => us

/-- The audio pushed, from mark of speech to mark of speech. -/
def utterances (cs : List (BackendCall S)) : List (List S) := cs.foldl addCall []

/-- The concatenated frame stream. -/
def stream (fs : List (VadDecision S × List S)) : List S := fs.flatMap Prod.snd

/-- Each decision with where its frame begins and stops in the stream. -/
def spans : ℕ → List (VadDecision S × List S) → List (VadDecision S × ℕ × ℕ)
  | _, [] => []
  | pos, (d, frame) :: fs => (d, pos, pos + frame.length) :: spans (pos + frame.length) fs

/-- Where the frames that start speech begin. -/
def onsets (fs : List (VadDecision S × List S)) : List ℕ :=
  (spans 0 fs).flatMap fun
    | (.speechStarted _, start, _) => [start]
    | (.silence, _) | (.speechContinues, _) | (.speechEnded, _) => []

/-- Where the frames that end speech stop. -/
def ends (fs : List (VadDecision S × List S)) : List ℕ :=
  (spans 0 fs).flatMap fun
    | (.speechEnded, _, stop) => [stop]
    | (.silence, _) | (.speechStarted _, _) | (.speechContinues, _) => []

theorem flatten_addCall (us : List (List S)) (c : BackendCall S) :
    (addCall us c).flatten = us.flatten ++ pushed [c] := by
  cases c with
  | markSpeechStart => simp [addCall, pushed]
  | markSpeechEnd => simp [addCall, pushed]
  | pushAudio samples =>
      cases us using List.reverseRecOn with
      | nil => simp [addCall, pushed]
      | append_singleton us u => simp [addCall, pushed]

/-- The utterances are all the audio. -/
theorem flatten_utterances (cs : List (BackendCall S)) : (utterances cs).flatten = pushed cs := by
  induction cs using List.reverseRecOn with
  | nil => rfl
  | append_singleton cs c ih =>
      rw [utterances, List.foldl_append, List.foldl_cons, List.foldl_nil, flatten_addCall]
      show (utterances cs).flatten ++ _ = _
      rw [ih, pushed, pushed, pushed, List.flatMap_append]

@[simp] theorem stream_snoc (fs : List (VadDecision S × List S)) (f : VadDecision S × List S) :
    stream (fs ++ [f]) = stream fs ++ f.2 := by
  simp [stream]

@[simp] theorem calls_snoc (gating : AudioGating) (fs : List (VadDecision S × List S))
    (f : VadDecision S × List S) :
    gating.calls (fs ++ [f]) = gating.calls fs ++ gating.route f.1 f.2 := by
  simp [AudioGating.calls]

@[simp] theorem utterances_append (cs ds : List (BackendCall S)) :
    utterances (cs ++ ds) = ds.foldl addCall (utterances cs) :=
  List.foldl_append

theorem spans_snoc (fs : List (VadDecision S × List S)) (d : VadDecision S) (frame : List S) :
    ∀ pos, spans pos (fs ++ [(d, frame)]) = spans pos fs ++
      [(d, pos + (stream fs).length, pos + (stream fs).length + frame.length)] := by
  induction fs with
  | nil => intro pos; rfl
  | cons f fs ih =>
      intro pos
      have hlen : (stream (f :: fs)).length = f.2.length + (stream fs).length := by simp [stream]
      show (f.1, pos, pos + f.2.length) :: spans (pos + f.2.length) (fs ++ [(d, frame)]) = _
      rw [ih (pos + f.2.length), hlen, Nat.add_assoc pos]
      rfl

theorem onsets_snoc (fs : List (VadDecision S × List S)) (d : VadDecision S) (frame : List S) :
    onsets (fs ++ [(d, frame)]) = onsets fs ++
      match d with
      | .speechStarted _ => [(stream fs).length]
      | .silence | .speechContinues | .speechEnded => [] := by
  rw [onsets, spans_snoc, List.flatMap_append, Nat.zero_add]
  cases d <;> simp [onsets]

theorem ends_snoc (fs : List (VadDecision S × List S)) (d : VadDecision S) (frame : List S) :
    ends (fs ++ [(d, frame)]) = ends fs ++
      match d with
      | .speechEnded => [(stream fs).length + frame.length]
      | .silence | .speechStarted _ | .speechContinues => [] := by
  rw [ends, spans_snoc, List.flatMap_append, Nat.zero_add]
  cases d <;> simp [ends]

/-! ## The order of the decisions -/

/-- The state a decision is made in. -/
def VadDecision.origin : VadDecision S → VadState
  | .silence | .speechStarted _ => .silence
  | .speechContinues | .speechEnded => .speech

/-- The state a decision leaves. -/
def VadDecision.state : VadDecision S → VadState
  | .silence | .speechEnded => .silence
  | .speechStarted _ | .speechContinues => .speech

/-- Decisions in an order the state machine can make them in, from a state on. -/
def Ordered : VadState → List (VadDecision S × List S) → Prop
  | _, [] => True
  | s, f :: fs => f.1.origin = s ∧ Ordered f.1.state fs

instance Ordered.decidable : ∀ (s : VadState) (fs : List (VadDecision S × List S)),
    Decidable (Ordered s fs)
  | _, [] => isTrue trivial
  | s, f :: fs =>
      have := Ordered.decidable f.1.state fs
      inferInstanceAs (Decidable (f.1.origin = s ∧ Ordered f.1.state fs))

/-- The state after a list of decisions. -/
def stateAfter (s : VadState) (fs : List (VadDecision S × List S)) : VadState :=
  fs.foldl (fun _ f => f.1.state) s

theorem stateAfter_append (s : VadState) (fs gs : List (VadDecision S × List S)) :
    stateAfter s (fs ++ gs) = stateAfter (stateAfter s fs) gs :=
  List.foldl_append

theorem ordered_append {s : VadState} {fs gs : List (VadDecision S × List S)} :
    Ordered s (fs ++ gs) ↔ Ordered s fs ∧ Ordered (stateAfter s fs) gs := by
  induction fs generalizing s with
  | nil => simp [Ordered, stateAfter]
  | cons f fs ih =>
      show f.1.origin = s ∧ Ordered f.1.state (fs ++ gs) ↔
        (f.1.origin = s ∧ Ordered f.1.state fs) ∧ Ordered (stateAfter f.1.state fs) gs
      rw [ih, and_assoc]

section Decisions

variable [LE P] [DecidableLE P]

/-- A decision is made in the state the machine is in, and leaves the one the machine is in then. -/
theorem VadStateMachine.process_decides {m m' : VadStateMachine S P} {prob : P} {frame : List S}
    {d : VadDecision S} (h : m.process prob frame = some (d, m')) :
    d.origin = m.state ∧ d.state = m'.state := by
  cases moves_of_process h with
  | kept hs | continues hs => exact ⟨hs.symm, hs.symm⟩
  | started hs | ended hs => exact ⟨hs.symm, rfl⟩

/-- The decisions of a run come in order. -/
theorem VadStateMachine.run_ordered {m m' : VadStateMachine S P} {inputs : List (P × List S)}
    {fs : List (VadDecision S × List S)} (h : Mealy.run VadStateMachine.frame m inputs = some (m', fs)) :
    Ordered m.state fs ∧ stateAfter m.state fs = m'.state := by
  apply Mealy.run_sound (P := fun _ (m' : VadStateMachine S P) fs =>
    Ordered m.state fs ∧ stateAfter m.state fs = m'.state) ?_ ⟨trivial, rfl⟩ h
  rintro is m₁ fs₁ ⟨prob, frame⟩ m₂ fs₂ ⟨ho, hs⟩ hstep
  cases hp : m₁.process prob frame with
  | none => simp [VadStateMachine.frame, hp] at hstep
  | some r =>
      obtain ⟨d, m₃⟩ := r
      simp only [VadStateMachine.frame, hp, Option.some.injEq, Prod.mk.injEq] at hstep
      obtain ⟨rfl, rfl⟩ := hstep
      obtain ⟨horigin, hstate⟩ := VadStateMachine.process_decides hp
      rw [ordered_append, stateAfter_append, hs]
      exact ⟨⟨ho, horigin, trivial⟩, hstate⟩

end Decisions

/-! ## Gated windows -/

/-- A machine just created, or just reset. -/
inductive VadStateMachine.Initial [Zero S] : VadStateMachine S P → Prop
  | new (thresholdStart thresholdEnd : P) (minSilenceDurationMs minSpeechDurationMs : UInt32)
      (preSpeechMs : ℕ) :
      Initial (.new thresholdStart thresholdEnd minSilenceDurationMs minSpeechDurationMs preSpeechMs)
  | reset (m : VadStateMachine S P) : Initial m.reset

theorem VadStateMachine.Initial.silent [Zero S] {m : VadStateMachine S P} (h : m.Initial)
    (hC : 0 < m.ringBuffer.capacity) : m.state = .silence ∧ m.ringBuffer.Holds [] := by
  cases h with
  | new => exact ⟨rfl, .new hC⟩
  | reset m => exact ⟨rfl, .new hC⟩

/-- The audio a gated backend is pushed while the frames are decided on, and the machine ends in
`state`: windows of the frame stream, one for each start of speech.  Each stops with the frame that
ends its speech, or with the stream where speech goes on. -/
structure Delivered (C : ℕ) (fs : List (VadDecision S × List S)) (state : VadState)
    (ws : List Window) (last : ℕ) : Prop where
  audio : utterances (AudioGating.vadGated.calls fs) = ws.map fun w => w.of (stream fs)
  onsets : ws.map Window.onset = onsets fs
  stops : ws.map Window.stop = ends fs ++
    match state with
    | .silence => []
    | .speech => [(stream fs).length]
  follow : Follow C ws last
  inside : last ≤ (stream fs).length

/-- The invariant of a run: what was delivered, and in the ring what would be at the next onset. -/
structure Gated (C : ℕ) (fs : List (VadDecision S × List S)) (m : VadStateMachine S P)
    (ws : List Window) (last : ℕ) : Prop extends Delivered C fs m.state ws last where
  capacity : m.ringBuffer.capacity = C
  ring : m.ringBuffer.Holds (match m.state with
    | .silence => (stream fs).drop last
    | .speech => [])

variable {C : ℕ} {fs : List (VadDecision S × List S)} {m m' : VadStateMachine S P}
  {ws : List Window} {last : ℕ}

/-- A stream that grows leaves the windows as they are. -/
theorem Delivered.of_grown {state : VadState} (h : Delivered C fs state ws last) (frame : List S) :
    (ws.map fun w => w.of (stream fs ++ frame)) = ws.map fun w => w.of (stream fs) := by
  apply List.map_congr_left
  intro w hw
  exact Window.of_append ((h.follow.stop_le w hw).trans h.inside) frame

/-- A frame of silence: nothing is delivered. -/
theorem Delivered.silence (h : Delivered C fs .silence ws last) (frame : List S) :
    Delivered C (fs ++ [(.silence, frame)]) .silence ws last where
  audio := by
    rw [calls_snoc, stream_snoc, h.of_grown frame, ← h.audio]
    simp [AudioGating.route]
  onsets := by rw [onsets_snoc, h.onsets, List.append_nil]
  stops := by
    rw [ends_snoc, h.stops]
    simp
  follow := h.follow
  inside := by
    rw [stream_snoc, List.length_append]
    exact h.inside.trans (Nat.le_add_right _ _)

/-- The onset of speech: a window is opened, with the ring in front of the frame. -/
theorem Delivered.started (h : Delivered C fs .silence ws last) (frame : List S) :
    Delivered C (fs ++ [(.speechStarted (((stream fs).drop last).rtake C), frame)]) .speech
      (ws ++ [⟨(stream fs).length - min C ((stream fs).length - last), (stream fs).length,
        (stream fs).length + frame.length⟩]) ((stream fs).length + frame.length) where
  audio := by
    rw [calls_snoc, stream_snoc, List.map_append, h.of_grown frame, ← h.audio, List.map_singleton,
      Window.of_open h.inside]
    simp [AudioGating.route, addCall]
  onsets := by rw [onsets_snoc, List.map_append, h.onsets, List.map_singleton]
  stops := by
    rw [ends_snoc, List.map_append, h.stops, List.map_singleton, stream_snoc, List.length_append,
      List.append_nil]
  follow := h.follow.open h.inside frame.length
  inside := by rw [stream_snoc, List.length_append]

/-- A frame of speech, or the one that ends it: the window still open grows by it. -/
theorem Delivered.grown (h : Delivered C fs .speech ws last) (frame : List S) {d : VadDecision S}
    {state : VadState} (hd : d = .speechContinues ∧ state = .speech ∨
      d = .speechEnded ∧ state = .silence) :
    ∃ ws', Delivered C (fs ++ [(d, frame)]) state ws' ((stream fs).length + frame.length) := by
  have hne : ws ≠ [] := by
    intro h0
    have hs := h.stops
    simp [h0] at hs
  obtain ⟨us, w, prev, rfl, hlast, hf, after, reach, opened⟩ := h.follow.last_inv hne
  have hstops := h.stops
  rw [List.map_append, List.map_singleton] at hstops
  obtain ⟨hends, hstop⟩ := List.append_inj' hstops rfl
  have hstop : w.stop = (stream fs).length := by simpa using hstop
  have hinit : (us.map fun v => v.of (stream fs ++ frame)) = us.map fun v => v.of (stream fs) := by
    apply List.map_congr_left
    intro v hv
    exact Window.of_append (by have := hf.stop_le v hv; omega) frame
  refine ⟨us ++ [{ w with stop := (stream fs).length + frame.length }], ?_, ?_, ?_, ?_, ?_⟩
  · rw [stream_snoc, List.map_append, hinit, List.map_singleton,
      Window.of_grow (by omega) hstop, calls_snoc, utterances_append, h.audio, List.map_append,
      List.map_singleton]
    rcases hd with ⟨rfl, -⟩ | ⟨rfl, -⟩ <;> simp [AudioGating.route, addCall]
  · rw [onsets_snoc, List.map_append, List.map_singleton, ← h.onsets, List.map_append]
    rcases hd with ⟨rfl, -⟩ | ⟨rfl, -⟩ <;> simp
  · rw [ends_snoc, stream_snoc, List.length_append, List.map_append, List.map_singleton, hends]
    rcases hd with ⟨rfl, rfl⟩ | ⟨rfl, rfl⟩ <;> simp
  · exact hf.snoc { w with stop := (stream fs).length + frame.length } after reach (by
      show w.onset ≤ (stream fs).length + frame.length
      omega)
  · rw [stream_snoc, List.length_append]

section Run

variable [LE P] [DecidableLE P]

/-- One frame, by the case of what it does. -/
theorem Gated.frame (h : Gated C fs m ws last) (i : P × List S) :
    ∃ d m' ws' last', VadStateMachine.frame m i = some (m', [(d, i.2)]) ∧
      Gated C (fs ++ [(d, i.2)]) m' ws' last' := by
  obtain ⟨prob, frame⟩ := i
  obtain ⟨d, m', xs', hp, hg, hring, hcap⟩ := VadStateMachine.process_gates h.ring prob frame
  have hC := h.capacity
  have hstep : VadStateMachine.frame m (prob, frame) = some (m', [(d, frame)]) := by
    simp only [VadStateMachine.frame, hp]
  have hdel := h.toDelivered
  have hkeep := h.inside
  cases hg with
  | silence hs hs' =>
      rw [hs] at hdel hring
      refine ⟨_, m', ws, last, hstep, ?_, hcap.trans hC, ?_⟩
      · rw [hs']
        exact hdel.silence frame
      · rw [hs', stream_snoc, List.drop_append_of_le_length hkeep]
        exact hring
  | started hs hs' =>
      rw [hs] at hdel hstep
      rw [hC] at hstep
      have hopen := hdel.started frame
      rw [← hs'] at hopen
      refine ⟨_, m', _, _, hstep, hopen, hcap.trans hC, ?_⟩
      rw [hs']
      exact hring
  | continues hs hs' =>
      rw [hs] at hdel hring
      obtain ⟨ws', hw⟩ := hdel.grown frame (.inl ⟨rfl, rfl⟩)
      rw [← hs'] at hw
      refine ⟨_, m', ws', _, hstep, hw, hcap.trans hC, ?_⟩
      rw [hs']
      exact hring
  | ended hs hs' =>
      rw [hs] at hdel hring
      obtain ⟨ws', hw⟩ := hdel.grown frame (.inr ⟨rfl, rfl⟩)
      rw [← hs'] at hw
      refine ⟨_, m', ws', _, hstep, hw, hcap.trans hC, ?_⟩
      rw [hs', stream_snoc, ← List.length_append, List.drop_length]
      exact hring

/-- Gating neither loses nor repeats audio: from a machine just created or reset, whose ring has a
capacity `C > 0`, every list of frames and probabilities is decided on without a panic, and the
backend is pushed windows of the frame stream that share no sample.  There is one for each start of
speech, which begins `min C n` samples before it, where `n` samples have passed since the window
before, and stops with the frame that ends the speech, or with the last frame so far. -/
theorem gated_windows [Zero S] (m : VadStateMachine S P) (hm : m.Initial)
    (hC : 0 < m.ringBuffer.capacity) (inputs : List (P × List S)) :
    ∃ m' fs ws last, Mealy.run VadStateMachine.frame m inputs = some (m', fs) ∧
      fs.map Prod.snd = inputs.map Prod.snd ∧
      Delivered m.ringBuffer.capacity fs m'.state ws last ∧
      (ws.Pairwise fun v w => v.stop ≤ w.start) ∧
      pushed (AudioGating.vadGated.calls fs) = (ws.map fun w => w.of (stream fs)).flatten := by
  obtain ⟨hs, hring⟩ := hm.silent hC
  have h0 : Gated m.ringBuffer.capacity [] m [] 0 :=
    { audio := rfl
      onsets := rfl
      stops := by rw [hs]; rfl
      follow := .nil
      inside := Nat.le_refl 0
      capacity := rfl
      ring := by rw [hs]; exact hring }
  obtain ⟨m', fs, hrun, hsnd, ws, last, hg⟩ := Mealy.run_total
    (P := fun (is : List (P × List S)) m' (fs : List (VadDecision S × List S)) =>
      fs.map Prod.snd = is.map Prod.snd ∧ ∃ ws last, Gated m.ringBuffer.capacity fs m' ws last)
    (by
      rintro is m₁ fs i ⟨hsnd, ws, last, hg⟩
      obtain ⟨d, m₂, ws', last', hstep, hg'⟩ := hg.frame i
      refine ⟨m₂, [(d, i.2)], hstep, ?_, ws', last', hg'⟩
      rw [List.map_append, List.map_append, hsnd]
      rfl)
    ⟨rfl, [], 0, h0⟩ inputs
  refine ⟨m', fs, ws, last, hrun, hsnd, hg.toDelivered, hg.follow.disjoint, ?_⟩
  rw [← flatten_utterances, hg.audio]

/-- A ring of 16 samples under frames of 5, which it does not hold a whole number of: the first
window reaches back over the 16 samples before its onset, the second over the 5 since the first. -/
theorem gated_windows_short_ring :
    let m : VadStateMachine ℕ ℕ := .new 5 3 32 64 1
    let inputs : List (ℕ × List ℕ) := [(0, [1, 2, 3, 4, 5]), (0, [6, 7, 8, 9, 10]),
      (0, [11, 12, 13, 14, 15]), (9, [16, 17, 18, 19, 20]), (9, [21, 22, 23, 24, 25]),
      (0, [26, 27, 28, 29, 30]), (9, [31, 32, 33, 34, 35]), (9, [36, 37, 38, 39, 40])]
    (Mealy.run VadStateMachine.frame m inputs).map
        (fun r => utterances (AudioGating.vadGated.calls r.2)) =
      some [List.range' 5 26, List.range' 31 10] ∧
    ∃ m' fs ws last, Mealy.run VadStateMachine.frame m inputs = some (m', fs) ∧
      fs.map Prod.snd = inputs.map Prod.snd ∧
      Delivered 16 fs m'.state ws last ∧
      (ws.Pairwise fun v w => v.stop ≤ w.start) ∧
      pushed (AudioGating.vadGated.calls fs) = (ws.map fun w => w.of (stream fs)).flatten :=
  ⟨by decide +kernel, gated_windows _ (.new 5 3 32 64 1) (by decide) _⟩

end Run

end Larmindon
