/-
# `Nemotron.Moves` — what a call does, and what a pass does on its way

A call on the backend is a step of `opStep`, and `NemotronBackend.Moves` lists
what it can be; `moves_of_step` is the inversion, and what holds of the calls of a
session goes by cases on it.

A pass of `process` does more than one thing to the model.  It is taken apart into
what happens from one call of the model to the next (`Line`):

    live            a chunk is kept, counted and passed to the model
    replay          a chunk that was kept is counted and passed to it again
    update          a text is handed out
    reset           the model is reset, and what goes with it is cleared

Every pass is a run of these (`lines_chunkTurns`), whether or not it would end, so
what each of them keeps holds of the state between any two calls of the model.
-/
import Larmindon.Nemotron.Backend

namespace Larmindon.Nemotron

variable {S σ : Type}

/-! ## The calls of a session -/

/-- A call on the backend; `load` is what loading the model gives where none is there. -/
inductive Op (S σ : Type) where
  | beginSession (load : Except String σ) (settings : Settings)
  | markSpeechStart
  | pushAudio (samples : List S)
  | markSpeechEnd
  | updateSettings (settings : Settings)
  | process (vadState : VadState)

/-- A call, with the events it leaves; a `process` that does not end is no step. -/
def opStep [Zero S] (M : Model S σ) :
    Mealy.Step (NemotronBackend S σ × SegmentIds) (Op S σ) (Event S)
  | (b, ids), .beginSession load settings =>
      match b.beginSession M load settings with
      | .ok (b', evs) => some ((b', ids), evs)
      | .error _ => some ((b, ids), [])
  | (b, ids), .markSpeechStart => some ((b.markSpeechStart, ids), [])
  | (b, ids), .pushAudio samples => some ((b.pushAudio samples, ids), [])
  | (b, ids), .markSpeechEnd => some ((b.markSpeechEnd, ids), [])
  | (b, ids), .updateSettings settings => some ((b.updateSettings settings, ids), [])
  | (b, ids), .process vadState =>
      match b.process M vadState ids with
      | some (.ok (b', ids', evs)) => some ((b', ids'), evs)
      | some (.error _) => some ((b, ids), [])
      | none => none

/-- The loop of `process` cut off after at most `n` chunks, whether or not it would end. -/
def chunkTurns (M : Model S σ) (t : Tuning) (vadIsSpeech : Bool) (asrBuffer : List S) :
    ℕ → ℕ → List ℕ → Decoding S σ → ℕ × List ℕ × Decoding S σ × List (Event S)
  | 0, asrConsumed, pending, d => (asrConsumed, pending, d, [])
  | n + 1, asrConsumed, pending, d =>
      if t.chunkSize ≤ asrBuffer.length - asrConsumed then
        let c := d.liveChunk M t vadIsSpeech ((asrBuffer.drop asrConsumed).take t.chunkSize)
        let r := c.1.speechEndResets M (asrConsumed + t.chunkSize) pending
        let rest := chunkTurns M t vadIsSpeech asrBuffer n (asrConsumed + t.chunkSize) r.2.2 r.1
        (rest.1, rest.2.1, rest.2.2.1, c.2 ++ r.2.1 ++ rest.2.2.2)
      else
        (asrConsumed, pending, d, [])

/-- The events of the first chunks of a `process` call. -/
def NemotronBackend.turns (M : Model S σ) (vadState : VadState) (b : NemotronBackend S σ)
    (ids : SegmentIds) (n : ℕ) : List (Event S) :=
  match b.model with
  | none => []
  | some model => (chunkTurns M b.tuning (vadState = .speech) b.asrBuffer n 0
      b.pendingSpeechEndResets (b.decoding model ids)).2.2.2

/-! ## What a call can do, said once -/

/-- A loop that ends is its first turns. -/
theorem chunkLoop_turns {M : Model S σ} {t : Tuning} {vadIsSpeech : Bool} {asrBuffer : List S}
    {fuel asrConsumed : ℕ} {pending : List ℕ} {d : Decoding S σ}
    {r : ℕ × List ℕ × Decoding S σ × List (Event S)}
    (h : chunkLoop M t vadIsSpeech asrBuffer fuel asrConsumed pending d = some r) :
    chunkTurns M t vadIsSpeech asrBuffer fuel asrConsumed pending d = r := by
  induction fuel generalizing asrConsumed pending d r with
  | zero => cases h
  | succ fuel ih =>
      rw [chunkLoop] at h
      rw [chunkTurns]
      split at h
      · next hle =>
          rw [if_pos hle]
          dsimp only at h ⊢
          split at h
          · cases h
          · next hrest =>
              obtain rfl := Option.some.inj h
              simp only [ih hrest]
      · next hle =>
          rw [if_neg hle]
          exact Option.some.inj h

namespace NemotronBackend

variable {M : Model S σ} {b : NemotronBackend S σ}

/-- A session that begins has its model reset, or loaded. -/
theorem beginSession_ok {load : Except String σ} {settings : Settings}
    {r : NemotronBackend S σ × List (Event S)} (h : b.beginSession M load settings = .ok r) :
    ∃ model, r.1 = b.started settings model ∧
      (r.2 = [.reset .session] ∨ b.model = none ∧ r.2 = []) := by
  unfold NemotronBackend.beginSession at h
  split at h
  · next model _ =>
      obtain rfl := Except.ok.inj h
      exact ⟨M.reset model, rfl, .inl rfl⟩
  · next hm =>
      split at h
      · next model =>
          obtain rfl := Except.ok.inj h
          exact ⟨model, rfl, .inr ⟨hm, rfl⟩⟩
      · cases h

/-- A pass that ends is its first turns. -/
theorem process_ok {vadState : VadState} {ids : SegmentIds}
    {r : NemotronBackend S σ × SegmentIds × List (Event S)}
    (h : b.process M vadState ids = some (.ok r)) :
    ∃ model asrConsumed pending d, b.model = some model ∧
      chunkTurns M b.tuning (vadState = .speech) b.asrBuffer (b.asrBuffer.length + 1) 0
        b.pendingSpeechEndResets (b.decoding model ids) = (asrConsumed, pending, d, r.2.2) ∧
      r.1 = b.drained asrConsumed pending d := by
  rw [NemotronBackend.process] at h
  split at h
  · cases h
  · next model hm =>
      split at h
      · cases h
      · next hloop =>
          obtain rfl := Except.ok.inj (Option.some.inj h)
          exact ⟨model, _, _, _, hm, chunkLoop_turns hloop, rfl⟩

/-- What a call makes of a backend, and the events it leaves. -/
inductive Moves [Zero S] (M : Model S σ) (b : NemotronBackend S σ) (ids : SegmentIds) :
    Op S σ → NemotronBackend S σ → List (Event S) → Prop
  | began {load : Except String σ} {settings : Settings} {evs : List (Event S)} (model : σ)
      (h : evs = [.reset .session] ∨ b.model = none ∧ evs = []) :
      Moves M b ids (.beginSession load settings) (b.started settings model) evs
  /-- The model cannot be loaded, or is not there to process anything. -/
  | refused (op : Op S σ) : Moves M b ids op b []
  | markSpeechStart : Moves M b ids .markSpeechStart b.markSpeechStart []
  | pushAudio (samples : List S) : Moves M b ids (.pushAudio samples) (b.pushAudio samples) []
  | markSpeechEnd : Moves M b ids .markSpeechEnd b.markSpeechEnd []
  | updateSettings (settings : Settings) :
      Moves M b ids (.updateSettings settings) (b.updateSettings settings) []
  | processed {vadState : VadState} {model : σ} {asrConsumed : ℕ} {pending : List ℕ}
      {d : Decoding S σ} {evs : List (Event S)} (hm : b.model = some model)
      (h : chunkTurns M b.tuning (vadState = .speech) b.asrBuffer (b.asrBuffer.length + 1) 0
        b.pendingSpeechEndResets (b.decoding model ids) = (asrConsumed, pending, d, evs)) :
      Moves M b ids (.process vadState) (b.drained asrConsumed pending d) evs

theorem moves_of_step [Zero S] {ids : SegmentIds} {op : Op S σ}
    {s : NemotronBackend S σ × SegmentIds} {evs : List (Event S)}
    (h : opStep M (b, ids) op = some (s, evs)) : Moves M b ids op s.1 evs := by
  cases op with
  | beginSession load settings =>
      simp only [opStep] at h
      split at h
      · next b' evs' hb =>
          cases h
          obtain ⟨model, rfl, hevs⟩ := beginSession_ok hb
          exact .began model hevs
      · cases h
        exact .refused _
  | markSpeechStart =>
      cases h
      exact .markSpeechStart
  | pushAudio samples =>
      cases h
      exact .pushAudio samples
  | markSpeechEnd =>
      cases h
      exact .markSpeechEnd
  | updateSettings settings =>
      cases h
      exact .updateSettings settings
  | process vadState =>
      simp only [opStep] at h
      split at h
      · next hp =>
          cases h
          obtain ⟨model, asrConsumed, pending, d, hm, hturns, rfl⟩ := process_ok hp
          exact .processed hm hturns
      · cases h
        exact .refused _
      · cases h

end NemotronBackend

/-! ## From one call of the model to the next -/

/-- What `process` does between two calls of the model, with the first of them. -/
inductive Line (S : Type) where
  | live (vadIsSpeech : Bool) (chunk : List S)
  | replay (chunk : List S)
  | update (text : String)
  | reset (cause : ResetCause S)

namespace Decoding

/-- A live chunk up to the resets behind it: kept in speech, counted, passed to the model, and where
it gives a text, counted for that. -/
def transcribeLive (M : Model S σ) (vadIsSpeech : Bool) (d : Decoding S σ) (chunk : List S) :
    Decoding S σ × List (Event S) :=
  let d := { d with
    replayBuffer := if vadIsSpeech then d.replayBuffer.push chunk else d.replayBuffer
    chunksSinceDecoderReset := d.chunksSinceDecoderReset + 1 }
  match M.transcribeChunk d.model chunk with
  | (.ok text, model) =>
      ({ d with
          model
          chunkNum := d.chunkNum + 1
          consecutiveEmpty := if text.isEmpty && vadIsSpeech then d.consecutiveEmpty + 1 else 0 },
        [.transcribe .live chunk (.ok text)])
  | (.error err, model) => ({ d with model }, [.transcribe .live chunk (.error err)])

def line (M : Model S σ) : Mealy.Step (Decoding S σ) (Line S) (Event S)
  | d, .live vadIsSpeech chunk => some (d.transcribeLive M vadIsSpeech chunk)
  | d, .replay chunk => some (d.replayChunk M chunk)
  | d, .update text => some (d.emit text)
  | d, .reset cause => some (d.reset M, [.reset cause])

/-- It is a run of lines to do what leads to `r`. -/
def Lines (M : Model S σ) (d : Decoding S σ) (r : Decoding S σ × List (Event S)) : Prop :=
  ∃ ls, Mealy.run (line M) d ls = some r

variable {M : Model S σ} {d : Decoding S σ} {t : Tuning}

theorem Lines.nil (d : Decoding S σ) : Lines M d (d, []) := ⟨[], rfl⟩

theorem Lines.one (l : Line S) {r : Decoding S σ × List (Event S)} (h : line M d l = some r) :
    Lines M d r :=
  ⟨[l], Mealy.run_singleton h⟩

theorem Lines.append {r r' : Decoding S σ × List (Event S)} (h : Lines M d r)
    (h' : Lines M r.1 r') : Lines M d (r'.1, r.2 ++ r'.2) := by
  obtain ⟨ls, hls⟩ := h
  obtain ⟨ls', hls'⟩ := h'
  exact ⟨ls ++ ls', Mealy.run_append hls hls'⟩

theorem lines_replay (chunks : List (List S)) : Lines M d (d.replay M chunks) := by
  induction chunks generalizing d with
  | nil => exact .nil d
  | cons chunk chunks ih =>
      have hfirst : Lines M d (d.replayChunk M chunk) := .one (.replay chunk) rfl
      exact hfirst.append ih

/-- The replay comes behind the reset. -/
theorem lines_heuristic (vadIsSpeech : Bool) : Lines M d (d.heuristic M t vadIsSpeech) := by
  rw [Decoding.heuristic]
  split
  · have hreset : Lines M d (d.reset M, [.reset (.midSpeech d.replayBuffer.snapshot)]) :=
      .one (.reset _) rfl
    exact hreset.append (lines_replay _)
  · exact .nil d

theorem lines_punctuationReset (text : String) : Lines M d (d.punctuationReset M t text) := by
  rw [Decoding.punctuationReset]
  split
  · exact .one (.reset .punctuation) rfl
  · exact .nil d

/-- A live chunk, with all that can fire for it, in the order of the source. -/
theorem lines_liveChunk (vadIsSpeech : Bool) (chunk : List S) :
    Lines M d (d.liveChunk M t vadIsSpeech chunk) := by
  have hlive : Lines M d (d.transcribeLive M vadIsSpeech chunk) := .one (.live vadIsSpeech chunk) rfl
  rw [Decoding.transcribeLive] at hlive
  rw [Decoding.liveChunk]
  dsimp only at hlive ⊢
  generalize M.transcribeChunk d.model chunk = answer at hlive ⊢
  obtain ⟨result, model⟩ := answer
  cases result with
  | error err => exact hlive
  | ok text =>
      have hlines := ((hlive.append (lines_punctuationReset (t := t) text)).append
        (.one (.update text) rfl)).append (lines_heuristic (t := t) vadIsSpeech)
      simp only [List.append_assoc] at hlines
      simp only [transcribed, List.append_assoc]
      exact hlines

theorem lines_speechEndResets (asrConsumed : ℕ) (pending : List ℕ) :
    Lines M d ((d.speechEndResets M asrConsumed pending).1,
      (d.speechEndResets M asrConsumed pending).2.1) := by
  induction pending generalizing d with
  | nil => exact .nil d
  | cons resetAfterSamples pending ih =>
      rw [Decoding.speechEndResets]
      split
      · have hreset : Lines M d (d.reset M, [.reset .speechEnd]) := .one (.reset .speechEnd) rfl
        exact hreset.append ih
      · exact .nil d

end Decoding

/-- The first chunks of a pass are a run of lines. -/
theorem lines_chunkTurns {M : Model S σ} {t : Tuning} (vadIsSpeech : Bool) (asrBuffer : List S) (n : ℕ)
    (asrConsumed : ℕ) (pending : List ℕ) (d : Decoding S σ) :
    d.Lines M (chunkTurns M t vadIsSpeech asrBuffer n asrConsumed pending d).2.2 := by
  induction n generalizing asrConsumed pending d with
  | zero => exact .nil d
  | succ n ih =>
      rw [chunkTurns]
      split
      · have hchunk := Decoding.lines_liveChunk (M := M) (d := d) (t := t) vadIsSpeech
          ((asrBuffer.drop asrConsumed).take t.chunkSize)
        have hresets := hchunk.append
          (Decoding.lines_speechEndResets (asrConsumed + t.chunkSize) pending)
        exact hresets.append (ih (asrConsumed + t.chunkSize) _ _)
      · exact .nil d

end Larmindon.Nemotron
