/-
# `Nemotron.Drains` — what the transcript owes to the division into iterations

Which samples land in which chunk does not depend on how the frames are divided
into iterations: the script of a session mentions the frames only.  Two things
depend on it: the VAD state, which is sampled once an iteration, after the
frames, and gates the mid-speech reset; and between which chunks an onset is
marked, which is ahead of every chunk still queued.  Both can be read off the
`cues` of the division.

What a session does to the model is its `Work`: the live chunks, the speech-end
resets, and the mid-speech resets with the chunks they replay.  The punctuation
resets are not listed, since the texts decide them.

    the texts of what is played are those of its work  (`texts_play`)
    the work is the live part and the mid-speech
    resets, by where they come in it                   (`work_ext`)
    so two divisions with the same mid-speech resets
    or the same cues give the same texts               (`drain_invariance`)
    and without such a proviso they may not            (`drain_dependence`)
-/
import Larmindon.Nemotron.Utterances

namespace Larmindon.Nemotron

variable {S σ : Type}

/-! ## Texts and work -/

/-- The texts emitted. -/
def texts (evs : List (Event S)) : List String :=
  evs.filterMap fun
    | .update u => some u.text
    | .transcribe _ _ _ | .reset _ => none

/-- What the model is put to, other than a reset its own text brings about. -/
inductive Work (S : Type) where
  | live (l : Live S)
  | midSpeech (replayChunks : List (List S))
  deriving DecidableEq, Repr

def Event.work : Event S → Option (Work S)
  | .transcribe .live chunk _ => some (.live (.chunk chunk))
  | .reset .speechEnd => some (.live .speechEnd)
  | .reset (.midSpeech replayChunks) => some (.midSpeech replayChunks)
  | .transcribe .replay _ _ | .reset .session | .reset .punctuation | .update _ => none

def work (evs : List (Event S)) : List (Work S) := evs.filterMap Event.work

def Work.toLive : Work S → Option (Live S)
  | .live l => some l
  | .midSpeech _ => none

/-- The mid-speech resets, each with how much of the live part comes before it. -/
def midSpeechFrom : ℕ → List (Work S) → List (ℕ × List (List S))
  | _, [] => []
  | pos, .live _ :: ws => midSpeechFrom (pos + 1) ws
  | pos, .midSpeech replayChunks :: ws => (pos, replayChunks) :: midSpeechFrom pos ws

def midSpeechResets (evs : List (Event S)) : List (ℕ × List (List S)) :=
  midSpeechFrom 0 (work evs)

@[simp] theorem texts_append (evs fvs : List (Event S)) :
    texts (evs ++ fvs) = texts evs ++ texts fvs :=
  List.filterMap_append

@[simp] theorem work_append (evs fvs : List (Event S)) : work (evs ++ fvs) = work evs ++ work fvs :=
  List.filterMap_append

@[simp] theorem texts_transcribe (source : ChunkSource) (chunk : List S)
    (result : Except String String) (evs : List (Event S)) :
    texts (.transcribe source chunk result :: evs) = texts evs := rfl

@[simp] theorem work_live (chunk : List S) (result : Except String String)
    (evs : List (Event S)) :
    work (.transcribe .live chunk result :: evs) = .live (.chunk chunk) :: work evs := rfl

theorem live_eq_work (evs : List (Event S)) : live evs = (work evs).filterMap Work.toLive := by
  rw [live, work, List.filterMap_filterMap]
  congr 1
  funext ev
  cases ev with
  | transcribe source chunk result => cases source <;> rfl
  | reset cause => cases cause <;> rfl
  | update u => rfl

/-- A mid-speech reset never comes before the place the count stands at. -/
theorem midSpeechFrom_ge (ws : List (Work S)) : ∀ pos, ∀ r ∈ midSpeechFrom pos ws, pos ≤ r.1 := by
  induction ws with
  | nil =>
      intro pos r hr
      cases hr
  | cons w ws ih =>
      intro pos r hr
      cases w with
      | live l => exact Nat.le_of_succ_le (ih (pos + 1) r hr)
      | midSpeech replayChunks =>
          rcases List.mem_cons.mp hr with rfl | hr
          · exact Nat.le_refl pos
          · exact ih pos r hr

/-- A mid-speech reset cannot be where the other list has a live item. -/
theorem midSpeechFrom_ne (pos : ℕ) (replayChunks : List (List S)) (ws vs : List (Work S)) :
    (pos, replayChunks) :: midSpeechFrom pos ws ≠ midSpeechFrom (pos + 1) vs := by
  intro h
  have hge := midSpeechFrom_ge vs (pos + 1) (pos, replayChunks) (h ▸ List.mem_cons_self)
  exact absurd hge (Nat.not_succ_le_self pos)

/-- The work is what is live in it, and its mid-speech resets. -/
theorem work_ext : ∀ {ws vs : List (Work S)} (pos : ℕ),
    ws.filterMap Work.toLive = vs.filterMap Work.toLive →
    midSpeechFrom pos ws = midSpeechFrom pos vs → ws = vs
  | [], [], _, _, _ => rfl
  | [], .live _ :: _, _, hl, _ => nomatch hl
  | [], .midSpeech _ :: _, _, _, hm => nomatch hm
  | .live _ :: _, [], _, hl, _ => nomatch hl
  | .midSpeech _ :: _, [], _, _, hm => nomatch hm
  | .live l :: ws, .live l' :: vs, pos, hl, hm => by
      obtain ⟨rfl, hl'⟩ := List.cons.inj hl
      rw [work_ext (pos + 1) hl' hm]
  | .midSpeech rc :: ws, .midSpeech rc' :: vs, pos, hl, hm => by
      obtain ⟨hrc, hm'⟩ := List.cons.inj hm
      have hws : ws = vs := work_ext pos hl hm'
      rw [hws, (Prod.mk.inj hrc).2]
  | .live _ :: ws, .midSpeech rc :: vs, pos, _, hm =>
      absurd hm.symm (midSpeechFrom_ne pos rc vs ws)
  | .midSpeech rc :: ws, .live _ :: vs, pos, _, hm => absurd hm (midSpeechFrom_ne pos rc ws vs)

/-! ## The texts of some work -/

/-- A text as it is emitted: not at all when it is empty. -/
def emitted (text : String) : List String := if text.isEmpty then [] else [text]

/-- The texts of chunks transcribed one after another, and the model then. -/
def Model.replayed (M : Model S σ) : σ → List (List S) → List String × σ
  | m, [] => ([], m)
  | m, chunk :: chunks =>
      match M.transcribeChunk m chunk with
      | (.ok text, m') => (emitted text ++ (M.replayed m' chunks).1, (M.replayed m' chunks).2)
      | (.error _, m') => M.replayed m' chunks

/-- The model behind a text: a sentence end resets it where the setting says so. -/
def Model.behind (M : Model S σ) (punctuation : Bool) (text : String) (m : σ) : σ :=
  if punctuation && !text.isEmpty && endsWithSentencePunctuation text then M.reset m else m

/-- The texts of some work from a model on. -/
def Model.transcript (M : Model S σ) (punctuation : Bool) : σ → List (Work S) → List String
  | _, [] => []
  | m, .live (.chunk chunk) :: ws =>
      match M.transcribeChunk m chunk with
      | (.ok text, m') =>
          emitted text ++ M.transcript punctuation (M.behind punctuation text m') ws
      | (.error _, m') => M.transcript punctuation m' ws
  | m, .live .speechEnd :: ws => M.transcript punctuation (M.reset m) ws
  | m, .midSpeech replayChunks :: ws =>
      (M.replayed (M.reset m) replayChunks).1 ++
        M.transcript punctuation (M.replayed (M.reset m) replayChunks).2 ws

/-- The events take the model from `m` to `m'`, and emit what their work would. -/
def Emits (M : Model S σ) (punctuation : Bool) (m : σ) (evs : List (Event S)) (m' : σ) : Prop :=
  ∀ ws, M.transcript punctuation m (work evs ++ ws) = texts evs ++ M.transcript punctuation m' ws

section Emits

variable {M : Model S σ} {p : Bool}

theorem Emits.nil (m : σ) : Emits M p m [] m := by
  intro ws
  rfl

theorem Emits.append {m m' m'' : σ} {evs fvs : List (Event S)} (h : Emits M p m evs m')
    (h' : Emits M p m' fvs m'') : Emits M p m (evs ++ fvs) m'' := by
  intro ws
  rw [work_append, texts_append, List.append_assoc, h, h', List.append_assoc]

/-- An update is no work. -/
theorem emit_spec (d : Decoding S σ) (text : String) :
    texts (d.emit text).2 = emitted text ∧ work (d.emit text).2 = [] ∧
      (d.emit text).1.model = d.model := by
  rw [Decoding.emit, emitted]
  cases text.isEmpty with
  | true => exact ⟨rfl, rfl, rfl⟩
  | false => exact ⟨rfl, rfl, rfl⟩

/-- One replayed chunk, in front of those after it. -/
theorem replayChunk_spec (d : Decoding S σ) (chunk : List S) (chunks : List (List S)) :
    work (d.replayChunk M chunk).2 = [] ∧
      M.replayed d.model (chunk :: chunks) = (texts (d.replayChunk M chunk).2 ++
        (M.replayed (d.replayChunk M chunk).1.model chunks).1,
        (M.replayed (d.replayChunk M chunk).1.model chunks).2) := by
  cases hc : M.transcribeChunk d.model chunk with
  | mk result model =>
    cases result with
    | ok text =>
        obtain ⟨ht, hw, hm⟩ := emit_spec { d with
          chunksSinceDecoderReset := d.chunksSinceDecoderReset + 1
          model
          chunkNum := d.chunkNum + 1 } text
        simp only [Decoding.replayChunk, Model.replayed, hc, hm]
        refine ⟨hw, ?_⟩
        rw [← ht]
        rfl
    | error err =>
        simp only [Decoding.replayChunk, Model.replayed, hc]
        exact ⟨rfl, rfl⟩

theorem replay_spec (chunks : List (List S)) : ∀ d : Decoding S σ,
    work (d.replay M chunks).2 = [] ∧
      M.replayed d.model chunks = (texts (d.replay M chunks).2, (d.replay M chunks).1.model) := by
  induction chunks with
  | nil =>
      intro d
      exact ⟨rfl, rfl⟩
  | cons chunk chunks ih =>
      intro d
      obtain ⟨hw, hr⟩ := replayChunk_spec (M := M) d chunk chunks
      obtain ⟨hws, hrs⟩ := ih (d.replayChunk M chunk).1
      simp only [Decoding.replay, work_append, texts_append, hw, hws, hr, hrs]
      exact ⟨rfl, trivial⟩

/-- The mid-speech reset emits what the replayed chunks give. -/
theorem emits_heuristic (t : Tuning) (vadIsSpeech : Bool) (d : Decoding S σ) :
    Emits M p d.model (d.heuristic M t vadIsSpeech).2 (d.heuristic M t vadIsSpeech).1.model := by
  rw [Decoding.heuristic]
  split
  · obtain ⟨hw, hr⟩ := replay_spec (M := M) d.replayBuffer.snapshot (d.reset M)
    intro ws
    show M.transcript p d.model (.midSpeech d.replayBuffer.snapshot :: (work _ ++ ws)) = _
    rw [hw, List.nil_append, Model.transcript]
    show (M.replayed (d.reset M).model d.replayBuffer.snapshot).1 ++ M.transcript p
      (M.replayed (d.reset M).model d.replayBuffer.snapshot).2 ws = _
    rw [hr]
    rfl
  · exact .nil d.model

theorem punctuationReset_spec (t : Tuning) (d : Decoding S σ) (text : String) :
    texts (d.punctuationReset M t text).2 = [] ∧ work (d.punctuationReset M t text).2 = [] ∧
      (d.punctuationReset M t text).1.model =
        M.behind t.punctuationResetEnabled text d.model := by
  rw [Decoding.punctuationReset, Model.behind]
  cases t.punctuationResetEnabled && !text.isEmpty && endsWithSentencePunctuation text with
  | true => exact ⟨rfl, rfl, rfl⟩
  | false => exact ⟨rfl, rfl, rfl⟩

/-- A live chunk emits its own text, and then what a mid-speech reset gives. -/
theorem emits_liveChunk (t : Tuning) (vadIsSpeech : Bool) (d : Decoding S σ) (chunk : List S) :
    Emits M t.punctuationResetEnabled d.model (d.liveChunk M t vadIsSpeech chunk).2
      (d.liveChunk M t vadIsSpeech chunk).1.model := by
  intro ws
  cases hc : M.transcribeChunk d.model chunk with
  | mk result model =>
    cases result with
    | error err =>
        simp only [Decoding.liveChunk, hc]
        show M.transcript _ d.model (.live (.chunk chunk) :: ws) = M.transcript _ model ws
        simp only [Model.transcript, hc]
    | ok text =>
        simp only [Decoding.liveChunk, Decoding.transcribed, hc]
        generalize hd : (Decoding.mk model (d.chunkNum + 1) _ _ _ d.ids : Decoding S σ) = e
        have hmodel : e.model = model := by rw [← hd]
        obtain ⟨hpt, hpw, hpm⟩ := punctuationReset_spec (M := M) t e text
        obtain ⟨het, hew, hem⟩ := emit_spec (e.punctuationReset M t text).1 text
        have hh := emits_heuristic (M := M) (p := t.punctuationResetEnabled) t vadIsSpeech
          ((e.punctuationReset M t text).1.emit text).1
        simp only [texts_transcribe, work_live, work_append, texts_append, hpt, hpw, het, hew,
          List.nil_append, List.cons_append, List.append_assoc, Model.transcript, hc]
        rw [← hh ws, hem, hpm, hmodel]

theorem emits_cue (t : Tuning) (d : Decoding S σ) (c : Cue S) :
    Emits M t.punctuationResetEnabled d.model (d.cue M t c).2 (d.cue M t c).1.model := by
  cases c with
  | speechStart => exact .nil d.model
  | live vadIsSpeech l =>
      cases l with
      | chunk samples => exact emits_liveChunk t vadIsSpeech d samples
      | speechEnd =>
          intro ws
          rfl

theorem emits_play (t : Tuning) (cs : List (Cue S)) : ∀ d : Decoding S σ,
    Emits M t.punctuationResetEnabled d.model (d.play M t cs).2 (d.play M t cs).1.model := by
  induction cs with
  | nil =>
      intro d
      exact .nil d.model
  | cons c cs ih =>
      intro d
      exact (emits_cue t d c).append (ih (d.cue M t c).1)

/-- The texts of what is played are those its work gives. -/
theorem texts_play (t : Tuning) (cs : List (Cue S)) (d : Decoding S σ) :
    texts (d.play M t cs).2 =
      M.transcript t.punctuationResetEnabled d.model (work (d.play M t cs).2) := by
  have hall := emits_play (M := M) t cs d []
  rw [List.append_nil] at hall
  rw [hall]
  exact (List.append_nil _).symm

end Emits

/-! ## Two divisions -/

/-- A division of frames into iterations, each with the VAD state after its last frame. -/
def sampled : VadState → List (List (VadDecision S × List S)) →
    List (List (VadDecision S × List S) × VadState)
  | _, [] => []
  | s, fs :: its => (fs, stateAfter s fs) :: sampled (stateAfter s fs) its

theorem frames_sampled (its : List (List (VadDecision S × List S))) :
    ∀ s, frames (sampled s its) = its.flatten := by
  induction its with
  | nil => intro s; rfl
  | cons fs its ih =>
      intro s
      show fs ++ frames (sampled (stateAfter s fs) its) = fs ++ its.flatten
      rw [ih]

/-- How far the transcript is invariant to drain boundaries.  Any two divisions of the same frames
into iterations pass the same live chunks to the model, with the same speech-end resets between
them.  They emit the same texts where the mid-speech resets come at the same places and replay the
same chunks, so where there are none; and where each chunk is passed under the same VAD state and
behind the same onsets. -/
theorem drain_invariance [Zero S] {M : Model S σ} {load : Except String σ} {settings : Settings}
    {b₀ b : NemotronBackend S σ} {begun : List (Event S)}
    (hbegin : b₀.beginSession M load settings = .ok (b, begun)) (hn : 0 < b.chunkSize)
    (ids : SegmentIds) {its its' : List (List (VadDecision S × List S))}
    (heq : its.flatten = its'.flatten) (ho : Ordered .silence its.flatten)
    (hne : ∀ f ∈ its.flatten, f.2 ≠ []) :
    ∃ s s' evs evs', Mealy.run (iteration M) (b, ids) (sampled .silence its) = some (s, evs) ∧
      Mealy.run (iteration M) (b, ids) (sampled .silence its') = some (s', evs') ∧
      live evs = live evs' ∧
      (midSpeechResets evs = midSpeechResets evs' → texts evs = texts evs') ∧
      (cues b.chunkSize [] (sampled .silence its) = cues b.chunkSize [] (sampled .silence its') →
        texts evs = texts evs') := by
  have hf := frames_sampled its .silence
  have hf' := frames_sampled its' .silence
  rw [← heq] at hf'
  obtain ⟨d, hsession⟩ := session_run hbegin hn ids
  obtain ⟨s, evs, hrun, hs⟩ := hsession (sampled .silence its) (by rw [hf]; exact ⟨ho, hne⟩)
  obtain ⟨s', evs', hrun', hs'⟩ := hsession (sampled .silence its') (by rw [hf']; exact ⟨ho, hne⟩)
  have hsame : live evs = live evs' := by
    rw [hs.live hn, hs'.live hn, hf, hf']
  refine ⟨s, s', evs, evs', hrun, hrun', hsame, ?_, ?_⟩
  · intro hmid
    rw [live_eq_work, live_eq_work] at hsame
    have hwork : work evs = work evs' := work_ext 0 hsame hmid
    rw [hs.played, hs'.played] at hwork ⊢
    rw [texts_play, texts_play, hwork]
  · intro hcues
    rw [hs.played, hs'.played, hcues]

/-- A model whose text comes with the fourth chunk after a reset. -/
def lateModel : Model ℕ ℕ := ⟨fun m _ => (.ok (if m = 3 then "a" else ""), m + 1), fun _ => 0⟩

/-- An utterance of eight frames, which makes four chunks of 80 ms. -/
def eightFrames : List (VadDecision ℕ × List ℕ) :=
  let frame := List.replicate 512 0
  (.speechStarted [], frame) :: (List.replicate 6 (.speechContinues, frame) ++
    [(.speechEnded, frame)])

/-- A frame an iteration or the first three in one: no chunk is complete before the third, so the
model is passed the same under the same VAD states, and reset twice in speech. -/
theorem drain_invariance_three_frames :
    let b : NemotronBackend ℕ ℕ := NemotronBackend.new.started ⟨80, true, 1⟩ 0
    let its := eightFrames.map ([·])
    let its' := eightFrames.take 3 :: (eightFrames.drop 3).map ([·])
    ∃ s s' evs evs',
      Mealy.run (iteration lateModel) (b, 1) (sampled .silence its) = some (s, evs) ∧
      Mealy.run (iteration lateModel) (b, 1) (sampled .silence its') = some (s', evs') ∧
      (midSpeechResets evs).map Prod.fst = [1, 2] ∧ texts evs = texts evs' := by
  intro b its its'
  have hbegin : NemotronBackend.new.beginSession lateModel (.ok 0) ⟨80, true, 1⟩ = .ok (b, []) := rfl
  have hresets : (Mealy.run (iteration lateModel) (b, 1) (sampled .silence its)).map
      (fun r => (midSpeechResets r.2).map Prod.fst) = some [1, 2] := by
    decide +kernel
  have hflat : its.flatten = its'.flatten := by decide +kernel
  obtain ⟨s, s', evs, evs', hrun, hrun', -, -, htexts⟩ := drain_invariance hbegin (by decide) 1
    hflat (by decide +kernel) (by decide +kernel)
  rw [hrun] at hresets
  exact ⟨s, s', evs, evs', hrun, hrun', Option.some.inj hresets, htexts (by decide +kernel)⟩

/-- The texts of a run may depend on the division.  With a mid-speech reset after one empty chunk, a
frame an iteration has the decoder reset within speech, and the fourth chunk after a reset never
comes; all frames in one iteration are passed in the silence that follows them, and it does. -/
theorem drain_dependence :
    let b : NemotronBackend ℕ ℕ := NemotronBackend.new.started ⟨80, true, 1⟩ 0
    let its := eightFrames.map ([·])
    let its' := [eightFrames]
    its.flatten = its'.flatten ∧ Ordered .silence its.flatten ∧
      (∀ f ∈ its.flatten, f.2.length = 512) ∧
      (Mealy.run (iteration lateModel) (b, 1) (sampled .silence its)).map
        (fun r => texts r.2) = some [] ∧
      (Mealy.run (iteration lateModel) (b, 1) (sampled .silence its')).map
        (fun r => texts r.2) = some ["a"] := by
  decide +kernel

end Larmindon.Nemotron
