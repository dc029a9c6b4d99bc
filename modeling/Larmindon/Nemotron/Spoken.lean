/-
# `Nemotron.Spoken` — every text is handed out once, under the next number

The backend is append-only.  A text that is not empty becomes one update, final,
without a speaker, under an id of its own, whether the chunk came from the buffer
or from the replay buffer; nothing else becomes an update.  So the updates of any
run of calls are the texts the model gave, in order, numbered from the id that was
next when the run began (`transcript_numbered`), and `chunk_num` counts the chunks
that gave a text or none, but not those that failed.
-/
import Larmindon.Nemotron.Drains
import Larmindon.Nemotron.Moves

namespace Larmindon.Nemotron

open Journal

variable {S σ : Type}

/-! ## What was said, and what was handed out -/

/-- What the chunks gave, live or replayed, where it is not empty. -/
def spoken (evs : List (Event S)) : List String :=
  evs.flatMap fun
    | .transcribe _ _ (.ok text) => emitted text
    | .transcribe _ _ (.error _) | .reset _ | .update _ => []

def updates (evs : List (Event S)) : List TranscriptUpdate :=
  evs.filterMap fun
    | .update u => some u
    | .transcribe _ _ _ | .reset _ => none

/-- The chunks that did not fail. -/
def answered (evs : List (Event S)) : ℕ :=
  evs.countP fun
    | .transcribe _ _ (.ok _) => true
    | .transcribe _ _ (.error _) | .reset _ | .update _ => false

/-- Texts as updates, each final, under the numbers from `ids` on. -/
def numbered : SegmentIds → List String → List TranscriptUpdate
  | _, [] => []
  | ids, text :: texts => ⟨ids, true, text, none⟩ :: numbered (ids + 1) texts

@[simp] theorem spoken_append (evs fvs : List (Event S)) :
    spoken (evs ++ fvs) = spoken evs ++ spoken fvs :=
  List.flatMap_append

@[simp] theorem updates_append (evs fvs : List (Event S)) :
    updates (evs ++ fvs) = updates evs ++ updates fvs :=
  List.filterMap_append

@[simp] theorem answered_append (evs fvs : List (Event S)) :
    answered (evs ++ fvs) = answered evs + answered fvs :=
  List.countP_append

theorem spoken_said (source : ChunkSource) (chunk : List S) (text : String) (evs : List (Event S)) :
    spoken (.transcribe source chunk (.ok text) :: evs) = emitted text ++ spoken evs := rfl

theorem updates_said (source : ChunkSource) (chunk : List S) (text : String) (evs : List (Event S)) :
    updates (.transcribe source chunk (.ok text) :: evs) = updates evs := rfl

theorem answered_said (source : ChunkSource) (chunk : List S) (text : String)
    (evs : List (Event S)) :
    answered (.transcribe source chunk (.ok text) :: evs) = answered evs + 1 :=
  List.countP_cons_of_pos rfl

theorem numbered_append (ids : SegmentIds) (xs ys : List String) :
    numbered ids (xs ++ ys) = numbered ids xs ++ numbered (ids + xs.length) ys := by
  induction xs generalizing ids with
  | nil => rfl
  | cons x xs ih =>
      rw [List.cons_append, numbered, ih, numbered, List.length_cons, List.cons_append,
        Nat.add_assoc, Nat.add_comm 1]

/-- Numbered texts close a fresh key each. -/
theorem numbered_steps (ids : SegmentIds) (texts : List String) :
    Steps ⟨[], ids⟩ (journal (numbered ids texts)) ⟨[], ids + texts.length⟩ := by
  induction texts generalizing ids with
  | nil => exact .refl _
  | cons text texts ih =>
      have hrest := ih (ids + 1)
      rw [Nat.add_assoc, Nat.add_comm 1] at hrest
      exact .step .settleNew hrest

/-! ## One pass -/

/-- From `d` on everything said is handed out, and counted. -/
structure Decoding.Tells (d : Decoding S σ) (r : Decoding S σ × List (Event S)) : Prop where
  handed : updates r.2 = numbered d.ids (spoken r.2)
  ids : r.1.ids = d.ids + (spoken r.2).length
  chunkNum : r.1.chunkNum = d.chunkNum + answered r.2

namespace Decoding

variable {M : Model S σ} {d : Decoding S σ} {t : Tuning}

theorem Tells.nil (d : Decoding S σ) : d.Tells (d, []) := ⟨rfl, rfl, rfl⟩

theorem Tells.append {r r' : Decoding S σ × List (Event S)} (h : d.Tells r) (h' : r.1.Tells r') :
    d.Tells (r'.1, r.2 ++ r'.2) where
  handed := by
    rw [updates_append, spoken_append, numbered_append, h.handed, h'.handed, h.ids]
  ids := by
    show r'.1.ids = _
    rw [h'.ids, h.ids, spoken_append, List.length_append, Nat.add_assoc]
  chunkNum := by
    show r'.1.chunkNum = _
    rw [h'.chunkNum, h.chunkNum, answered_append, Nat.add_assoc]

/-- A reset says nothing. -/
theorem tells_reset (d : Decoding S σ) (cause : ResetCause S) :
    d.Tells (d.reset M, [.reset cause]) :=
  ⟨rfl, rfl, rfl⟩

/-- Updates alone are neither said nor counted. -/
theorem handed_out (us : List TranscriptUpdate) :
    updates (us.map Event.update : List (Event S)) = us ∧
      spoken (us.map Event.update : List (Event S)) = [] ∧
      answered (us.map Event.update : List (Event S)) = 0 := by
  induction us with
  | nil => exact ⟨rfl, rfl, rfl⟩
  | cons u us ih => exact ⟨congrArg (u :: ·) ih.1, ih.2.1, ih.2.2⟩

theorem quiet_reset {quiet : List (Event S)} (h : ∀ e ∈ quiet, ∃ cause, e = .reset cause) :
    updates quiet = [] ∧ spoken quiet = [] ∧ answered quiet = 0 := by
  induction quiet with
  | nil => exact ⟨rfl, rfl, rfl⟩
  | cons e es ih =>
      obtain ⟨cause, rfl⟩ := h e List.mem_cons_self
      exact ih fun e he => h e (List.mem_cons_of_mem _ he)

/-- A text and the update for it; a reset may come between the two. -/
theorem tells_emit {d' : Decoding S σ} (hids : d'.ids = d.ids)
    (hnum : d'.chunkNum = d.chunkNum + 1) (source : ChunkSource) (chunk : List S) (text : String)
    {quiet : List (Event S)} (hquiet : ∀ e ∈ quiet, ∃ cause, e = .reset cause) :
    d.Tells ((d'.emit text).1,
      .transcribe source chunk (.ok text) :: (quiet ++ (d'.emit text).2)) := by
  obtain ⟨hu, hs, ha⟩ := quiet_reset hquiet
  have hemit : (d'.emit text).2 = (numbered d.ids (emitted text)).map .update ∧
      (d'.emit text).1.ids = d.ids + (emitted text).length ∧
      (d'.emit text).1.chunkNum = d.chunkNum + 1 := by
    rw [emit, emitted]
    cases text.isEmpty with
    | true => exact ⟨rfl, hids, hnum⟩
    | false =>
        rw [hids]
        exact ⟨rfl, rfl, hnum⟩
  obtain ⟨hevs, hid, hchunk⟩ := hemit
  obtain ⟨hu', hs', ha'⟩ := handed_out (S := S) (numbered d.ids (emitted text))
  rw [hevs]
  constructor
  · rw [updates_said, updates_append, hu, hu', spoken_said, spoken_append, hs, hs',
      List.append_nil, List.append_nil, List.nil_append]
  · rw [spoken_said, spoken_append, hs, hs', List.append_nil, List.append_nil]
    exact hid
  · rw [answered_said, answered_append, ha, ha']
    exact hchunk

theorem tells_replayChunk (d : Decoding S σ) (chunk : List S) : d.Tells (d.replayChunk M chunk) := by
  rw [replayChunk]
  dsimp only
  generalize M.transcribeChunk d.model chunk = answer
  obtain ⟨result, model⟩ := answer
  cases result with
  | ok text =>
      have hnone : ∀ e ∈ ([] : List (Event S)), ∃ cause, e = .reset cause := by simp
      refine tells_emit ?_ ?_ .replay chunk text hnone
      · rfl
      · rfl
  -- a chunk that failed says nothing
  | error err => exact ⟨rfl, rfl, rfl⟩

theorem tells_replay (chunks : List (List S)) : ∀ d : Decoding S σ, d.Tells (d.replay M chunks) := by
  induction chunks with
  | nil => exact fun d => .nil d
  | cons chunk chunks ih => exact fun d => (tells_replayChunk d chunk).append (ih _)

/-- The chunks replayed are told again. -/
theorem tells_heuristic (vadIsSpeech : Bool) (d : Decoding S σ) :
    d.Tells (d.heuristic M t vadIsSpeech) := by
  rw [heuristic]
  split
  · exact (tells_reset d _).append (tells_replay d.replayBuffer.snapshot _)
  · exact .nil d

/-- The reset behind a sentence end draws no id and counts no chunk. -/
theorem punctuationReset_quiet (d : Decoding S σ) (text : String) :
    (d.punctuationReset M t text).1.ids = d.ids ∧
      (d.punctuationReset M t text).1.chunkNum = d.chunkNum ∧
      ∀ e ∈ (d.punctuationReset M t text).2, ∃ cause, e = .reset cause := by
  rw [punctuationReset]
  split
  · exact ⟨rfl, rfl, fun e he => ⟨_, List.mem_singleton.mp he⟩⟩
  · exact ⟨rfl, rfl, fun e he => absurd he List.not_mem_nil⟩

theorem tells_liveChunk (vadIsSpeech : Bool) (d : Decoding S σ) (chunk : List S) :
    d.Tells (d.liveChunk M t vadIsSpeech chunk) := by
  rw [liveChunk]
  dsimp only
  generalize M.transcribeChunk d.model chunk = answer
  obtain ⟨result, model⟩ := answer
  cases result with
  | error err => exact ⟨rfl, rfl, rfl⟩
  | ok text =>
      simp only [transcribed]
      generalize hd : (Decoding.mk model (d.chunkNum + 1) _ _ _ d.ids : Decoding S σ) = e
      obtain ⟨hids, hnum, hquiet⟩ := punctuationReset_quiet (M := M) (t := t) e text
      have hids' : (e.punctuationReset M t text).1.ids = d.ids := by rw [hids, ← hd]
      have hnum' : (e.punctuationReset M t text).1.chunkNum = d.chunkNum + 1 := by rw [hnum, ← hd]
      have hsaid := tells_emit hids' hnum' .live chunk text hquiet
      have hall := hsaid.append (tells_heuristic (M := M) (t := t) vadIsSpeech _)
      simpa only [List.cons_append, List.append_assoc] using hall

theorem tells_speechEndResets (asrConsumed : ℕ) (pending : List ℕ) : ∀ d : Decoding S σ,
    d.Tells ((d.speechEndResets M asrConsumed pending).1,
      (d.speechEndResets M asrConsumed pending).2.1) := by
  induction pending with
  | nil => exact fun d => .nil d
  | cons resetAfterSamples pending ih =>
      intro d
      rw [speechEndResets]
      split
      · exact (tells_reset d .speechEnd).append (ih (d.reset M))
      · exact .nil d

end Decoding

theorem tells_chunkTurns {M : Model S σ} {t : Tuning} (vadIsSpeech : Bool) (asrBuffer : List S)
    (n asrConsumed : ℕ) (pending : List ℕ) (d : Decoding S σ) :
    d.Tells (chunkTurns M t vadIsSpeech asrBuffer n asrConsumed pending d).2.2 := by
  induction n generalizing asrConsumed pending d with
  | zero => exact .nil d
  | succ n ih =>
      rw [chunkTurns]
      split
      · have hchunk := Decoding.tells_liveChunk (M := M) (t := t) vadIsSpeech d
          ((asrBuffer.drop asrConsumed).take t.chunkSize)
        have hresets := hchunk.append
          (Decoding.tells_speechEndResets (M := M) (asrConsumed + t.chunkSize) pending _)
        exact hresets.append (ih (asrConsumed + t.chunkSize) _ _)
      · exact .nil d

/-! ## A run of calls -/

/-- A pass that ends tells all it is told. -/
theorem NemotronBackend.process_tells {M : Model S σ} {vadState : VadState}
    {b b' : NemotronBackend S σ} {ids ids' : SegmentIds} {evs : List (Event S)}
    (h : b.process M vadState ids = some (.ok (b', ids', evs))) :
    updates evs = numbered ids (spoken evs) ∧ ids' = ids + (spoken evs).length ∧
      b'.chunkNum = b.chunkNum + answered evs := by
  rw [NemotronBackend.process] at h
  split at h
  · cases h
  · next model hm =>
      split at h
      · cases h
      · next asrConsumed pending d evs' hloop =>
          obtain ⟨rfl, rfl, rfl⟩ : b.drained asrConsumed pending d = b' ∧ d.ids = ids' ∧ evs' = evs := by
            simpa using h
          have htells := tells_chunkTurns (M := M) (t := b.tuning) (vadState = .speech) b.asrBuffer
            (b.asrBuffer.length + 1) 0 b.pendingSpeechEndResets (b.decoding model ids)
          rw [chunkLoop_turns hloop] at htells
          exact ⟨htells.handed, htells.ids, htells.chunkNum⟩

/-- What a call hands out are the texts it was given, numbered; only a new session counts its chunks
anew. -/
theorem opStep_tells [Zero S] {M : Model S σ} {b b' : NemotronBackend S σ} {ids ids' : SegmentIds}
    {op : Op S σ} {evs : List (Event S)} (h : opStep M (b, ids) op = some ((b', ids'), evs)) :
    updates evs = numbered ids (spoken evs) ∧ ids' = ids + (spoken evs).length ∧
      ((∀ load settings, op ≠ .beginSession load settings) →
        b'.chunkNum = b.chunkNum + answered evs) := by
  cases op with
  | beginSession load settings =>
      have hquiet : evs = [] ∨ evs = [.reset .session] := by
        simp only [opStep, NemotronBackend.beginSession] at h
        cases hm : b.model with
        | some model =>
            simp only [hm] at h
            cases h
            exact .inr rfl
        | none =>
            cases load <;> simp only [hm] at h <;> cases h <;> exact .inl rfl
      have hids : ids' = ids := by
        simp only [opStep] at h
        split at h <;> cases h <;> rfl
      subst hids
      rcases hquiet with rfl | rfl <;> exact ⟨rfl, rfl, fun hop => absurd rfl (hop _ _)⟩
  | process vadState =>
      simp only [opStep] at h
      split at h
      · next hp =>
          cases h
          obtain ⟨hu, hids, hnum⟩ := NemotronBackend.process_tells hp
          exact ⟨hu, hids, fun _ => hnum⟩
      · cases h
        exact ⟨rfl, rfl, fun _ => rfl⟩
      · cases h
  | markSpeechStart | pushAudio samples | markSpeechEnd | updateSettings settings =>
      cases h
      exact ⟨rfl, rfl, fun _ => rfl⟩

/-- **Every text is handed out once, under the next number**: the updates of any run of calls are the
texts its chunks gave, replayed ones included, each final and under a fresh id; and unless a session
begins, `chunk_num` grows by the chunks that did not fail. -/
theorem transcript_numbered [Zero S] {M : Model S σ} {b b' : NemotronBackend S σ}
    {ids ids' : SegmentIds} {ops : List (Op S σ)} {evs : List (Event S)}
    (h : Mealy.run (opStep M) (b, ids) ops = some ((b', ids'), evs)) :
    updates evs = numbered ids (spoken evs) ∧ ids' = ids + (spoken evs).length ∧
      ((∀ load settings, Op.beginSession load settings ∉ ops) →
        b'.chunkNum = b.chunkNum + answered evs) := by
  refine Mealy.run_sound (P := fun ops s evs => updates evs = numbered ids (spoken evs) ∧
    s.2 = ids + (spoken evs).length ∧ ((∀ load settings, Op.beginSession load settings ∉ ops) →
      s.1.chunkNum = b.chunkNum + answered evs)) ?_ ⟨rfl, rfl, fun _ => rfl⟩ h
  rintro done ⟨b₁, ids₁⟩ evs₁ op ⟨b₂, ids₂⟩ evs₂ ⟨hu, hids, hnum⟩ hs
  obtain ⟨hu', hids', hnum'⟩ := opStep_tells hs
  dsimp only at hids hnum
  refine ⟨?_, ?_, ?_⟩
  · rw [updates_append, spoken_append, numbered_append, hu, hu', hids]
  · rw [hids', hids, spoken_append, List.length_append, Nat.add_assoc]
  · intro hbegin
    rw [hnum' fun load settings hop => hbegin load settings (by simp [hop]),
      hnum fun load settings hmem => hbegin load settings (List.mem_append_left _ hmem),
      answered_append, Nat.add_assoc]

/-- A text, a chunk that fails and two without a text, the second of which has them replayed: this
time the first of them gives one. -/
theorem transcript_numbered_replay :
    let M : Model ℕ ℕ := ⟨fun m _ => (if m = 1 then .error "busy" else
      .ok (if m = 0 ∨ m = 9 then "a" else ""), m + 1), fun _ => 9⟩
    let b : NemotronBackend ℕ ℕ := NemotronBackend.new.started ⟨1, false, 2⟩ 0
    ∃ b' ids' evs, Mealy.run (opStep M) (b, 7) [.pushAudio (List.replicate 64 0), .process .speech]
        = some ((b', ids'), evs) ∧
      updates evs = [⟨7, true, "a", none⟩, ⟨8, true, "a", none⟩] ∧ b'.chunkNum = answered evs := by
  intro M b
  have hspoken : (Mealy.run (opStep M) (b, 7)
      [.pushAudio (List.replicate 64 0), .process .speech]).map (fun r => spoken r.2)
        = some ["a", "a"] := by
    decide +kernel
  obtain ⟨⟨⟨b', ids'⟩, evs⟩, hr, hsaid⟩ := Option.map_eq_some_iff.mp hspoken
  obtain ⟨hu, -, hnum⟩ := transcript_numbered hr
  refine ⟨b', ids', evs, hr, ?_, ?_⟩
  · rw [hu, hsaid]
    rfl
  · rw [hnum (by simp)]
    exact Nat.zero_add _

end Larmindon.Nemotron
