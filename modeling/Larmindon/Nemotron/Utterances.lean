/-
# `Nemotron.Utterances` — no chunk mixes two utterances

The samples at which a speech-end reset is due are counted from the front of a
buffer that `process` drains without rebasing them.  What makes this right is
the shape of the backlog between two passes:

    asr_buffer    p₁ ++ p₂ ++ … ++ pₖ ++ r
    pending       |p₁|, |p₁| + |p₂|, …           (`offsets 0 [p₁, …, pₖ]`)

with one `p` for each utterance that ended since the last pass, none of them
empty and each a whole number of chunks, and with `r` the audio of an
utterance still open.  So every offset is a positive multiple of the chunk
size and is reached in the same pass, which leaves `r` below one chunk and
nothing pending.

A pass is then a list of `Cue`s played to the decoder one by one, and so is a
session: the onsets, and the live items with the VAD state of their pass.  The
`cues` of a session are computed from the frames and their division alone.

    the chunk loop on such a buffer     (`chunkLoop_play`)
    the calls of one frame              (`Queued.frame`)
    one iteration                       (`Scripted.iteration`)
    a whole session                     (`session_run`, `utterance_isolation`)
-/
import Larmindon.Lib.Chunks
import Larmindon.Nemotron.Backend

namespace Larmindon.Nemotron

open Chunks (cut tail pad)

variable {S σ : Type}

/-! ## What the model is to be passed -/

/-- What isolation is about: the live chunks, and the resets between utterances. -/
inductive Live (S : Type) where
  | chunk (samples : List S)
  | speechEnd
  deriving DecidableEq, Repr

def Event.live : Event S → Option (Live S)
  | .transcribe .live chunk _ => some (.chunk chunk)
  | .reset .speechEnd => some .speechEnd
  | .transcribe .replay _ _ | .reset .session | .reset .punctuation | .reset (.midSpeech _)
  | .update _ => none

def live (evs : List (Event S)) : List (Live S) := evs.filterMap Event.live

/-- Audio of a whole number of chunks that ends an utterance. -/
def closing (n : ℕ) (p : List S) : List (Live S) := (cut n p).map .chunk ++ [.speechEnd]

/-- The utterances in order, each cut into chunks of which only the last is padded, and each that
has ended followed by a reset; of an utterance still open, the full chunks. -/
def script [Zero S] (n : ℕ) : VadState → List (List S) → List (Live S)
  | .silence, us => us.flatMap fun u => closing n (pad n 0 u)
  | .speech, us => (us.dropLast.flatMap fun u => closing n (pad n 0 u)) ++
      (cut n (us.getLastD [])).map .chunk

/-- The audio behind the script: the part of an open utterance that is below one chunk. -/
def leftover (n : ℕ) : VadState → List (List S) → List S
  | .silence, _ => []
  | .speech, us => tail n (us.getLastD [])

@[simp] theorem live_nil : live ([] : List (Event S)) = [] := rfl

@[simp] theorem live_append (evs fvs : List (Event S)) : live (evs ++ fvs) = live evs ++ live fvs :=
  List.filterMap_append

/-! ## The live events of one chunk -/

section Events

variable (M : Model S σ)

theorem live_emit (d : Decoding S σ) (text : String) : live (d.emit text).2 = [] := by
  rw [Decoding.emit]
  split <;> rfl

theorem live_replay (chunks : List (List S)) : ∀ d : Decoding S σ, live (d.replay M chunks).2 = [] := by
  induction chunks with
  | nil => intro d; rfl
  | cons chunk chunks ih =>
      intro d
      have hone : live (d.replayChunk M chunk).2 = [] := by
        rw [Decoding.replayChunk]
        split
        · exact live_emit _ _
        · rfl
      show live ((d.replayChunk M chunk).2 ++ ((d.replayChunk M chunk).1.replay M chunks).2) = []
      rw [live_append, hone, ih, List.append_nil]

theorem live_transcribed (t : Tuning) (vadIsSpeech : Bool) (d : Decoding S σ) (text : String) :
    live (d.transcribed M t vadIsSpeech text).2 = [] := by
  have hp : ∀ d : Decoding S σ, live (d.punctuationReset M t text).2 = [] := by
    intro d
    rw [Decoding.punctuationReset]
    split <;> rfl
  have hh : ∀ d : Decoding S σ, live (d.heuristic M t vadIsSpeech).2 = [] := by
    intro d
    rw [Decoding.heuristic]
    split
    · exact live_replay M _ _
    · rfl
  simp only [Decoding.transcribed, live_append, hp, hh, live_emit, List.append_nil]

/-- A live chunk is passed once; nothing else it brings about is live. -/
theorem live_liveChunk (t : Tuning) (vadIsSpeech : Bool) (d : Decoding S σ) (chunk : List S) :
    live (d.liveChunk M t vadIsSpeech chunk).2 = [.chunk chunk] := by
  rw [Decoding.liveChunk]
  split
  · show .chunk chunk :: live _ = _
    rw [live_transcribed]
  · rfl

/-! ## What is played to the decoder -/

/-- What reaches the decoder: an onset, or a live item under the VAD state sampled for its pass. -/
inductive Cue (S : Type) where
  | speechStart
  | live (vadIsSpeech : Bool) (l : Live S)
  deriving DecidableEq, Repr

def Cue.toLive : Cue S → Option (Live S)
  | .speechStart => none
  | .live _ l => some l

/-- The onset a call brings about, if any. -/
def Cue.ofCall : BackendCall S → Option (Cue S)
  | .markSpeechStart => some .speechStart
  | .pushAudio _ | .markSpeechEnd => none

/-- An onset forgets the chunks without text and those kept for a replay. -/
def Decoding.cue (t : Tuning) (d : Decoding S σ) : Cue S → Decoding S σ × List (Event S)
  | .speechStart => ({ d with consecutiveEmpty := 0, replayBuffer := d.replayBuffer.clear }, [])
  | .live vadIsSpeech (.chunk samples) => d.liveChunk M t vadIsSpeech samples
  | .live _ .speechEnd => (d.reset M, [.reset .speechEnd])

def Decoding.play (t : Tuning) (d : Decoding S σ) : List (Cue S) → Decoding S σ × List (Event S)
  | [] => (d, [])
  | c :: cs =>
      let e := d.cue M t c
      let r := e.1.play t cs
      (r.1, e.2 ++ r.2)

theorem play_append (t : Tuning) (cs ds : List (Cue S)) : ∀ d : Decoding S σ,
    d.play M t (cs ++ ds) = (((d.play M t cs).1.play M t ds).1,
      (d.play M t cs).2 ++ ((d.play M t cs).1.play M t ds).2) := by
  induction cs with
  | nil => intro d; rfl
  | cons c cs ih =>
      intro d
      simp only [List.cons_append, Decoding.play, ih, List.append_assoc]

/-- Of what is played, the live part comes through in order. -/
theorem live_play (t : Tuning) (cs : List (Cue S)) : ∀ d : Decoding S σ,
    live (d.play M t cs).2 = cs.filterMap Cue.toLive := by
  induction cs with
  | nil => intro d; rfl
  | cons c cs ih =>
      intro d
      simp only [Decoding.play, live_append, ih]
      cases c with
      | speechStart => rfl
      | live vadIsSpeech l =>
          cases l with
          | chunk samples =>
              show live (d.liveChunk M t vadIsSpeech samples).2 ++ _ = _
              rw [live_liveChunk]
              rfl
          | speechEnd => rfl

/-- What a pass plays: live items under one VAD state. -/
def passed (vadState : VadState) (ls : List (Live S)) : List (Cue S) :=
  ls.map (.live (vadState = .speech))

theorem toLive_passed (vadState : VadState) (ls : List (Live S)) :
    (passed vadState ls).filterMap Cue.toLive = ls := by
  rw [passed, List.filterMap_map]
  exact List.filterMap_some

/-- The onsets among the calls for some frames. -/
def onsetCues (fs : List (VadDecision S × List S)) : List (Cue S) :=
  (AudioGating.vadGated.calls fs).filterMap Cue.ofCall

theorem toLive_onsetCues (fs : List (VadDecision S × List S)) :
    (onsetCues fs).filterMap Cue.toLive = [] := by
  rw [onsetCues, List.filterMap_filterMap, List.filterMap_eq_nil_iff]
  intro c _
  cases c with
  | markSpeechStart => rfl
  | pushAudio samples => rfl
  | markSpeechEnd => rfl

end Events

/-! ## The speech-end resets -/

/-- Where the pieces end in a buffer in which they begin at `pos`. -/
def offsets : ℕ → List (List S) → List ℕ
  | _, [] => []
  | pos, p :: ps => (pos + p.length) :: offsets (pos + p.length) ps

theorem offsets_append (ps qs : List (List S)) :
    ∀ pos, offsets pos (ps ++ qs) = offsets pos ps ++ offsets (pos + ps.flatten.length) qs := by
  induction ps with
  | nil => intro pos; rfl
  | cons p ps ih =>
      intro pos
      show (pos + p.length) :: offsets (pos + p.length) (ps ++ qs) = _
      rw [ih, List.flatten_cons, List.length_append, ← Nat.add_assoc]
      rfl

/-- Audio of ended utterances: no piece is empty, each is a whole number of chunks. -/
def Whole (n : ℕ) (ps : List (List S)) : Prop := ∀ p ∈ ps, p ≠ [] ∧ n ∣ p.length

theorem Whole.le_length {n : ℕ} {p : List S} {ps : List (List S)} (h : Whole n (p :: ps)) :
    n ≤ p.length := by
  obtain ⟨hne, hd⟩ := h p List.mem_cons_self
  exact Nat.le_of_dvd (List.length_pos_of_ne_nil hne) hd

theorem Whole.tail {n : ℕ} {p : List S} {ps : List (List S)} (h : Whole n (p :: ps)) :
    Whole n ps := by
  intro q hq
  exact h q (List.mem_cons_of_mem _ hq)

/-- What is left of the first piece behind its first chunk. -/
theorem Whole.drop {n : ℕ} {p : List S} {ps : List (List S)} (h : Whole n (p :: ps))
    (hlt : n < p.length) : Whole n (p.drop n :: ps) := by
  intro q hq
  rcases List.mem_cons.mp hq with rfl | hq
  · refine ⟨?_, ?_⟩
    · intro h0
      have := congrArg List.length h0
      simp only [List.length_drop, List.length_nil] at this
      omega
    · rw [List.length_drop]
      exact Nat.dvd_sub (h p List.mem_cons_self).2 (Nat.dvd_refl n)
  · exact h.tail q hq

section Resets

variable (M : Model S σ) {n : ℕ}

/-- No reset is due before a piece is consumed. -/
theorem speechEndResets_offsets {ps : List (List S)} (h : Whole n ps) (pos : ℕ)
    (d : Decoding S σ) : d.speechEndResets M pos (offsets pos ps) = (d, [], offsets pos ps) := by
  cases ps with
  | nil => rfl
  | cons p ps =>
      have hpos := List.length_pos_of_ne_nil (h p List.mem_cons_self).1
      exact if_neg (by omega)

/-- The chunk that completes a piece brings one reset. -/
theorem speechEndResets_due {ps : List (List S)} (h : Whole n ps) (pos : ℕ) (d : Decoding S σ) :
    d.speechEndResets M pos (pos :: offsets pos ps) =
      (d.reset M, [.reset .speechEnd], offsets pos ps) := by
  rw [Decoding.speechEndResets, if_pos (Nat.le_refl pos), speechEndResets_offsets M h]

/-! ## The chunk loop -/

/-- A pass over ended utterances and an open one plays each of the first to its end, followed by a
reset, and of the last the full chunks.  The induction is on the fuel, which is more than the samples
left. -/
theorem chunkLoop_play (hn : 0 < n) (t : Tuning) (ht : t.chunkSize = n) (vadState : VadState)
    (buffer : List S) : ∀ (fuel pos : ℕ) (d : Decoding S σ) (ps : List (List S)) (r : List S),
    buffer.length - pos < fuel → buffer.drop pos = ps.flatten ++ r → Whole n ps →
    ∃ pos', chunkLoop M t (vadState = .speech) buffer fuel pos (offsets pos ps) d =
        some (pos', [],
          d.play M t (passed vadState (ps.flatMap (closing n) ++ (cut n r).map .chunk))) ∧
      buffer.drop pos' = tail n r := by
  subst ht
  intro fuel
  induction fuel with
  | zero =>
      intro pos d ps r hfuel
      exact absurd hfuel (Nat.not_lt_zero _)
  | succ fuel ih =>
      intro pos d ps r hfuel hrest hwhole
      have hlen : buffer.length - pos = (ps.flatten ++ r).length := by
        rw [← hrest, List.length_drop]
      cases ps with
      | nil =>
          simp only [List.flatten_nil, List.nil_append] at hrest hlen
          cases Nat.lt_or_ge r.length t.chunkSize with
          | inl hlt =>
              refine ⟨pos, ?_, ?_⟩
              · rw [chunkLoop, if_neg (by omega), Chunks.cut_of_lt hlt]
                rfl
              · rw [hrest, Chunks.tail_of_lt hlt]
          | inr hge =>
              obtain ⟨pos', hloop, hdrop⟩ := ih (pos + t.chunkSize)
                (d.liveChunk M t (vadState = .speech) (r.take t.chunkSize)).1 []
                (r.drop t.chunkSize) (by omega) (by rw [← List.drop_drop, hrest]; rfl) hwhole
              rw [offsets] at hloop
              refine ⟨pos', ?_, by rw [hdrop, ← Chunks.tail_cons hn hge]⟩
              rw [chunkLoop, if_pos (by omega), hrest, Chunks.cut_cons hn hge]
              simp only [offsets, Decoding.speechEndResets, hloop, List.append_nil]
              rfl
      | cons p ps =>
          have hp : t.chunkSize ≤ p.length := hwhole.le_length
          have hge : t.chunkSize ≤ buffer.length - pos := by
            rw [hlen, List.flatten_cons, List.length_append, List.length_append]
            omega
          have hchunk : (buffer.drop pos).take t.chunkSize = p.take t.chunkSize := by
            rw [hrest, List.flatten_cons, List.append_assoc, List.take_append_of_le_length hp]
          have hnext : buffer.drop (pos + t.chunkSize) =
              p.drop t.chunkSize ++ (ps.flatten ++ r) := by
            rw [← List.drop_drop, hrest, List.flatten_cons, List.append_assoc,
              List.drop_append_of_le_length hp]
          cases Nat.lt_or_ge t.chunkSize p.length with
          | inl hlt =>
              -- The utterance goes on behind this chunk; its offset is further on.
              have hoff : offsets pos (p :: ps) =
                  offsets (pos + t.chunkSize) (p.drop t.chunkSize :: ps) := by
                simp only [offsets, List.length_drop]
                rw [show pos + t.chunkSize + (p.length - t.chunkSize) = pos + p.length by omega]
              obtain ⟨pos', hloop, hdrop⟩ := ih (pos + t.chunkSize)
                (d.liveChunk M t (vadState = .speech) (p.take t.chunkSize)).1
                (p.drop t.chunkSize :: ps) r (by omega)
                (by rw [hnext, List.flatten_cons, List.append_assoc]) (hwhole.drop hlt)
              refine ⟨pos', ?_, hdrop⟩
              rw [chunkLoop, if_pos hge, hchunk, hoff]
              simp only [speechEndResets_offsets M (hwhole.drop hlt), hloop, List.append_nil]
              rw [List.flatMap_cons, List.flatMap_cons, closing, closing, Chunks.cut_cons hn hp]
              rfl
          | inr hle =>
              -- The last chunk of the utterance.
              have hoff : offsets pos (p :: ps) =
                  (pos + t.chunkSize) :: offsets (pos + t.chunkSize) ps := by
                rw [offsets, show p.length = t.chunkSize by omega]
              have hlast : p.drop t.chunkSize = [] := List.drop_eq_nil_of_le hle
              obtain ⟨pos', hloop, hdrop⟩ := ih (pos + t.chunkSize)
                ((d.liveChunk M t (vadState = .speech) (p.take t.chunkSize)).1.reset M) ps r
                (by omega) (by rw [hnext, hlast, List.nil_append]) hwhole.tail
              refine ⟨pos', ?_, hdrop⟩
              rw [chunkLoop, if_pos hge, hchunk, hoff]
              simp only [speechEndResets_due M hwhole.tail, hloop, List.append_assoc]
              rw [List.flatMap_cons, closing, Chunks.cut_cons hn hp, hlast, Chunks.cut_nil]
              rfl

end Resets

/-! ## The backlog between two passes -/

variable {n : ℕ}

/-- The backlog: `ps` is the audio of the utterances that ended, `r` that of the one still open. -/
structure Backlog (n : ℕ) (b : NemotronBackend S σ) (ps : List (List S)) (r : List S) : Prop where
  loaded : b.model.isSome
  chunkSize : b.chunkSize = n
  buffer : b.asrBuffer = ps.flatten ++ r
  pending : b.pendingSpeechEndResets = offsets 0 ps
  whole : Whole n ps

theorem Whole.dvd_flatten {ps : List (List S)} (h : Whole n ps) : n ∣ ps.flatten.length := by
  induction ps with
  | nil => exact Nat.dvd_zero n
  | cons p ps ih =>
      rw [List.flatten_cons, List.length_append]
      exact Nat.dvd_add (h p List.mem_cons_self).2 (ih h.tail)

theorem Backlog.markSpeechStart {b : NemotronBackend S σ} {ps : List (List S)} {r : List S}
    (h : Backlog n b ps r) : Backlog n b.markSpeechStart ps r :=
  ⟨h.loaded, h.chunkSize, h.buffer, h.pending, h.whole⟩

theorem Backlog.pushAudio {b : NemotronBackend S σ} {ps : List (List S)} {r : List S}
    (h : Backlog n b ps r) (samples : List S) :
    Backlog n (b.pushAudio samples) ps (r ++ samples) where
  loaded := h.loaded
  chunkSize := h.chunkSize
  buffer := by
    show b.asrBuffer ++ samples = ps.flatten ++ (r ++ samples)
    rw [h.buffer, List.append_assoc]
  pending := h.pending
  whole := h.whole

theorem padToChunkBoundary_eq [Zero S] (hn : 0 < n) (buffer : List S) :
    NemotronBackend.padToChunkBoundary buffer n = pad n 0 buffer := by
  cases buffer with
  | nil => simp [NemotronBackend.padToChunkBoundary, pad]
  | cons s buffer => simp [NemotronBackend.padToChunkBoundary, pad, Nat.ne_of_gt hn]

/-- The end of an utterance: what is behind the last full chunk is padded, nothing else is. -/
theorem Backlog.markSpeechEnd [Zero S] {b : NemotronBackend S σ} {ps : List (List S)} {r : List S}
    (h : Backlog n b ps r) (hn : 0 < n) (hr : r ≠ []) :
    Backlog n b.markSpeechEnd (ps ++ [pad n 0 r]) [] := by
  have hpad : NemotronBackend.padToChunkBoundary b.asrBuffer b.chunkSize =
      ps.flatten ++ pad n 0 r := by
    rw [h.chunkSize, h.buffer, padToChunkBoundary_eq hn, Chunks.pad_append h.whole.dvd_flatten]
  refine ⟨h.loaded, h.chunkSize, ?_, ?_, ?_⟩
  · show NemotronBackend.padToChunkBoundary b.asrBuffer b.chunkSize = _
    rw [hpad]
    simp
  · show b.pendingSpeechEndResets ++
      [(NemotronBackend.padToChunkBoundary b.asrBuffer b.chunkSize).length] = _
    rw [hpad, h.pending, offsets_append, List.length_append, Nat.zero_add]
    rfl
  · intro p hp
    rcases List.mem_append.mp hp with hp | hp
    · exact h.whole p hp
    · rw [List.mem_singleton.mp hp]
      exact ⟨Chunks.pad_ne_nil hr n 0, Chunks.dvd_length_pad hn 0 r⟩

/-! ## The decoder of a backend -/

/-- The backend works with the settings `t`, and its decoder stands at `d`. -/
structure Decodes (t : Tuning) (b : NemotronBackend S σ) (ids : SegmentIds) (d : Decoding S σ) :
    Prop where
  model : b.model = some d.model
  decoding : b.decoding d.model ids = d
  tuning : b.tuning = t

/-- Of the calls of the frame loop only an onset reaches the decoder. -/
theorem Decodes.calls [Zero S] {t : Tuning} {ids : SegmentIds} (M : Model S σ)
    (cs : List (BackendCall S)) : ∀ {b : NemotronBackend S σ} {d : Decoding S σ},
    Decodes t b ids d → (d.play M t (cs.filterMap Cue.ofCall)).2 = [] ∧
      Decodes t (cs.foldl .hear b) ids (d.play M t (cs.filterMap Cue.ofCall)).1 := by
  induction cs with
  | nil =>
      intro b d h
      exact ⟨rfl, h⟩
  | cons c cs ih =>
      intro b d h
      cases c with
      | markSpeechStart =>
          have hstart : Decodes t b.markSpeechStart ids (d.cue M t .speechStart).1 := by
            refine ⟨h.model, ?_, h.tuning⟩
            show { b.decoding d.model ids with
              consecutiveEmpty := 0, replayBuffer := b.replayBuffer.clear } = _
            rw [show b.replayBuffer = d.replayBuffer from congrArg Decoding.replayBuffer h.decoding,
              h.decoding]
            rfl
          exact ih hstart
      | pushAudio samples => exact ih (b := b.pushAudio samples) ⟨h.model, h.decoding, h.tuning⟩
      | markSpeechEnd => exact ih (b := b.markSpeechEnd) ⟨h.model, h.decoding, h.tuning⟩

/-- A pass plays the ended utterances to their ends, and of the open one the full chunks; less than a
chunk stays. -/
theorem Backlog.process {b : NemotronBackend S σ} {ps : List (List S)} {r : List S}
    (h : Backlog n b ps r) (hn : 0 < n) (M : Model S σ) {t : Tuning} {ids : SegmentIds}
    {d : Decoding S σ} (hd : Decodes t b ids d) (vadState : VadState) :
    let e := d.play M t (passed vadState (ps.flatMap (closing n) ++ (cut n r).map .chunk))
    ∃ b', b.process M vadState ids = some (.ok (b', e.1.ids, e.2)) ∧
      Backlog n b' [] (tail n r) ∧ Decodes t b' e.1.ids e.1 := by
  intro e
  obtain ⟨pos, hloop, hdrop⟩ := chunkLoop_play M hn t (by rw [← hd.tuning]; exact h.chunkSize)
    vadState b.asrBuffer (b.asrBuffer.length + 1) 0 d ps r (by omega) h.buffer h.whole
  rw [← h.pending] at hloop
  refine ⟨b.drained pos [] e.1, ?_, ?_, ?_⟩
  · simp only [NemotronBackend.process, hd.model, hd.decoding, hd.tuning, hloop]
    rfl
  · exact ⟨rfl, h.chunkSize, hdrop, rfl, by intro p hp; cases hp⟩
  · exact ⟨rfl, rfl, hd.tuning⟩

/-! ## The script as the frames come in -/

/-- What of the script is complete, in a VAD state and after the given utterances: all of it while
nothing is open, and otherwise all but the audio `r` of the open one. -/
inductive Tracks [Zero S] (n : ℕ) : VadState → List (List S) → List (Live S) → List S → Prop
  | silence (us : List (List S)) :
      Tracks n .silence us (us.flatMap fun u => closing n (pad n 0 u)) []
  | speech (us : List (List S)) (a r : List S) (h : n ∣ a.length) :
      Tracks n .speech (us ++ [a ++ r])
        ((us.flatMap fun u => closing n (pad n 0 u)) ++ (cut n a).map .chunk) r

section Tracks

variable [Zero S] {us : List (List S)} {done : List (Live S)} {r : List S}

theorem Tracks.started (h : Tracks n .silence us done r) (xs : List S) :
    Tracks n .speech (us ++ [xs]) done (r ++ xs) := by
  cases h with
  | silence =>
      have hopen := Tracks.speech us [] xs (n := n) (Nat.dvd_zero n)
      simpa [Chunks.cut_nil] using hopen

theorem Tracks.continued (h : Tracks n .speech us done r) (xs : List S) :
    Tracks n .speech (us.dropLast ++ [us.getLastD [] ++ xs]) done (r ++ xs) := by
  cases h with
  | speech us a r ha =>
      have hopen := Tracks.speech us a (r ++ xs) ha
      simpa using hopen

theorem Tracks.ended (h : Tracks n .speech us done r) (hn : 0 < n) :
    Tracks n .silence us (done ++ closing n (pad n 0 r)) [] := by
  cases h with
  | speech us a r ha =>
      have hclosed := Tracks.silence (n := n) (us ++ [a ++ r])
      rw [List.flatMap_append, List.flatMap_singleton, Chunks.pad_append ha, closing,
        Chunks.cut_append hn ha, List.map_append, List.append_assoc] at hclosed
      rw [List.append_assoc]
      exact hclosed

/-- A pass completes the full chunks of the open utterance. -/
theorem Tracks.passed {s : VadState} (h : Tracks n s us done r) (hn : 0 < n) :
    Tracks n s us (done ++ (cut n r).map .chunk) (tail n r) := by
  cases h with
  | silence =>
      have hlt : ([] : List S).length < n := hn
      rw [Chunks.cut_of_lt hlt, Chunks.tail_of_lt hlt, List.map_nil, List.append_nil]
      exact .silence us
  | speech us a r ha =>
      have hlen : n ∣ (a ++ (cut n r).flatten).length := by
        rw [List.length_append]
        exact Nat.dvd_add ha (Chunks.dvd_length_cut_flatten hn r)
      have hopen := Tracks.speech us (a ++ (cut n r).flatten) (tail n r) hlen
      rw [Chunks.cut_append hn ha, Chunks.cut_cut_flatten hn, List.append_assoc,
        Chunks.cut_flatten hn, List.map_append, ← List.append_assoc] at hopen
      exact hopen

/-- When less than a chunk is open, what is complete is the script. -/
theorem Tracks.script {s : VadState} (h : Tracks n s us done r) (hn : 0 < n) (hr : r.length < n) :
    done = script n s us ∧ r = leftover n s us := by
  cases h with
  | silence => exact ⟨rfl, rfl⟩
  | speech us a r ha =>
      simp [Nemotron.script, leftover, Chunks.cut_append hn ha, Chunks.tail_append hn ha,
        Chunks.cut_of_lt hr, Chunks.tail_of_lt hr]

/-! ## Frames and passes -/

/-- Between the frames of an iteration: `done` was passed to the model, the rest is in the backlog. -/
def Queued (n : ℕ) (s : VadState) (us : List (List S)) (done : List (Live S))
    (b : NemotronBackend S σ) : Prop :=
  ∃ ps r, Backlog n b ps r ∧ Tracks n s us (done ++ ps.flatMap (closing n)) r

/-- One frame, by what was decided on it. -/
theorem Queued.frame {s : VadState} {b : NemotronBackend S σ} (h : Queued n s us done b)
    (hn : 0 < n) {f : VadDecision S × List S} (ho : f.1.origin = s) (hne : f.2 ≠ []) :
    Queued n f.1.state ((AudioGating.vadGated.route f.1 f.2).foldl addCall us) done
      ((AudioGating.vadGated.route f.1 f.2).foldl .hear b) := by
  obtain ⟨d, frame⟩ := f
  obtain ⟨ps, r, hb, ht⟩ := h
  cases d with
  | silence =>
      subst ho
      exact ⟨ps, r, hb, ht⟩
  | speechStarted pre =>
      subst ho
      refine ⟨ps, r ++ (pre ++ frame), ?_, ?_⟩
      · rw [← List.append_assoc]
        exact (hb.markSpeechStart.pushAudio pre).pushAudio frame
      · have hopen := ht.started (pre ++ frame)
        simpa [AudioGating.route, addCall, VadDecision.state] using hopen
  | speechContinues =>
      subst ho
      exact ⟨ps, r ++ frame, hb.pushAudio frame, ht.continued frame⟩
  | speechEnded =>
      subst ho
      have hr : r ++ frame ≠ [] := List.append_ne_nil_of_right_ne_nil r hne
      refine ⟨ps ++ [pad n 0 (r ++ frame)], [], (hb.pushAudio frame).markSpeechEnd hn hr, ?_⟩
      rw [List.flatMap_append, List.flatMap_singleton, ← List.append_assoc]
      exact (ht.continued frame).ended hn

/-- The frames of an iteration. -/
theorem Queued.frames {fs : List (VadDecision S × List S)} (hn : 0 < n) :
    ∀ {s : VadState} {us : List (List S)} {b : NemotronBackend S σ}, Queued n s us done b →
      Ordered s fs → (∀ f ∈ fs, f.2 ≠ []) →
      Queued n (stateAfter s fs) ((AudioGating.vadGated.calls fs).foldl addCall us) done
        ((AudioGating.vadGated.calls fs).foldl .hear b) := by
  induction fs with
  | nil =>
      intro s us b h _ _
      exact h
  | cons f fs ih =>
      intro s us b h ho hne
      have hf := h.frame hn ho.1 (hne f List.mem_cons_self)
      have hfs := ih hf ho.2 (by
        intro g hg
        exact hne g (List.mem_cons_of_mem f hg))
      show Queued n (stateAfter f.1.state fs)
        ((AudioGating.vadGated.route f.1 f.2 ++ AudioGating.vadGated.calls fs).foldl addCall us) done
        ((AudioGating.vadGated.route f.1 f.2 ++ AudioGating.vadGated.calls fs).foldl .hear b)
      rw [List.foldl_append, List.foldl_append]
      exact hfs

/-- Between two iterations: nothing is pending, and less than a chunk is open. -/
def Scripted (n : ℕ) (s : VadState) (us : List (List S)) (done : List (Live S))
    (b : NemotronBackend S σ) : Prop :=
  ∃ r, Backlog n b [] r ∧ Tracks n s us done r ∧ r.length < n

/-- One iteration plays its onsets, and then what its pass completes. -/
theorem Scripted.iteration {s : VadState} {b : NemotronBackend S σ} (h : Scripted n s us done b)
    (hn : 0 < n) (M : Model S σ) {t : Tuning} {ids : SegmentIds} {d : Decoding S σ}
    (hd : Decodes t b ids d) {fs : List (VadDecision S × List S)} (ho : Ordered s fs)
    (hne : ∀ f ∈ fs, f.2 ≠ []) (vadState : VadState) :
    ∃ new, let e := d.play M t (onsetCues fs ++ passed vadState new)
      ∃ b', iteration M (b, ids) (fs, vadState) = some ((b', e.1.ids), e.2) ∧
        Decodes t b' e.1.ids e.1 ∧
        Scripted n (stateAfter s fs) ((AudioGating.vadGated.calls fs).foldl addCall us)
          (done ++ new) b' := by
  obtain ⟨r₀, hb₀, ht₀, -⟩ := h
  have hq : Queued n s us done b := ⟨[], r₀, hb₀, by rwa [List.flatMap_nil, List.append_nil]⟩
  obtain ⟨ps, r, hb, ht⟩ := hq.frames hn ho hne
  obtain ⟨hquiet, hd'⟩ := hd.calls M (AudioGating.vadGated.calls fs)
  obtain ⟨b', hp, hb', hd''⟩ := hb.process hn M hd' vadState
  refine ⟨ps.flatMap (closing n) ++ (cut n r).map .chunk, b', ?_, ?_, tail n r, hb', ?_, ?_⟩
  · simp only [Nemotron.iteration, hp, play_append, onsetCues, hquiet, List.nil_append]
  · simpa only [play_append, onsetCues] using hd''
  · rw [← List.append_assoc]
    exact ht.passed hn
  · rw [Chunks.length_tail]
    exact Nat.mod_lt _ hn

/-! ## A session -/

/-- A session begins with nothing buffered and nothing pending, whatever the one before it left. -/
theorem scripted_of_beginSession {M : Model S σ} {load : Except String σ} {settings : Settings}
    {b₀ b : NemotronBackend S σ} {evs : List (Event S)}
    (h : b₀.beginSession M load settings = .ok (b, evs)) (hn : 0 < b.chunkSize) (ids : SegmentIds) :
    Scripted b.chunkSize .silence [] [] b ∧ ∃ d, Decodes b.tuning b ids d := by
  have hb : ∃ model, b = b₀.started settings model := by
    cases hm : b₀.model with
    | some model =>
        simp only [NemotronBackend.beginSession, hm, Except.ok.injEq, Prod.mk.injEq] at h
        exact ⟨M.reset model, h.1.symm⟩
    | none =>
        cases load with
        | error e => simp [NemotronBackend.beginSession, hm] at h
        | ok model =>
            simp only [NemotronBackend.beginSession, hm, Except.ok.injEq, Prod.mk.injEq] at h
            exact ⟨model, h.1.symm⟩
  obtain ⟨model, rfl⟩ := hb
  refine ⟨⟨[], ⟨rfl, rfl, rfl, rfl, ?_⟩, .silence [], hn⟩, ?_⟩
  · intro p hp
    cases hp
  · exact ⟨(b₀.started settings model).decoding model ids, rfl, rfl, rfl⟩

/-- The frames of a list of iterations. -/
def frames (its : List (List (VadDecision S × List S) × VadState)) :
    List (VadDecision S × List S) := its.flatMap Prod.fst

/-- What of the script is complete behind some frames of a session. -/
def complete (n : ℕ) (fs : List (VadDecision S × List S)) : List (Live S) :=
  script n (stateAfter .silence fs) (utterances (AudioGating.vadGated.calls fs))

/-- What the iterations play, behind the frames `before`: each its onsets, and then what it completes,
under the VAD state it samples. -/
def cues (n : ℕ) : List (VadDecision S × List S) →
    List (List (VadDecision S × List S) × VadState) → List (Cue S)
  | _, [] => []
  | before, (fs, vadState) :: its =>
      onsetCues fs ++
        passed vadState ((complete n (before ++ fs)).drop (complete n before).length) ++
        cues n (before ++ fs) its

theorem Scripted.complete {fs : List (VadDecision S × List S)} {b : NemotronBackend S σ}
    (h : Scripted n (stateAfter .silence fs) (utterances (AudioGating.vadGated.calls fs)) done b)
    (hn : 0 < n) : done = complete n fs := by
  obtain ⟨r, -, ht, hr⟩ := h
  exact (ht.script hn hr).1

theorem cues_snoc (fs : List (VadDecision S × List S)) (vadState : VadState)
    (its : List (List (VadDecision S × List S) × VadState)) : ∀ before,
    cues n before (its ++ [(fs, vadState)]) = cues n before its ++ (onsetCues fs ++
      passed vadState ((complete n (before ++ frames its ++ fs)).drop
        (complete n (before ++ frames its)).length)) := by
  induction its with
  | nil =>
      intro before
      simp [cues, frames]
  | cons i its ih =>
      intro before
      simp [cues, frames, ih]

/-- Behind the iterations `its` of a session whose decoder stood at `d` when it began. -/
structure Session (n : ℕ) (M : Model S σ) (t : Tuning) (d : Decoding S σ)
    (its : List (List (VadDecision S × List S) × VadState)) (s : NemotronBackend S σ × SegmentIds)
    (evs : List (Event S)) : Prop where
  scripted : Scripted n (stateAfter .silence (frames its))
    (utterances (AudioGating.vadGated.calls (frames its))) (live evs) s.1
  decodes : Decodes t s.1 s.2 (d.play M t (cues n [] its)).1
  played : evs = (d.play M t (cues n [] its)).2

/-- One more iteration: what is complete then is what was, and what its pass adds. -/
theorem Session.iteration {M : Model S σ} {t : Tuning} {d : Decoding S σ}
    {its : List (List (VadDecision S × List S) × VadState)} {b : NemotronBackend S σ}
    {ids : SegmentIds} {evs : List (Event S)} (h : Session n M t d its (b, ids) evs) (hn : 0 < n)
    {fs : List (VadDecision S × List S)} (ho : Ordered .silence (frames its ++ fs))
    (hne : ∀ f ∈ fs, f.2 ≠ []) (vadState : VadState) :
    ∃ s' evs', iteration M (b, ids) (fs, vadState) = some (s', evs') ∧
      Session n M t d (its ++ [(fs, vadState)]) s' (evs ++ evs') := by
  obtain ⟨new, b', hstep, hd', hs'⟩ :=
    h.scripted.iteration hn M h.decodes (ordered_append.mp ho).2 hne vadState
  have hcalls : AudioGating.vadGated.calls (frames its ++ fs) =
      AudioGating.vadGated.calls (frames its) ++ AudioGating.vadGated.calls fs :=
    List.flatMap_append
  have hframes : frames (its ++ [(fs, vadState)]) = frames its ++ fs := by simp [frames]
  rw [← stateAfter_append, ← utterances_append, ← hcalls] at hs'
  have hnew : (complete n (frames its ++ fs)).drop (complete n (frames its)).length = new := by
    rw [← h.scripted.complete hn, ← hs'.complete hn, List.drop_left]
  have hcues : cues n [] (its ++ [(fs, vadState)]) =
      cues n [] its ++ (onsetCues fs ++ passed vadState new) := by
    rw [cues_snoc, List.nil_append, hnew]
  have hplay := play_append M t (cues n [] its) (onsetCues fs ++ passed vadState new) d
  rw [← hcues, ← h.played] at hplay
  refine ⟨_, _, hstep, ?_, ?_, ?_⟩
  · rw [hframes, live_append, live_play, List.filterMap_append, toLive_onsetCues, toLive_passed,
      List.nil_append]
    exact hs'
  · rw [hplay]
    exact hd'
  · rw [hplay]

theorem Session.live {M : Model S σ} {t : Tuning} {d : Decoding S σ}
    {its : List (List (VadDecision S × List S) × VadState)} {s : NemotronBackend S σ × SegmentIds}
    {evs : List (Event S)} (h : Session n M t d its s evs) (hn : 0 < n) :
    Nemotron.live evs = complete n (frames its) :=
  h.scripted.complete hn

/-- A whole session, of frames in an order the VAD can produce. -/
theorem session_run {M : Model S σ} {load : Except String σ} {settings : Settings}
    {b₀ b : NemotronBackend S σ} {begun : List (Event S)}
    (hbegin : b₀.beginSession M load settings = .ok (b, begun)) (hn : 0 < b.chunkSize)
    (ids : SegmentIds) : ∃ d : Decoding S σ,
    ∀ its : List (List (VadDecision S × List S) × VadState),
      Ordered .silence (frames its) ∧ (∀ f ∈ frames its, f.2 ≠ []) →
      ∃ s evs, Mealy.run (Nemotron.iteration M) (b, ids) its = some (s, evs) ∧
        Session b.chunkSize M b.tuning d its s evs := by
  obtain ⟨hscripted, d, hd⟩ := scripted_of_beginSession hbegin hn ids
  refine ⟨d, ?_⟩
  intro its hits
  refine Mealy.run_within
    (G := fun is => Ordered .silence (frames is) ∧ ∀ f ∈ frames is, f.2 ≠ []) ?_ ?_
    ⟨hscripted, hd, rfl⟩ its hits
  · intro xs ys hg
    rw [frames, List.flatMap_append] at hg
    refine ⟨(ordered_append.mp hg.1).1, ?_⟩
    intro f hf
    exact hg.2 f (List.mem_append_left _ hf)
  · rintro is ⟨b₁, ids₁⟩ evs₁ ⟨fs, vadState⟩ h ⟨ho, hne⟩
    have hframes : frames (is ++ [(fs, vadState)]) = frames is ++ fs := by simp [frames]
    rw [hframes] at ho hne
    refine h.iteration hn ho ?_ vadState
    intro f hf
    exact hne f (List.mem_append_right _ hf)

/-- Utterances are isolated.  From a session's begin with a chunk size above zero on, for frames
decided on in any order the VAD can produce, none of them empty, divided into iterations in any
way, and whatever the model does: every pass returns and leaves nothing pending; the live chunks are
those of the utterances in order, each cut apart from the others and only its last chunk padded;
after each that ended comes one speech-end reset, before the next; and what is left in the buffer is
the part of an open utterance below one chunk. -/
theorem utterance_isolation {M : Model S σ} {load : Except String σ} {settings : Settings}
    {b₀ b : NemotronBackend S σ} {begun : List (Event S)}
    (hbegin : b₀.beginSession M load settings = .ok (b, begun)) (hn : 0 < b.chunkSize)
    (ids : SegmentIds) (its : List (List (VadDecision S × List S) × VadState))
    (ho : Ordered .silence (frames its)) (hne : ∀ f ∈ frames its, f.2 ≠ []) :
    ∃ b' ids' evs, Mealy.run (iteration M) (b, ids) its = some ((b', ids'), evs) ∧
      live evs = script b.chunkSize (stateAfter .silence (frames its))
        (utterances (AudioGating.vadGated.calls (frames its))) ∧
      b'.pendingSpeechEndResets = [] ∧
      b'.asrBuffer = leftover b.chunkSize (stateAfter .silence (frames its))
        (utterances (AudioGating.vadGated.calls (frames its))) := by
  obtain ⟨d, hsession⟩ := session_run hbegin hn ids
  obtain ⟨⟨b', ids'⟩, evs, hrun, hs⟩ := hsession its ⟨ho, hne⟩
  obtain ⟨r, hb, ht, hr⟩ := hs.scripted
  obtain ⟨hdone, hleft⟩ := ht.script hn hr
  refine ⟨b', ids', evs, hrun, hdone, hb.pending, ?_⟩
  rw [← hleft]
  exact hb.buffer

end Tracks

/-- A chunk of 16 samples; the first iteration hears an utterance of 24 and the onset of another,
the second the rest of it. -/
theorem utterance_isolation_backlog :
    let M : Model ℕ ℕ := ⟨fun m _ => (.ok "", m), id⟩
    let b : NemotronBackend ℕ ℕ := NemotronBackend.new.started ⟨1, true, 1⟩ 0
    let frame : List ℕ := List.replicate 8 1
    let its : List (List (VadDecision ℕ × List ℕ) × VadState) :=
      [([(.speechStarted (List.replicate 8 2), frame), (.speechEnded, frame),
        (.speechStarted [3, 4], frame)], .speech), ([(.speechContinues, frame)], .speech)]
    ∃ b' ids' evs, Mealy.run (iteration M) (b, 1) its = some ((b', ids'), evs) ∧
      live evs = [.chunk (List.replicate 8 2 ++ frame), .chunk (frame ++ List.replicate 8 0),
        .speechEnd, .chunk ([3, 4] ++ frame ++ List.replicate 6 1)] ∧
      b'.pendingSpeechEndResets = [] ∧ b'.asrBuffer = [1, 1] := by
  intro M b frame its
  have hbegin : NemotronBackend.new.beginSession M (.ok 0) ⟨1, true, 1⟩ = .ok (b, []) := rfl
  obtain ⟨b', ids', evs, hrun, hlive, hpending, hbuffer⟩ :=
    utterance_isolation hbegin (by decide) 1 its (by decide) (by decide)
  refine ⟨b', ids', evs, hrun, ?_, hpending, ?_⟩
  · rw [hlive]
    decide +kernel
  · rw [hbuffer]
    decide +kernel

end Larmindon.Nemotron
