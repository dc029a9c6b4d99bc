/-
# `Nemotron.Resets` — the books that go with the decoder

Three things are kept beside the decoder and say how it stands: the chunks passed
to it since its last reset are counted, those in a row that gave no text are
counted, and the last ones are kept.  The model knows nothing of them.  Each of
the four resets clears all three by hand, two of them can fire for one chunk, and
a mid-speech reset passes more chunks to the model on its way.

The books are right between any two calls of the model, not only when a pass is
over.  Every pass is a run of lines (`Line`), and each of them keeps the books
right (`Booked.line`): the count is that of the events, and where it is zero there
is nothing in the other two.
-/
import Larmindon.Nemotron.Moves

namespace Larmindon.Nemotron

variable {S σ : Type}

/-! ## What the events say -/

/-- The chunks passed to the model since its last reset, or since it was loaded: live and replayed,
decoded or failed. -/
def sinceReset (evs : List (Event S)) : ℕ :=
  evs.foldl (fun n e => match e with
    | .transcribe _ _ _ => n + 1
    | .reset _ => 0
    | .update _ => n) 0

theorem sinceReset_snoc (evs : List (Event S)) (e : Event S) :
    sinceReset (evs ++ [e]) = match e with
      | .transcribe _ _ _ => sinceReset evs + 1
      | .reset _ => 0
      | .update _ => sinceReset evs := by
  rw [sinceReset, List.foldl_append]
  rfl

/-- The books, after `evs`: the count of the chunks, and the other two at a decoder that is fresh. -/
structure Booked (evs : List (Event S)) (count empty : ℕ) (rb : ReplayBuffer S) : Prop where
  count : count = sinceReset evs
  empty : sinceReset evs = 0 → empty = 0
  kept : sinceReset evs = 0 → rb.chunks = []

section booked

variable {evs : List (Event S)} {count empty : ℕ} {rb : ReplayBuffer S}

theorem Booked.transcribe (h : Booked evs count empty rb) (source : ChunkSource) (chunk : List S)
    (result : Except String String) (empty' : ℕ) (rb' : ReplayBuffer S) :
    Booked (evs ++ [.transcribe source chunk result]) (count + 1) empty' rb' := by
  have hcount : sinceReset (evs ++ [.transcribe source chunk result]) = sinceReset evs + 1 :=
    sinceReset_snoc evs _
  refine ⟨by rw [hcount, h.count], ?_, ?_⟩
  · intro hzero
    omega
  · intro hzero
    omega

theorem Booked.update (h : Booked evs count empty rb) (u : TranscriptUpdate) :
    Booked (evs ++ [.update u]) count empty rb := by
  have hcount : sinceReset (evs ++ [.update u]) = sinceReset evs := sinceReset_snoc evs _
  exact ⟨h.count.trans hcount.symm, hcount ▸ h.empty, hcount ▸ h.kept⟩

theorem Booked.reset (evs : List (Event S)) (cause : ResetCause S) (rb : ReplayBuffer S) :
    Booked (evs ++ [.reset cause]) 0 0 rb.clear := by
  have hcount : sinceReset (evs ++ [.reset cause]) = 0 := sinceReset_snoc evs _
  exact ⟨hcount.symm, fun _ => rfl, fun _ => rfl⟩

/-- What is cleared, or cut down, between two chunks. -/
theorem Booked.less (h : Booked evs count empty rb) {empty' : ℕ} {rb' : ReplayBuffer S}
    (hempty : empty = 0 → empty' = 0) (hkept : rb.chunks = [] → rb'.chunks = []) :
    Booked evs count empty' rb' :=
  ⟨h.count, fun hzero => hempty (h.empty hzero), fun hzero => hkept (h.kept hzero)⟩

end booked

/-! ## What a line does -/

namespace Decoding

variable {M : Model S σ} {d : Decoding S σ}

/-- The events of a text handed out. -/
theorem reset_not_mem_emit (text : String) (cause : ResetCause S) : .reset cause ∉ (d.emit text).2 := by
  rw [Decoding.emit]
  split <;> simp

theorem reset_not_mem_transcribeLive (vadIsSpeech : Bool) (chunk : List S) (cause : ResetCause S) :
    .reset cause ∉ (d.transcribeLive M vadIsSpeech chunk).2 := by
  rw [Decoding.transcribeLive]
  generalize M.transcribeChunk _ chunk = answer
  obtain ⟨result, model⟩ := answer
  cases result <;> simp

theorem reset_not_mem_replayChunk (chunk : List S) (cause : ResetCause S) :
    .reset cause ∉ (d.replayChunk M chunk).2 := by
  rw [Decoding.replayChunk]
  generalize M.transcribeChunk _ chunk = answer
  obtain ⟨result, model⟩ := answer
  cases result with
  | error err => simp
  | ok text => simpa using reset_not_mem_emit text cause

/-- A line that resets the model does nothing else with it. -/
theorem line_resets {d' : Decoding S σ} {l : Line S} {evs : List (Event S)}
    (hl : d.line M l = some (d', evs)) :
    (∃ cause, evs = [.reset cause]) ∨ ∀ cause, .reset cause ∉ evs := by
  cases l with
  | live vadIsSpeech chunk =>
      obtain rfl : (d.transcribeLive M vadIsSpeech chunk).2 = evs := by rw [Option.some.inj hl]
      exact .inr (reset_not_mem_transcribeLive vadIsSpeech chunk)
  | replay chunk =>
      obtain rfl : (d.replayChunk M chunk).2 = evs := by rw [Option.some.inj hl]
      exact .inr (reset_not_mem_replayChunk chunk)
  | update text =>
      obtain rfl : (d.emit text).2 = evs := by rw [Option.some.inj hl]
      exact .inr (reset_not_mem_emit text)
  | reset cause =>
      cases hl
      exact .inl ⟨cause, rfl⟩

/-- Each reset of a run is the end of one of its lines. -/
theorem cut_of_reset {d' : Decoding S σ} {ls : List (Line S)} {x y evs : List (Event S)}
    {cause : ResetCause S} (hr : Mealy.run (Decoding.line M) d ls = some (d', evs))
    (hevs : evs = x ++ .reset cause :: y) : ∃ before after d₁, ls = before ++ after ∧
      Mealy.run (Decoding.line M) d before = some (d₁, x ++ [.reset cause]) := by
  induction ls generalizing d x evs with
  | nil =>
      obtain ⟨-, rfl⟩ := Prod.mk.inj (Option.some.inj hr)
      exact absurd hevs.symm (List.append_ne_nil_of_right_ne_nil x (List.cons_ne_nil _ y))
  | cons l ls ih =>
      obtain ⟨d₁, o₁, o₂, hl, hrest, rfl⟩ := Mealy.run_cons_inv hr
      -- it comes with a later line
      have hlater {x' : List (Event S)} (hx : x = o₁ ++ x') (ho : o₂ = x' ++ .reset cause :: y) :
          ∃ before after d₂, l :: ls = before ++ after ∧
            Mealy.run (Decoding.line M) d before = some (d₂, x ++ [.reset cause]) := by
        obtain ⟨before, after, d₂, rfl, hcut⟩ := ih hrest ho
        refine ⟨l :: before, after, d₂, rfl, ?_⟩
        rw [Mealy.run_cons hl, hcut, Option.map_some, hx, List.append_assoc]
      rcases line_resets hl with ⟨cause', rfl⟩ | hnone
      · cases x with
        | nil =>
            obtain ⟨hcause, -⟩ := List.cons.inj hevs
            exact ⟨[l], ls, d₁, rfl, hcause ▸ Mealy.run_singleton hl⟩
        | cons e x =>
            obtain ⟨rfl, ho⟩ := List.cons.inj hevs
            exact hlater rfl ho
      · rcases List.append_eq_append_iff.mp hevs with ⟨x', hx, ho⟩ | ⟨z, ho, hz⟩
        · exact hlater hx ho
        · cases z with
          | nil =>
              have ho₂ : o₂ = [] ++ .reset cause :: y := hz.symm
              exact hlater (by rw [ho, List.append_nil, List.append_nil]) ho₂
          | cons e z =>
              obtain ⟨rfl, -⟩ := List.cons.inj hz
              exact absurd (by rw [ho]; simp) (hnone cause)

/-- The books of the locals. -/
def Booked (evs : List (Event S)) (d : Decoding S σ) : Prop :=
  Nemotron.Booked evs d.chunksSinceDecoderReset d.consecutiveEmpty d.replayBuffer

/-- A text handed out is not in the books. -/
theorem Booked.emit {evs : List (Event S)} (h : d.Booked evs) (text : String) :
    (d.emit text).1.Booked (evs ++ (d.emit text).2) := by
  rw [Decoding.emit]
  split
  · rw [List.append_nil]
    exact h
  · exact Nemotron.Booked.update h _

theorem Booked.transcribeLive {evs : List (Event S)} (h : d.Booked evs) (vadIsSpeech : Bool)
    (chunk : List S) : (d.transcribeLive M vadIsSpeech chunk).1.Booked
      (evs ++ (d.transcribeLive M vadIsSpeech chunk).2) := by
  rw [Decoding.transcribeLive]
  rcases M.transcribeChunk d.model chunk with ⟨result, model⟩
  cases result with
  | error err => exact Nemotron.Booked.transcribe h _ _ _ _ _
  | ok text => exact Nemotron.Booked.transcribe h _ _ _ _ _

theorem Booked.replayChunk {evs : List (Event S)} (h : d.Booked evs) (chunk : List S) :
    (d.replayChunk M chunk).1.Booked (evs ++ (d.replayChunk M chunk).2) := by
  rw [Decoding.replayChunk]
  rcases M.transcribeChunk d.model chunk with ⟨result, model⟩
  cases result with
  | error err => exact Nemotron.Booked.transcribe h _ _ _ _ _
  | ok text =>
      have ht : Booked (evs ++ [.transcribe .replay chunk (.ok text)])
          { d with
            chunksSinceDecoderReset := d.chunksSinceDecoderReset + 1
            model, chunkNum := d.chunkNum + 1 } := Nemotron.Booked.transcribe h _ _ _ _ _
      have he := ht.emit text
      rwa [List.append_assoc] at he

/-- Each line keeps the books. -/
theorem Booked.line {evs new : List (Event S)} {d' : Decoding S σ} {l : Line S} (h : d.Booked evs)
    (hl : d.line M l = some (d', new)) : d'.Booked (evs ++ new) := by
  cases l with
  | live vadIsSpeech chunk =>
      have hb := h.transcribeLive (M := M) vadIsSpeech chunk
      rw [Option.some.inj hl] at hb
      exact hb
  | replay chunk =>
      have hb := h.replayChunk (M := M) chunk
      rw [Option.some.inj hl] at hb
      exact hb
  | update text =>
      have hb := h.emit text
      rw [Option.some.inj hl] at hb
      exact hb
  | reset cause =>
      cases hl
      exact .reset evs cause d.replayBuffer

/-- And so do many. -/
theorem Booked.lines {evs new : List (Event S)} {d' : Decoding S σ} {ls : List (Line S)}
    (h : d.Booked evs) (hr : Mealy.run (Decoding.line M) d ls = some (d', new)) :
    d'.Booked (evs ++ new) := by
  refine Mealy.run_sound (P := fun _ d' new => d'.Booked (evs ++ new)) ?_ ?_ hr
  · intro _ d₁ new₁ l d₂ new₂ h₁ hl
    rw [← List.append_assoc]
    exact h₁.line hl
  · rw [List.append_nil]
    exact h

end Decoding

/-! ## Calls -/

namespace NemotronBackend

variable {M : Model S σ} {evs : List (Event S)} {b : NemotronBackend S σ}

/-- The books of a backend between its calls.  Without a model nothing was passed to one. -/
structure Booked (evs : List (Event S)) (b : NemotronBackend S σ) : Prop where
  books : Nemotron.Booked evs b.chunksSinceDecoderReset b.consecutiveEmpty b.replayBuffer
  unloaded : b.model = none → evs = []

theorem Booked.new : (NemotronBackend.new : NemotronBackend S σ).Booked [] :=
  ⟨⟨rfl, fun _ => rfl, fun _ => rfl⟩, fun _ => rfl⟩

/-- A session begins with clear books, with a model that was reset or that is new. -/
theorem Booked.began (h : b.Booked evs) (settings : Settings) (model : σ) {new : List (Event S)}
    (hnew : new = [.reset .session] ∨ b.model = none ∧ new = []) :
    (b.started settings model).Booked (evs ++ new) := by
  refine ⟨?_, by rintro ⟨⟩⟩
  rcases hnew with rfl | ⟨hnone, rfl⟩
  · exact (Nemotron.Booked.reset evs .session b.replayBuffer).less id fun _ => rfl
  · rw [h.unloaded hnone]
    exact ⟨rfl, fun _ => rfl, fun _ => rfl⟩

/-- Every call keeps the books. -/
theorem Booked.step [Zero S] (h : b.Booked evs) {ids : SegmentIds} {op : Op S σ}
    {b' : NemotronBackend S σ} {new : List (Event S)} (hm : Moves M b ids op b' new) :
    b'.Booked (evs ++ new) := by
  have hstays : b.Booked (evs ++ []) := by
    rw [List.append_nil]
    exact h
  cases hm with
  | began model hnew => exact h.began _ model hnew
  | refused | pushAudio | markSpeechEnd => exact ⟨hstays.books, hstays.unloaded⟩
  | markSpeechStart => exact ⟨hstays.books.less (fun _ => rfl) fun _ => rfl, hstays.unloaded⟩
  | updateSettings settings =>
      refine ⟨hstays.books.less id ?_, hstays.unloaded⟩
      intro hempty
      show ReplayBuffer.popFront _ b.replayBuffer.chunks = []
      rw [hempty]
      rfl
  | @processed vadState model asrConsumed pending d new hmodel hturns =>
      obtain ⟨ls, hls⟩ := lines_chunkTurns (M := M) (t := b.tuning) (vadState = .speech) b.asrBuffer
        (b.asrBuffer.length + 1) 0 b.pendingSpeechEndResets (b.decoding model ids)
      rw [hturns] at hls
      have hd : (b.decoding model ids).Booked evs := h.books
      exact ⟨hd.lines hls, by rintro ⟨⟩⟩

end NemotronBackend

/-- **The books of the decoder.**  After any calls on a backend, whatever the model does, the count is
that of the chunks passed to the model since its last reset, and since it was loaded where there was
none; and while no chunk was passed since, `consecutive_empty` is zero and nothing is kept to be
replayed.  The same holds within a further pass, of which the first chunks, whether or not it would
end, are a run of lines: the books are right behind each line, and each reset, whatever its cause, is
the end of a line, so that all three are cleared before the next chunk is passed to the model. -/
theorem resets_booked [Zero S] {M : Model S σ} {ids₀ ids : SegmentIds} {ops : List (Op S σ)}
    {b : NemotronBackend S σ} {evs : List (Event S)}
    (hr : Mealy.run (opStep M) (NemotronBackend.new, ids₀) ops = some ((b, ids), evs)) :
    b.Booked evs ∧ ∀ (vadState : VadState) (model : σ), b.model = some model → ∀ n, ∃ ls r,
      r = (chunkTurns M b.tuning (vadState = .speech) b.asrBuffer n 0 b.pendingSpeechEndResets
        (b.decoding model ids)).2.2 ∧
      Mealy.run (Decoding.line M) (b.decoding model ids) ls = some r ∧
      (∀ before after, ls = before ++ after → ∃ d new,
        Mealy.run (Decoding.line M) (b.decoding model ids) before = some (d, new) ∧
          d.Booked (evs ++ new)) ∧
      ∀ x cause y, r.2 = x ++ .reset cause :: y → ∃ before after d, ls = before ++ after ∧
        Mealy.run (Decoding.line M) (b.decoding model ids) before = some (d, x ++ [.reset cause]) ∧
          d.chunksSinceDecoderReset = 0 ∧ d.consecutiveEmpty = 0 ∧ d.replayBuffer.chunks = [] := by
  have hbooked : b.Booked evs := by
    refine Mealy.run_sound (P := fun _ s es => s.1.Booked es) ?_ .new hr
    rintro is ⟨b₁, ids₁⟩ evs₁ op s' new h₁ hs
    exact h₁.step (NemotronBackend.moves_of_step hs)
  refine ⟨hbooked, ?_⟩
  intro vadState model _ n
  have hd : (b.decoding model ids).Booked evs := hbooked.books
  obtain ⟨ls, hls⟩ := lines_chunkTurns (M := M) (t := b.tuning) (vadState = .speech) b.asrBuffer n 0
    b.pendingSpeechEndResets (b.decoding model ids)
  refine ⟨ls, _, rfl, hls, ?_, ?_⟩
  · rintro before after rfl
    obtain ⟨d, new, new', hbefore, -, -⟩ := Mealy.run_append_inv hls
    exact ⟨d, new, hbefore, hd.lines hbefore⟩
  · intro x cause y hx
    obtain ⟨before, after, d, hsplit, hcut⟩ := Decoding.cut_of_reset hls hx
    obtain ⟨hcount, hempty, hkept⟩ := hd.lines hcut
    have hzero : sinceReset (evs ++ (x ++ [.reset cause])) = 0 := by
      rw [← List.append_assoc]
      exact sinceReset_snoc _ _
    exact ⟨before, after, d, hsplit, hcut, hcount.trans hzero, hempty hzero, hkept hzero⟩

/-- One pass in which three of the four fire, two of them for the last chunk: a sentence ends, the
next chunks give no text and are replayed, and the utterance is over. -/
theorem resets_booked_three :
    let M : Model ℕ ℕ := ⟨fun m _ => (.ok (if m = 0 then "a." else ""), m + 1), fun _ => 1⟩
    let chunk (k : ℕ) : List ℕ := List.replicate 16 k
    ∃ b ids evs ls d new, Mealy.run (opStep M) (NemotronBackend.new, 0)
        [.beginSession (.ok 0) ⟨1, true, 2⟩, .markSpeechStart,
          .pushAudio (chunk 1 ++ chunk 2 ++ chunk 3), .markSpeechEnd] = some ((b, ids), evs) ∧
      Mealy.run (Decoding.line M) (b.decoding 0 ids) ls = some (d, new) ∧
      new.filterMap (fun e => match e with | .reset cause => some cause | _ => none) =
        [.punctuation, .midSpeech [chunk 2, chunk 3], .speechEnd] ∧
      d.Booked (evs ++ new) := by
  intro M chunk
  have hr : Mealy.run (opStep M) (NemotronBackend.new, 0)
      [.beginSession (.ok 0) ⟨1, true, 2⟩, .markSpeechStart,
        .pushAudio (chunk 1 ++ chunk 2 ++ chunk 3), .markSpeechEnd] = some ((_, _), _) := rfl
  obtain ⟨ls, r, rfl, hls, hcuts, -⟩ := (resets_booked hr).2 .speech 0 rfl 3
  obtain ⟨d, new, hd, hbooked⟩ := hcuts ls [] (List.append_nil ls).symm
  refine ⟨_, _, _, ls, d, new, hr, hd, ?_, hbooked⟩
  obtain ⟨-, rfl⟩ := Prod.mk.inj (Option.some.inj (hd.symm.trans hls))
  decide +kernel

end Larmindon.Nemotron
