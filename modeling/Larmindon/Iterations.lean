/-
# `Iterations` — the settings under which every iteration ends

An iteration of the processing loop depends on its settings in two places:

    the chunk loop   consumes a chunk a turn, of the size that the settings the
                     session started with give: with none it does not end
    the gain clamp   panics where the greatest gain of the settings taken last
                     is below the least one, which is fixed

Everything else in an iteration ends whatever the settings: the stages are loops
over what was drained, and the ring of the VAD never reads outside of its data.
So every iteration ends, in every run, exactly where the settings that are sent
to the engine are `Harmless`.

`validate` accepts only settings that are (`harmless_of_validate`), and nothing
calls it between the file and the loop: one that holds a `chunk_ms` of zero hangs
the first session (`chunkless_hangs`).  Of the network of the VAD it is taken
that its output is never empty, which is where `process_frame` indexes it.
-/
import Larmindon.Coherence
import Larmindon.Settings
import Larmindon.VadCache

namespace Larmindon

variable {F St σ ρ : Type}

/-! ## The chunk loop -/

namespace Nemotron

/-- With something to consume a turn, the loop ends within what the buffer holds. -/
theorem chunkLoop_ends {S : Type} (M : Model S σ) {t : Tuning} (ht : 0 < t.chunkSize)
    (vadIsSpeech : Bool) (asrBuffer : List S) {fuel asrConsumed : ℕ}
    (hf : asrBuffer.length - asrConsumed < fuel) (pending : List ℕ) (d : Decoding S σ) :
    ∃ r, chunkLoop M t vadIsSpeech asrBuffer fuel asrConsumed pending d = some r := by
  induction fuel generalizing asrConsumed pending d with
  | zero => exact absurd hf (Nat.not_lt_zero _)
  | succ fuel ih =>
      rw [chunkLoop]
      split
      case isTrue hle =>
        have hrest : asrBuffer.length - (asrConsumed + t.chunkSize) < fuel := by omega
        dsimp only
        generalize Decoding.liveChunk M t vadIsSpeech d _ = c
        generalize Decoding.speechEndResets M _ c.1 pending = r
        obtain ⟨q, hq⟩ := ih hrest r.2.2 r.1
        rw [hq]
        exact ⟨_, rfl⟩
      case isFalse => exact ⟨_, rfl⟩

/-- With nothing to consume, no amount of turns is enough, even for an empty buffer. -/
theorem chunkLoop_hangs {S : Type} (M : Model S σ) {t : Tuning} (ht : t.chunkSize = 0)
    (vadIsSpeech : Bool) (asrBuffer : List S) (fuel asrConsumed : ℕ) (pending : List ℕ)
    (d : Decoding S σ) :
    chunkLoop M t vadIsSpeech asrBuffer fuel asrConsumed pending d = none := by
  induction fuel generalizing asrConsumed pending d with
  | zero => rfl
  | succ fuel ih =>
      rw [chunkLoop, if_pos (by rw [ht]; exact Nat.zero_le _)]
      simp only [ih]

namespace NemotronBackend

/-- A pass over the buffer ends, and leaves the chunk size as it is. -/
theorem process_ends {S : Type} (M : Model S σ) {b : NemotronBackend S σ} (h : 0 < b.chunkSize)
    (vadState : VadState) (ids : SegmentIds) : ∃ r, b.process M vadState ids = some r ∧
      ∀ b' ids' evs, r = .ok (b', ids', evs) → b'.chunkSize = b.chunkSize := by
  rw [process]
  cases b.model with
  | none => exact ⟨_, rfl, by rintro _ _ _ ⟨⟩⟩
  | some model =>
      have hloop : ∃ r, chunkLoop M b.tuning (vadState = .speech) b.asrBuffer (b.asrBuffer.length + 1)
          0 b.pendingSpeechEndResets (b.decoding model ids) = some r :=
        chunkLoop_ends M h _ _ (by omega) _ _
      obtain ⟨⟨asrConsumed, pending, d, evs⟩, hr⟩ := hloop
      simp only [hr]
      refine ⟨_, rfl, ?_⟩
      rintro _ _ _ ⟨⟩
      rfl

theorem process_hangs {S : Type} (M : Model S σ) {b : NemotronBackend S σ} {model : σ}
    (hm : b.model = some model) (h : b.chunkSize = 0) (vadState : VadState) (ids : SegmentIds) :
    b.process M vadState ids = none := by
  rw [process, hm]
  simp only [chunkLoop_hangs M (t := b.tuning) h]

end NemotronBackend

end Nemotron

namespace Backend

/-- A backend whose passes end. -/
def Chunked : Backend F σ → Prop
  | .nemotron b => 0 < b.chunkSize
  | .soniox => True

theorem Chunked.reload {b : Backend F σ} (h : b.Chunked) (s : Option Settings) :
    (b.reload s).Chunked := by
  cases s with
  | none => exact h
  | some s => cases b <;> exact h

theorem Chunked.serve [Zero F] (M : Nemotron.Model F σ) {b : Backend F σ} (h : b.Chunked)
    (vadState : VadState) (answer : Except AsrError (List TranscriptUpdate)) (ids : SegmentIds)
    (r : Request F) : ∃ b' ids' rs,
      Backend.serve M vadState answer (b, ids) r = some ((b', ids'), rs) ∧ b'.Chunked := by
  cases b with
  | soniox => cases r <;> exact ⟨_, _, _, rfl, trivial⟩
  | nemotron b =>
      cases r with
      | poll => exact ⟨_, _, _, rfl, h⟩
      | call c =>
          refine ⟨_, _, _, rfl, ?_⟩
          cases c <;> exact h
      | process =>
          obtain ⟨r, hr, hsize⟩ := Nemotron.NemotronBackend.process_ends M.keyed h vadState ids
          simp only [Backend.serve, hr]
          cases r with
          | error e => exact ⟨_, _, _, rfl, h⟩
          | ok r =>
              obtain ⟨b', ids', evs⟩ := r
              refine ⟨_, _, _, rfl, ?_⟩
              show 0 < b'.chunkSize
              rw [hsize b' ids' evs rfl]
              exact h

theorem Chunked.run [Zero F] (M : Nemotron.Model F σ) {b : Backend F σ} (h : b.Chunked)
    (vadState : VadState) (answer : Except AsrError (List TranscriptUpdate)) (ids : SegmentIds)
    (requests : List (Request F)) : ∃ b' ids' rs,
      Mealy.run (Backend.serve M vadState answer) (b, ids) requests = some ((b', ids'), rs) ∧
        b'.Chunked := by
  obtain ⟨⟨b', ids'⟩, rs, hr, h'⟩ := Mealy.run_total
    (P := fun _ (s : Backend F σ × SegmentIds) (_ : List (Except AsrError (List TranscriptUpdate))) =>
      s.1.Chunked) (by
      rintro _ ⟨b, ids⟩ _ r h
      obtain ⟨b', ids', rs, hs, h'⟩ := h.serve M vadState answer ids r
      exact ⟨(b', ids'), rs, hs, h'⟩) (s := (b, ids)) h requests
  exact ⟨b', ids', rs, hr, h'⟩

theorem run_hangs [Zero F] {M : Nemotron.Model F σ} {b : Nemotron.NemotronBackend F (ModelKey × σ)}
    {model : ModelKey × σ} (hm : b.model = some model) (h : b.chunkSize = 0) {vadState : VadState}
    {answer : Except AsrError (List TranscriptUpdate)} {ids : SegmentIds} :
    Mealy.run (Backend.serve M vadState answer) (.nemotron b, ids) [.process] = none := by
  simp only [Mealy.run, Backend.serve, Nemotron.NemotronBackend.process_hangs M.keyed hm h]

end Backend

/-! ## The gain -/

/-- The least gain, which no settings change. -/
def leastGain [F32 F] : F := 1.0 / dbToLinear MAX_ATTENUATION_DB

namespace AgcProcessor

variable [F32 F]

/-- The clamp does not panic. -/
structure Fair (a : AgcProcessor F) : Prop where
  least : a.minGain = leastGain
  ordered : a.enabled = true → a.minGain ≤ a.maxGain

theorem Fair.sample {a : AgcProcessor F} (h : a.Fair) (x : F) :
    ∃ a' ys, a.sample x = some (a', ys) ∧ a'.Fair := by
  have hgain : ∀ q, ∃ g, nextGain { a with rmsSqEma := q } = some g := by
    intro q
    rw [nextGain]
    split
    case isTrue he =>
      simp only [F32.clamp, if_pos (h.ordered he), Option.map_some]
      exact ⟨_, rfl⟩
    case isFalse =>
      split
      · exact ⟨_, rfl⟩
      · exact ⟨_, rfl⟩
  obtain ⟨g, hg⟩ := hgain (a.rmsAlpha * x * x + (1.0 - a.rmsAlpha) * a.rmsSqEma)
  have hs : a.sample x = some ({ a with
      rmsSqEma := a.rmsAlpha * x * x + (1.0 - a.rmsAlpha) * a.rmsSqEma, currentGain := g },
      [x * g]) := by
    simp only [AgcProcessor.sample, hg, Option.map_some]
  exact ⟨_, _, hs, h.least, h.ordered⟩

theorem Fair.process {a : AgcProcessor F} (h : a.Fair) (xs : List F) :
    ∃ a' ys, a.process xs = some (a', ys) ∧ a'.Fair := by
  refine Mealy.run_total (P := fun _ (a : AgcProcessor F) (_ : List F) => a.Fair) ?_ h xs
  intro _ a _ x h
  exact h.sample x

/-- The first sample finds the bounds out of order. -/
theorem process_panics {a : AgcProcessor F} (he : a.enabled = true) (h : ¬ a.minGain ≤ a.maxGain)
    (x : F) (xs : List F) : a.process (x :: xs) = none := by
  have hs : a.sample x = none := by
    simp only [sample, nextGain, he, if_true, F32.clamp, if_neg h, Option.map_none]
  rw [process, Mealy.run, hs]

/-- A sample comes out for each that goes in. -/
theorem length_process {a a' : AgcProcessor F} {xs ys : List F} (h : a.process xs = some (a', ys)) :
    ys.length = xs.length := by
  induction xs generalizing a ys with
  | nil =>
      cases h
      rfl
  | cons x xs ih =>
      obtain ⟨a₁, os, os', hs, hr, rfl⟩ := Mealy.run_cons_inv h
      obtain ⟨g, -, hg⟩ := Option.map_eq_some_iff.mp hs
      cases hg
      rw [List.length_append, ih hr]
      exact Nat.add_comm 1 xs.length

end AgcProcessor

/-! ## The VAD -/

namespace VadProcessor

/-- The ring stands for the samples pushed since it was drained. -/
def Sound (v : VadProcessor F St) : Prop := ∃ xs, v.stateMachine.ringBuffer.Holds xs

theorem sound_new [Zero F] (N : Network F St) (thresholdStart thresholdEnd : F) :
    (new N thresholdStart thresholdEnd 500 250 500).Sound :=
  ⟨[], .new (by decide)⟩

theorem Sound.reset [Zero F] {v : VadProcessor F St} (h : v.Sound) (N : Network F St) :
    (v.reset N).Sound := by
  obtain ⟨xs, hxs⟩ := h
  exact ⟨[], .new hxs.capacity_pos⟩

/-- A frame of 512 samples has a decision or an error, for a network whose output is not empty. -/
theorem Sound.processFrame [LE F] [DecidableLE F] {N : Network F St}
    (hN : ∀ input st st', N.run input st ≠ .ok (st', .ok [])) {v : VadProcessor F St} (h : v.Sound)
    {frame : List F} (hf : frame.length = vadChunkSize) :
    ∃ r v', v.processFrame N frame = some (r, v') ∧ v'.Sound := by
  obtain ⟨xs, hxs⟩ := h
  rw [VadProcessor.processFrame, SileroModel.processFrame, if_pos hf]
  cases hrun : N.run (v.model.context ++ frame) v.model.state with
  | error e => exact ⟨_, _, rfl, xs, hxs⟩
  | ok r =>
      obtain ⟨state, output⟩ := r
      cases output with
      | error e => exact ⟨_, _, rfl, xs, hxs⟩
      | ok probs =>
          cases probs with
          | nil => exact absurd hrun (hN _ _ _)
          | cons prob _ =>
              obtain ⟨d, m', xs', hp, -, hxs', -⟩ := VadStateMachine.process_gates hxs prob frame
              simp only [hp]
              exact ⟨_, _, rfl, xs', hxs'⟩

end VadProcessor

/-! ## An iteration -/

/-- The resampling loop: a block that the resampler fails on gives nothing. -/
theorem Front.run_block_ends (R : Resampler F ρ) (r : ρ) (pieces : List (List F)) :
    ∃ r' out, Mealy.run (Front.block R) r pieces = some (r', out) := by
  have hstep : ∀ r piece, ∃ r' out, Front.block R r piece = some (r', out) := by
    intro r piece
    unfold Front.block
    split
    · exact ⟨_, _, rfl⟩
    · exact ⟨_, _, rfl⟩
  obtain ⟨r', out, hrun, -⟩ := Mealy.run_total (P := fun _ _ _ => True)
    (fun _ r _ piece _ => by
      obtain ⟨r', out, hs⟩ := hstep r piece
      exact ⟨r', out, hs, trivial⟩) trivial pieces
  exact ⟨r', out, hrun⟩

theorem Front.resample_ends (R : Resampler F ρ) (f : Front F ρ) (drained : List F) :
    ∃ f' xs, f.resample R drained = some (f', xs) ∧ f'.agc = f.agc := by
  rw [Front.resample]
  cases f.resampler with
  | none => exact ⟨_, _, rfl, rfl⟩
  | some r =>
      obtain ⟨r', out, hrun⟩ := Front.run_block_ends R r (Chunks.cut R.inputFramesNext
        (takeCompleteFrames f.resampleLeftover drained R.inputFramesNext).1)
      simp only [hrun]
      exact ⟨_, _, rfl, rfl⟩

theorem Front.process_ends [F32 F] (R : Resampler F ρ) {f : Front F ρ} (h : f.agc.Fair)
    (drained : List F) : ∃ f' xs, f.process R drained = some (f', xs) ∧ f'.agc.Fair := by
  obtain ⟨f₁, xs, hresample, hagc⟩ := f.resample_ends R drained
  rw [← hagc] at h
  obtain ⟨agc, ys, hprocess, hfair⟩ := h.process xs
  refine ⟨{ f₁ with agc }, ys, ?_, hfair⟩
  rw [Front.process, hresample, Option.bind_some]
  simp only [hprocess]
  rfl

/-- The frame loop, on frames of 512 samples. -/
theorem VadProcessor.Sound.frames [LE F] [DecidableLE F] {N : Network F St}
    (hN : ∀ input st st', N.run input st ≠ .ok (st', .ok [])) {v : VadProcessor F St} (h : v.Sound)
    (gating : AudioGating) {frames : List (List F)}
    (hf : ∀ frame ∈ frames, frame.length = vadChunkSize) :
    ∃ v' calls, Mealy.run ((VadProcessor.vad N).frame gating) v frames = some (v', calls) ∧
      v'.Sound := by
  refine Mealy.run_within (G := fun frames => ∀ frame ∈ frames, frame.length = vadChunkSize)
    (P := fun _ (v : VadProcessor F St) (_ : List (BackendCall F)) => v.Sound) ?_ ?_ h frames hf
  · intro xs ys hall frame hframe
    exact hall frame (List.mem_append_left ys hframe)
  · intro _ v _ frame h hall
    obtain ⟨r, v', hr, h'⟩ := h.processFrame hN (hall frame (by simp))
    have hr' : (VadProcessor.vad N).processFrame v frame = some (r, v') := hr
    rw [Vad.frame, hr']
    cases r with
    | error e => exact ⟨_, _, rfl, h'⟩
    | ok decision => exact ⟨_, _, rfl, h'⟩

variable [F32 F]

/-- The greatest gain is not below the least one, where the gain is controlled. -/
def PipelineSettings.GainFits (s : PipelineSettings F) : Prop :=
  s.agcEnabled = true → leastGain ≤ dbToLinear s.agcMaxGainDb

/-- What the stages carry, such that they end on whatever is drained. -/
structure Pipeline.Sound (p : Pipeline F ρ (VadProcessor F St)) : Prop where
  fair : p.agc.Fair
  vad : p.vad.Sound

namespace Pipeline

theorem sound_new {s : PipelineSettings F} (hs : s.GainFits) (resampler : Option ρ)
    {vad : VadProcessor F St} (hv : vad.Sound) : (Pipeline.new resampler vad s).Sound :=
  ⟨⟨rfl, hs⟩, hv⟩

theorem Sound.reload {p : Pipeline F ρ (VadProcessor F St)} (h : p.Sound) (N : Network F St)
    {reload : Option (PipelineSettings F)} (hr : ∀ s ∈ reload, s.GainFits) :
    (p.reload (VadProcessor.vad N) reload).Sound := by
  cases reload with
  | none => exact h
  | some s =>
      refine ⟨⟨h.fair.least, ?_⟩, h.vad⟩
      intro he
      show p.agc.minGain ≤ dbToLinear s.agcMaxGainDb
      rw [h.fair.least]
      exact hr s rfl he

theorem Sound.deliver {N : Network F St} (hN : ∀ input st st', N.run input st ≠ .ok (st', .ok []))
    {p : Pipeline F ρ (VadProcessor F St)} (h : p.Sound) (R : Resampler F ρ) (gating : AudioGating)
    (drained : List F) :
    ∃ p' calls, p.deliver R (VadProcessor.vad N) gating drained = some (p', calls) ∧ p'.Sound := by
  obtain ⟨front, xs, hfront, hfair⟩ := Front.process_ends R h.fair drained
  have hcut : ∀ frame ∈ Chunks.cut vadChunkSize (p.vadLeftover ++ xs),
      frame.length = vadChunkSize := fun _ hm => Chunks.length_of_mem_cut hm
  obtain ⟨vad, calls, hframes, hv⟩ := h.vad.frames hN gating hcut
  rw [Pipeline.deliver, hfront, Option.bind_some]
  simp only [hframes]
  exact ⟨_, _, rfl, hfair, hv⟩

theorem Sound.iterate {N : Network F St} (hN : ∀ input st st', N.run input st ≠ .ok (st', .ok []))
    {p : Pipeline F ρ (VadProcessor F St)} (h : p.Sound) (R : Resampler F ρ) (gating : AudioGating)
    {i : Drain F} (hi : ∀ s ∈ i.reload, s.GainFits) :
    ∃ p' rs, p.iterate R (VadProcessor.vad N) gating i = some (p', rs) ∧ p'.Sound := by
  have hreload := h.reload N hi
  rw [Pipeline.iterate]
  cases i.drained with
  | nil => exact ⟨_, _, rfl, hreload⟩
  | cons x xs =>
      obtain ⟨p', calls, hdeliver, h'⟩ := hreload.deliver hN R gating (x :: xs)
      simp only [hdeliver]
      exact ⟨_, _, rfl, h'⟩

/-- Gains that do not fit panic on the first sample behind the reload. -/
theorem iterate_panics {ν : Type} {R : Resampler F ρ} {V : Vad F ν} {gating : AudioGating}
    {p : Pipeline F ρ ν} (hp : p.resampler = none) (hmin : p.agc.minGain = leastGain)
    {s : PipelineSettings F} (hs : ¬ s.GainFits) {x : F} {xs : List F} :
    p.iterate R V gating ⟨some s, x :: xs⟩ = none := by
  obtain ⟨he, hgain⟩ : s.agcEnabled = true ∧ ¬ leastGain ≤ dbToLinear s.agcMaxGainDb :=
    Classical.not_imp.mp hs
  rw [← hmin] at hgain
  have hpanics : (p.reload V (some s)).agc.process (x :: xs) = none :=
    AgcProcessor.process_panics he hgain x xs
  have hresampler : (p.reload V (some s)).resampler = none := hp
  rw [iterate]
  simp only [deliver, Front.process, Front.resample, hresampler, Option.bind_some, hpanics,
    Option.map_none, Option.bind_none]

/-- One sample is not a frame, so that there is nothing to call the backend for. -/
theorem requests_of_iterate_one {ν : Type} {R : Resampler F ρ} {V : Vad F ν} {gating : AudioGating}
    {p p' : Pipeline F ρ ν} (hp : p.resampler = none) (hleft : p.vadLeftover = [])
    {reload : Option (PipelineSettings F)} {x : F} {requests : List (Request F)}
    (h : p.iterate R V gating ⟨reload, [x]⟩ = some (p', requests)) : requests = [.process] := by
  have hresampler : (p.reload V reload).resampler = none := by cases reload <;> exact hp
  have hleftover : (p.reload V reload).vadLeftover = [] := by cases reload <;> exact hleft
  rw [iterate] at h
  obtain ⟨⟨p₁, calls⟩, hdeliver, h⟩ := Option.map_eq_some_iff.mp h
  cases h
  rw [deliver, Front.process, Front.resample] at hdeliver
  simp only [hresampler, Option.bind_some, hleftover, List.nil_append] at hdeliver
  obtain ⟨⟨front, ys⟩, hprocess, hdeliver⟩ := Option.bind_eq_some_iff.mp hdeliver
  obtain ⟨⟨agc, ys⟩, hagc, hfront⟩ := Option.map_eq_some_iff.mp hprocess
  cases hfront
  have hlen : ys.length < vadChunkSize := by
    rw [AgcProcessor.length_process hagc]
    show 1 < vadChunkSize
    decide
  rw [Chunks.cut_of_lt hlen] at hdeliver
  cases hdeliver
  rfl

end Pipeline

/-! ## Settings, and what comes of them -/

namespace SessionSettings

/-- A session can begin with the settings: there is a backend for the provider, and where that is a
service it has a key. -/
def Startable (s : SessionSettings F) : Prop :=
  s.asrProvider = "nemotron" ∨ (s.asrProvider = "soniox" ∧ isBlank s.sonioxApiKey = false)

/-- A chunk has samples, where audio is cut into chunks. -/
def HasChunk (s : SessionSettings F) : Prop :=
  s.asrProvider = "nemotron" → 0 < chunkMsToSamples s.chunkMs

/-- Of the settings sent, those that a session can start with have chunks; and if there are any such,
the gain of all fits. -/
def Harmless (A : SessionSettings F → Prop) : Prop :=
  ∀ s₀, A s₀ → s₀.Startable → s₀.HasChunk ∧ ∀ s, A s → s.GainFits

end SessionSettings

open SessionSettings (Harmless)

omit [F32 F] in
theorem provider_of_createBackend {s : SessionSettings F} {cached : Option (Backend F σ)}
    {b : Backend F σ} (h : createBackend s cached = .ok b) :
    s.asrProvider = "nemotron" ∨ (s.asrProvider = "soniox" ∧ b = .soniox) := by
  rw [createBackend] at h
  split at h
  case isTrue hprovider => exact .inl hprovider
  case isFalse =>
    split at h
    case isTrue hprovider =>
      cases h
      exact .inr ⟨hprovider, rfl⟩
    case isFalse => cases h

omit [F32 F] in
/-- Where a session is set up, it can begin. -/
theorem startable_of_beginSession {P : Platform F St σ ρ} {s : SessionSettings F}
    {cached : Option (Backend F σ)} {created b : Backend F σ} {i : SetUp}
    (hc : createBackend s cached = .ok created) (hb : created.beginSession P i s = .ok b) :
    s.Startable := by
  obtain hnemotron | ⟨hsoniox, rfl⟩ := provider_of_createBackend hc
  · exact .inl hnemotron
  · exact .inr ⟨hsoniox, (Backend.connected_of_beginSession hb).1⟩

omit [F32 F] in
/-- A session begins with the chunk size of its settings, whatever backend is reused. -/
theorem chunked_of_beginSession {P : Platform F St σ ρ} {s : SessionSettings F}
    {cached : Option (Backend F σ)} {created b : Backend F σ} {i : SetUp}
    (hc : createBackend s cached = .ok created) (hb : created.beginSession P i s = .ok b)
    (hs : s.HasChunk) : b.Chunked := by
  cases created with
  | soniox =>
      obtain rfl := (Backend.connected_of_beginSession hb).2
      trivial
  | nemotron n =>
      have hsize : 0 < chunkMsToSamples s.chunkMs := by
        refine hs ?_
        obtain hnemotron | ⟨-, hsoniox⟩ := provider_of_createBackend hc
        · exact hnemotron
        · cases hsoniox
      simp only [Backend.beginSession] at hb
      split at hb
      case h_1 b' evs hbegin =>
        cases hb
        unfold Nemotron.NemotronBackend.beginSession at hbegin
        split at hbegin
        · cases hbegin
          exact hsize
        · split at hbegin
          · cases hbegin
            exact hsize
          · cases hbegin
      case h_2 => cases hb

/-- What a thread carries at each of its phases, for the settings that are sent. -/
def Phase.Tame (A : SessionSettings F → Prop) : Phase F St σ ρ → Prop
  | .spawned _ cachedVad => ∀ v ∈ cachedVad, v.Sound
  | .looping backend pipeline => backend.Chunked ∧ pipeline.Sound ∧ ∀ s, A s → s.GainFits
  | .finished (some (_, v)) => v.Sound
  | .finished none | .panicked => True

structure Thread.Tame (A : SessionSettings F → Prop) (t : Thread F St σ ρ) : Prop where
  settings : A t.settings
  pushed : ∀ s ∈ t.settingsRx, A s
  phase : t.phase.Tame A

theorem tame_of_setUp {A : SessionSettings F → Prop} (hA : Harmless A) {P : Platform F St σ ρ}
    {s : SessionSettings F} (hs : A s) {inputRate : ℕ} {cachedBackend : Option (Backend F σ)}
    {cachedVad : Option (VadProcessor F St)} (hv : ∀ v ∈ cachedVad, v.Sound) {i : SetUp}
    {backend : Backend F σ} {pipeline : Pipeline F ρ (VadProcessor F St)}
    (h : setUp P s inputRate cachedBackend cachedVad i = .ok (backend, pipeline)) :
    (Phase.looping backend pipeline).Tame A := by
  obtain ⟨created, vad, resampler, hcreated, hvad, hbegun, rfl⟩ := setUp_ok h
  obtain ⟨hchunk, hgain⟩ := hA s hs (startable_of_beginSession hcreated hbegun)
  refine ⟨chunked_of_beginSession hcreated hbegun hchunk, ?_, hgain⟩
  refine Pipeline.sound_new (hgain s hs) resampler ?_
  cases cachedVad with
  | some v =>
      cases hvad
      exact (hv v rfl).reset P.network
  | none =>
      rw [setUpVad] at hvad
      cases hload : i.loadVad with
      | error e =>
          rw [hload] at hvad
          cases hvad
      | ok u =>
          rw [hload] at hvad
          cases hvad
          exact VadProcessor.sound_new _ _ _

namespace Thread

variable {P : Platform F St σ ρ} {A : SessionSettings F → Prop}

/-- The settings taken first are among those pushed. -/
theorem Tame.taken {t : Thread F St σ ρ} (h : t.Tame A) (hgain : ∀ s, A s → s.GainFits) :
    ∀ s ∈ t.settingsRx.head?.map (·.toPipelineSettings), s.GainFits := by
  intro s hs
  obtain ⟨s', hs', rfl⟩ := Option.map_eq_some_iff.mp hs
  exact hgain s' (h.pushed s' (List.mem_of_mem_head? hs'))

/-- What the stages and the backend did, where an iteration ended. -/
theorem stages_of_iterate {t : Thread F St σ ρ} {backend : Backend F σ}
    {pipeline : Pipeline F ρ (VadProcessor F St)} (hp : t.phase = .looping backend pipeline)
    (hflag : t.stopFlag = false) {ids : SegmentIds} {i : Iteration F}
    {r : Thread F St σ ρ × SegmentIds × List (EngineEvent F)} (h : t.iterate P ids i = some r) :
    ∃ pipeline' requests served,
      pipeline.iterate (P.resampler t.inputRate) (VadProcessor.vad P.network)
        (backend.reload (t.settingsRx.head?.map (·.toSettings))).audioGating
        ⟨t.settingsRx.head?.map (·.toPipelineSettings), i.drained⟩ = some (pipeline', requests) ∧
      Mealy.run (Backend.serve P.model pipeline'.vad.state i.answer)
        (backend.reload (t.settingsRx.head?.map (·.toSettings)), ids) requests = some served := by
  rw [Thread.iterate, hp] at h
  simp only [hflag, Bool.false_eq_true, if_false] at h
  split at h
  case h_1 => cases h
  case h_2 pipeline' requests hiterate =>
    split at h
    case h_1 => cases h
    case h_2 hserve => exact ⟨pipeline', requests, _, hiterate, hserve⟩

/-- The stages and the backend of a tame thread end, and are again such that they do. -/
theorem Tame.stages (hN : ∀ input st st', P.network.run input st ≠ .ok (st', .ok []))
    {t : Thread F St σ ρ} (h : t.Tame A) {backend : Backend F σ}
    {pipeline : Pipeline F ρ (VadProcessor F St)} (hp : t.phase = .looping backend pipeline) :
    (∀ s, A s → s.GainFits) ∧ ∀ gating drained, ∃ pipeline' requests,
      pipeline.iterate (P.resampler t.inputRate) (VadProcessor.vad P.network) gating
        ⟨t.settingsRx.head?.map (·.toPipelineSettings), drained⟩ = some (pipeline', requests) ∧
      pipeline'.Sound ∧ ∀ vadState answer ids requests, ∃ backend' ids' results,
        Mealy.run (Backend.serve P.model vadState answer)
          (backend.reload (t.settingsRx.head?.map (·.toSettings)), ids) requests =
            some ((backend', ids'), results) ∧ backend'.Chunked := by
  have hphase := h.phase
  rw [hp] at hphase
  obtain ⟨hchunked, hsound, hgain⟩ := hphase
  refine ⟨hgain, ?_⟩
  intro gating drained
  obtain ⟨pipeline', requests, hiterate, hsound'⟩ := hsound.iterate hN (P.resampler t.inputRate) gating
    (i := ⟨t.settingsRx.head?.map (·.toPipelineSettings), drained⟩) (h.taken hgain)
  refine ⟨pipeline', requests, hiterate, hsound', ?_⟩
  intro vadState answer ids requests
  exact (hchunked.reload (t.settingsRx.head?.map (·.toSettings))).run P.model vadState answer ids requests

/-- An iteration of a tame thread ends without a panic. -/
theorem Tame.iterate (hN : ∀ input st st', P.network.run input st ≠ .ok (st', .ok []))
    {t : Thread F St σ ρ} (h : t.Tame A) {backend : Backend F σ}
    {pipeline : Pipeline F ρ (VadProcessor F St)} (hp : t.phase = .looping backend pipeline)
    (ids : SegmentIds) (i : Iteration F) : ∃ r, t.iterate P ids i = some r := by
  obtain ⟨-, hstages⟩ := h.stages hN hp
  rw [Thread.iterate, hp]
  simp only
  split
  · exact ⟨_, rfl⟩
  · obtain ⟨p', rs, hiterate, -, hserve⟩ := hstages
      (backend.reload (t.settingsRx.head?.map (·.toSettings))).audioGating i.drained
    obtain ⟨b', ids', results, hrun, -⟩ := hserve p'.vad.state i.answer ids rs
    simp only [hiterate, hrun]
    exact ⟨_, rfl⟩

theorem Tame.turn (hA : Harmless A)
    (hN : ∀ input st st', P.network.run input st ≠ .ok (st', .ok []))
    {t t' : Thread F St σ ρ} (h : t.Tame A) {ids ids' : SegmentIds} {m : ThreadMove F}
    {evs : List (EngineEvent F)} (ht : Turn P t ids m t' ids' evs) : t'.Tame A := by
  have hphase := h.phase
  cases ht with
  | begun hp hs =>
      rw [hp] at hphase
      exact ⟨h.settings, h.pushed, tame_of_setUp hA h.settings hphase hs⟩
  | crashed => exact ⟨h.settings, h.pushed, trivial⟩
  | stopped hp =>
      rw [hp] at hphase
      exact ⟨h.settings, h.pushed, hphase.2.1.vad⟩
  | @iterated backend pipeline pipeline' requests backend' ids' results i phase hp hi hb hphase' =>
      obtain ⟨hgain, hstages⟩ := h.stages hN hp
      obtain ⟨p', rs, hiterate, hsound', hserve⟩ := hstages backend.audioGating i.drained
      obtain ⟨b', ids₁, rs', hrun, hchunked'⟩ := hserve pipeline'.vad.state i.answer ids requests
      cases hi.symm.trans hiterate
      cases hb.symm.trans hrun
      refine ⟨h.settings, fun s hs => h.pushed s (List.mem_of_mem_tail hs), ?_⟩
      rcases hphase' with rfl | rfl
      · exact hsound'.vad
      · exact ⟨hchunked', hsound', hgain⟩
  | panicked => exact ⟨h.settings, h.pushed, trivial⟩

end Thread

/-! ## Every run -/

/-- The settings of a `Start` that the engine is at. -/
def Doing.settings : Doing F → Option (SessionSettings F)
  | .joining next => next.map Prod.snd
  | .starting _ settings | .spawning settings _ _ => some settings
  | .idle | .switching _ => none

/-- The settings that a command carries are among those that are sent. -/
def Move.Sends (A : SessionSettings F → Prop) : Move F → Prop
  | .receive (.start _ s) _ | .receive (.updateSettings s) _ => A s
  | _ => True

namespace World

variable {P : Platform F St σ ρ} {A : SessionSettings F → Prop}

/-- Every iteration of every run ends without a panic, for the settings that are sent. -/
def IterationsEnd (P : Platform F St σ ρ) (diagEnabled : Bool) (A : SessionSettings F → Prop) : Prop :=
  ∀ moves w evs, Mealy.run (step P) (new diagEnabled) moves = some (w, evs) →
    (∀ m ∈ moves, m.Sends A) → ∀ t backend pipeline, w.engine.processingThread = some t →
      t.phase = .looping backend pipeline → ∀ i, ∃ r, t.iterate P w.ids i = some r

structure Tame (A : SessionSettings F → Prop) (w : World F St σ ρ) : Prop where
  cached : ∀ v, w.engine.cachedVad = some v → v.Sound
  thread : ∀ t, w.engine.processingThread = some t → t.Tame A
  doing : ∀ s, w.doing.settings = some s → A s

omit [F32 F] in
/-- What a thread keeps when its flag is set. -/
theorem thread_signalStop {e : AudioEngine F St σ ρ} {t' : Thread F St σ ρ}
    (h : e.signalStop.processingThread = some t') : ∃ t, e.processingThread = some t ∧
      t'.settings = t.settings ∧ t'.settingsRx = t.settingsRx ∧ t'.phase = t.phase := by
  rw [AudioEngine.signalStop] at h
  cases hflag : e.stopFlag with
  | none =>
      rw [hflag] at h
      exact ⟨t', h, rfl, rfl, rfl⟩
  | some flag =>
      rw [hflag] at h
      obtain ⟨t, ht, rfl⟩ := Option.map_eq_some_iff.mp h
      exact ⟨t, ht, rfl, rfl, rfl⟩

theorem Tame.signalStop {w : World F St σ ρ} (h : w.Tame A) {doing : Doing F}
    (hd : ∀ s, doing.settings = some s → A s) :
    Tame A { w with engine := w.engine.signalStop, doing } := by
  refine ⟨h.cached, ?_, hd⟩
  intro t' ht'
  obtain ⟨t, ht, hsettings, hrx, hphase⟩ := thread_signalStop ht'
  obtain ⟨h₁, h₂, h₃⟩ := h.thread t ht
  exact ⟨hsettings ▸ h₁, hrx ▸ h₂, hphase ▸ h₃⟩

/-- Settings that are pushed. -/
theorem Tame.updateSettings {w : World F St σ ρ} (h : w.Tame A) {s : SessionSettings F} (hs : A s) :
    Tame A { w with engine := w.engine.updateSettings s } := by
  refine ⟨h.cached, ?_, h.doing⟩
  intro t' ht'
  have hthread : (w.engine.updateSettings s).processingThread = some t' := ht'
  rw [AudioEngine.updateSettings] at hthread
  cases htx : w.engine.settingsTx with
  | none =>
      rw [htx] at hthread
      exact h.thread t' hthread
  | some tx =>
      rw [htx] at hthread
      obtain ⟨t, ht, rfl⟩ := Option.map_eq_some_iff.mp hthread
      obtain ⟨h₁, h₂, h₃⟩ := h.thread t ht
      refine ⟨h₁, ?_, h₃⟩
      intro s' hs'
      cases List.mem_append.mp hs' with
      | inl hmem => exact h₂ s' hmem
      | inr hmem =>
          obtain rfl := List.mem_singleton.mp hmem
          exact hs

theorem Tame.receive {w : World F St σ ρ} (h : w.Tame A) {c : Command F} {a : CaptureAnswers}
    (hc : (Move.receive c a).Sends A) : (w.receive a c).1.Tame A := by
  cases c with
  | listDevices => exact h
  | start deviceId settings =>
      refine h.signalStop ?_
      rintro s ⟨⟩
      exact hc
  | stop => exact h.signalStop (by rintro s ⟨⟩)
  | updateSettings settings => exact h.updateSettings hc
  | reconnect deviceId =>
      rw [World.receive]
      split
      · exact h
      · split
        · exact ⟨h.cached, h.thread, by rintro s ⟨⟩⟩
        · exact ⟨h.cached, h.thread, h.doing⟩

/-- A join caches the VAD of a session that ended well. -/
theorem Tame.join {w : World F St σ ρ} (h : w.Tame A)
    {next : Option (Option String × SessionSettings F)} (hd : w.doing = .joining next)
    {engine : AudioEngine F St σ ρ} {evs : List (EngineEvent F)}
    (hj : w.engine.join = some (engine, evs)) :
    Tame A { w with engine, doing := .behind next } := by
  have hdoing : ∀ s, (Doing.behind next).settings = some s → A s := by
    intro s hs
    refine h.doing s ?_
    rw [hd]
    cases next with
    | none => cases hs
    | some next => exact hs
  cases AudioEngine.joined_of_join hj with
  | alone | gaveUp | panicked => exact ⟨h.cached, by rintro t ⟨⟩, hdoing⟩
  | cached ht hfinished | notCacheable ht hfinished =>
      have hphase := (h.thread _ ht).phase
      rw [hfinished] at hphase
      refine ⟨?_, by rintro t ⟨⟩, hdoing⟩
      rintro v ⟨⟩
      exact hphase

theorem Tame.spawn {w : World F St σ ρ} (h : w.Tame A) {settings : SessionSettings F}
    {info : ActiveSessionInfo} {stream : AudioStream}
    (hd : w.doing = .spawning settings info stream) (home : Option String) :
    Tame A { w with
      engine := w.engine.spawnSession home settings info stream, doing := .idle } := by
  refine ⟨by rintro v ⟨⟩, ?_, by rintro s ⟨⟩⟩
  rintro t ⟨⟩
  refine ⟨h.doing settings (by rw [hd]; rfl), by simp, ?_⟩
  intro v hv
  exact h.cached v (Option.mem_ite_none_right.mp hv).2

theorem Tame.turn (hA : Harmless A)
    (hN : ∀ input st st', P.network.run input st ≠ .ok (st', .ok [])) {w w' : World F St σ ρ}
    (h : w.Tame A) {m : Move F} (hm : m.Sends A) {evs : List (EngineEvent F)}
    (ht : Turn P w m w' evs) : w'.Tame A := by
  cases ht with
  | receive hd c a => exact h.receive hm
  | join hd hj => exact h.join hd hj
  | opened hd ho =>
      refine ⟨h.cached, h.thread, ?_⟩
      rintro s ⟨⟩
      exact h.doing _ (by rw [hd]; rfl)
  | failed hd message => exact ⟨h.cached, h.thread, by rintro s ⟨⟩⟩
  | spawn hd => exact h.spawn hd P.home
  | switchSource hd a => exact ⟨h.cached, h.thread, by rintro s ⟨⟩⟩
  | thread ht hturn =>
      refine ⟨h.cached, ?_, h.doing⟩
      rintro t ⟨⟩
      exact (h.thread _ ht).turn hA hN hturn

/-- Harmless settings: the run rule. -/
theorem iterationsEnd_of_harmless
    (hN : ∀ input st st', P.network.run input st ≠ .ok (st', .ok [])) (diagEnabled : Bool)
    (hA : Harmless A) : IterationsEnd P diagEnabled A := by
  intro moves w evs hrun hmoves t backend pipeline ht hphase i
  have htame : w.Tame A := by
    refine Mealy.run_along (C := fun _ m => m.Sends A) (P := fun _ w _ => w.Tame A) ?_ ?_
      (.of_forall (fun m hm _ => hmoves m hm) _) hrun
    · intro _ w₁ _ m w₂ _ h hm hstep
      exact h.turn hA hN hm (turn_of_step hstep)
    · exact ⟨by rintro v ⟨⟩, by rintro t ⟨⟩, by rintro s ⟨⟩⟩
  exact (htame.thread t ht).iterate hN hphase w.ids i

/-! ## A run that tries the settings -/

/-- A capture backend that captures at 16 kHz, so that nothing is resampled. -/
def capturesUnresampled : CaptureAnswers := ⟨.ok [], .ok [], .ok ⟨16000, 1, "F32LE"⟩⟩

/-- A session is started and set up with some settings, and others are pushed to it. -/
def tries (s₀ s : SessionSettings F) : List (Move F) :=
  [.receive (.start (some "41") s₀) capturesUnresampled, .join, .openCapture capturesUnresampled,
    .spawn, .thread (.begin settingUp), .receive (.updateSettings s) capturesUnresampled]

/-- The session's thread then, in front of its first iteration. -/
def tried (P : Platform F St σ ρ) (s₀ s : SessionSettings F) (backend : Backend F σ) :
    Thread F St σ ρ where
  settings := s₀
  inputRate := 16000
  stopFlag := false
  settingsRx := [s]
  phase := .looping backend (.new none
    (.new P.network s₀.vadThresholdStart s₀.vadThresholdEnd 500 250 500) s₀.toPipelineSettings)

theorem setUp_tries {s₀ : SessionSettings F} (h : s₀.Startable) : ∃ backend,
    setUp P s₀ 16000 none none settingUp = .ok (backend, .new none
      (.new P.network s₀.vadThresholdStart s₀.vadThresholdEnd 500 250 500) s₀.toPipelineSettings) ∧
    (s₀.asrProvider = "nemotron" → ∃ b model, backend = .nemotron b ∧ b.model = some model ∧
      b.chunkSize = chunkMsToSamples s₀.chunkMs) := by
  rcases h with hnemotron | ⟨hsoniox, hkey⟩
  · have hcreate : createBackend s₀ none = .ok (.nemotron .new : Backend F σ) := by
      rw [createBackend, if_pos hnemotron]
      rfl
    refine ⟨.nemotron (Nemotron.NemotronBackend.new.started s₀.toSettings
      (s₀.modelKey P.home, P.loaded (s₀.modelKey P.home))), ?_, fun _ => ⟨_, _, rfl, rfl, rfl⟩⟩
    rw [setUp, hcreate]
    rfl
  · have hcreate : createBackend s₀ none = .ok (.soniox : Backend F σ) := by
      rw [createBackend, if_neg (by rw [hsoniox]; decide), if_pos hsoniox]
    have hbegin : Backend.beginSession P settingUp s₀ .soniox = .ok .soniox := by
      rw [Backend.beginSession, connect, hkey]
      rfl
    refine ⟨.soniox, ?_, ?_⟩
    · simp only [setUp, hcreate, Except.mapError, bind, Except.bind, hbegin]
      rfl
    · intro hnemotron
      rw [hsoniox] at hnemotron
      exact absurd hnemotron (by decide)

theorem run_tries (diagEnabled : Bool) {s₀ s : SessionSettings F} {backend : Backend F σ}
    (h : setUp P s₀ 16000 none none settingUp = .ok (backend, .new none
      (.new P.network s₀.vadThresholdStart s₀.vadThresholdEnd 500 250 500) s₀.toPipelineSettings)) :
    ∃ w evs, Mealy.run (step P) (new diagEnabled) (tries s₀ s) = some (w, evs) ∧
      w.engine.processingThread = some (tried P s₀ s backend) := by
  let e : AudioEngine F St σ ρ := (AudioEngine.new diagEnabled).signalStop.release
  let e₁ := e.spawnSession P.home s₀ (.on "41" (.ok [])) ⟨"41", 16000⟩
  have hspawn : Mealy.run (step P) (new diagEnabled) ((tries s₀ s).take 4) =
      some (⟨e₁, .idle, .new⟩, []) := rfl
  have ht : e₁.processingThread = some ⟨s₀, 16000, false, [], .spawned none none⟩ := rfl
  let e₂ := { e₁ with
    processingThread := some { tried P s₀ s backend with settingsRx := [] } }
  have hbegin : step P ⟨e₁, .idle, .new⟩ (.thread (.begin settingUp)) =
      some (⟨e₂, .idle, .new⟩, [.took s₀]) := by
    rw [step, ht]
    simp only [Thread.step, Thread.begin, h, Option.bind_some, Option.map_some]
    rfl
  have hupdate : step P ⟨e₂, .idle, .new⟩ (.receive (.updateSettings s) capturesUnresampled) =
      some (⟨e₂.updateSettings s, .idle, .new⟩, []) := rfl
  refine ⟨⟨e₂.updateSettings s, .idle, .new⟩, [] ++ ([.took s₀] ++ []), ?_, rfl⟩
  exact Mealy.run_append hspawn (Mealy.run_append (Mealy.run_singleton hbegin)
    (Mealy.run_singleton hupdate))

/-- Its first iteration, on one sample, tells whether the gain fits and a chunk has samples. -/
theorem fits_of_iterate {s₀ s : SessionSettings F} {backend : Backend F σ}
    (hb : s₀.asrProvider = "nemotron" → ∃ b model, backend = .nemotron b ∧ b.model = some model ∧
      b.chunkSize = chunkMsToSamples s₀.chunkMs) {ids : SegmentIds}
    (h : ∃ r, (tried P s₀ s backend).iterate P ids ⟨[0], .ok []⟩ = some r) :
    s₀.HasChunk ∧ s.GainFits := by
  obtain ⟨r, hr⟩ := h
  obtain ⟨pipeline, requests, served, hiterate, hserve⟩ := Thread.stages_of_iterate rfl rfl hr
  have hgain : s.GainFits := by
    by_contra hs
    cases hiterate.symm.trans (Pipeline.iterate_panics rfl rfl hs)
  refine ⟨?_, hgain⟩
  intro hnemotron
  obtain ⟨b, model, rfl, hm, hsize⟩ := hb hnemotron
  by_contra hzero
  have hchunk : b.chunkSize = 0 := by omega
  obtain rfl := Pipeline.requests_of_iterate_one rfl rfl hiterate
  cases hserve.symm.trans (Backend.run_hangs (b := b.updateSettings s.toSettings) hm hchunk)

/-- **Settings cannot hang or panic the loop**, exactly where they are harmless.  Whatever is captured
and heard, and whatever the models answer: every iteration of every run ends without a panic if and
only if the settings that are sent are such that a session can start with none that give a chunk no
samples, and the greatest gain of each is not below the least one. -/
theorem iterations_end_iff
    (hN : ∀ input st st', P.network.run input st ≠ .ok (st', .ok [])) (diagEnabled : Bool)
    (A : SessionSettings F → Prop) : IterationsEnd P diagEnabled A ↔ Harmless A := by
  constructor
  · intro hend s₀ hs₀ hstartable
    have htry : ∀ s, A s → s₀.HasChunk ∧ s.GainFits := by
      intro s hs
      obtain ⟨backend, hsetUp, hbackend⟩ := setUp_tries (P := P) hstartable
      obtain ⟨w, evs, hrun, ht⟩ := run_tries (s := s) diagEnabled hsetUp
      refine fits_of_iterate hbackend (hend _ w evs hrun ?_ _ _ _ ht rfl ⟨[0], .ok []⟩)
      simp [tries, Move.Sends, hs₀, hs]
    exact ⟨(htry s₀ hs₀).1, fun s hs => (htry s hs).2⟩
  · exact iterationsEnd_of_harmless hN diagEnabled

/-- With the settings of a session on the device. -/
theorem iterations_end_onDevice : IterationsEnd still true (fun s => s = onDevice 0.5 0.3) := by
  have hN : ∀ (input : List ℝ) (st st' : Unit), still.network.run input st ≠ .ok (st', .ok []) := by
    intro input st st' h
    cases h
  refine (iterations_end_iff hN true _).mpr ?_
  rintro s₀ rfl -
  have hchunk : 0 < chunkMsToSamples 560 := by decide
  refine ⟨fun _ => hchunk, ?_⟩
  rintro s rfl ⟨⟩

/-- A file that holds a duration of zero: it is loaded as it is, would not be saved, and the session
that starts with it does not end its first iteration. -/
theorem chunkless_hangs :
    let stored : StoredSettings ℝ := .load still.home
      (fun _ => .ok { StoredSettings.default still.home with chunkMs := 0 })
      (.ok "\x7b \"chunk_ms\": 0 \x7d")
    (∀ env : CheckEnv ℝ, stored.validate env ≠ .ok ()) ∧
      (∃ w evs t backend pipeline, Mealy.run (step still) (new true)
          (tries stored.toSessionSettings stored.toSessionSettings) = some (w, evs) ∧
        w.engine.processingThread = some t ∧ t.phase = .looping backend pipeline ∧
        t.iterate still w.ids ⟨[0], .ok []⟩ = none) ∧
      ¬ IterationsEnd still true (fun s => s = stored.toSessionSettings) := by
  intro stored
  have hchunkless : ¬ stored.toSessionSettings.HasChunk := by
    intro h
    exact absurd (h rfl) (by decide)
  have hstartable : stored.toSessionSettings.Startable := .inl rfl
  obtain ⟨backend, hsetUp, hbackend⟩ := setUp_tries (P := still) hstartable
  obtain ⟨w, evs, hrun, ht⟩ := run_tries true hsetUp
  have hhangs : (tried still stored.toSessionSettings stored.toSessionSettings backend).iterate
      still w.ids ⟨[0], .ok []⟩ = none := by
    rw [Option.eq_none_iff_forall_ne_some]
    intro r hr
    exact hchunkless (fits_of_iterate hbackend ⟨r, hr⟩).1
  refine ⟨?_, ⟨w, evs, _, backend, _, hrun, ht, rfl, hhangs⟩, ?_⟩
  · intro env hvalid
    have hchunk : 0 ∈ VALID_CHUNK_MS := (StoredSettings.Valid.of_validate hvalid).chunkMs
    exact absurd hchunk (by decide)
  · intro hend
    obtain ⟨r, hr⟩ := hend _ w evs hrun (by simp [tries, Move.Sends]) _ backend _ ht rfl ⟨[0], .ok []⟩
    rw [hhangs] at hr
    cases hr

end World

/-! ## What is validated -/

/-- The gain fits down to as many decibels as the loop attenuates by. -/
theorem PipelineSettings.gainFits_iff {s : PipelineSettings ℝ} :
    s.GainFits ↔ (s.agcEnabled = true → -20.0 ≤ s.agcMaxGainDb) := by
  have hleast : (leastGain : ℝ) = (10.0 : ℝ) ^ (-20.0 / 20.0 : ℝ) := by
    show 1.0 / (10.0 : ℝ) ^ (20.0 / 20.0 : ℝ) = (10.0 : ℝ) ^ (-20.0 / 20.0 : ℝ)
    rw [neg_div, Real.rpow_neg (by norm_num)]
    norm_num
  have hle : leastGain ≤ dbToLinear s.agcMaxGainDb ↔ -20.0 ≤ s.agcMaxGainDb := by
    rw [hleast]
    show (10.0 : ℝ) ^ (-20.0 / 20.0 : ℝ) ≤ (10.0 : ℝ) ^ (s.agcMaxGainDb / 20.0) ↔ _
    rw [Real.rpow_le_rpow_left_iff (by norm_num), div_le_div_iff_of_pos_right (by norm_num)]
  rw [GainFits, hle]

/-- Settings that are validated are harmless. -/
theorem harmless_of_validate {A : SessionSettings ℝ → Prop}
    (h : ∀ s, A s → ∃ (env : CheckEnv ℝ) (stored : StoredSettings ℝ),
      stored.validate env = .ok () ∧ s = stored.toSessionSettings) : Harmless A := by
  intro s₀ hs₀ _
  constructor
  · intro _
    obtain ⟨env, stored, hvalid, rfl⟩ := h s₀ hs₀
    have hall : ∀ ms ∈ VALID_CHUNK_MS, 0 < chunkMsToSamples ms := by decide
    exact hall _ (StoredSettings.Valid.of_validate hvalid).chunkMs
  · intro s hs
    obtain ⟨env, stored, hvalid, rfl⟩ := h s hs
    have hgain := (StoredSettings.Valid.of_validate hvalid).agcMaxGainDb.1
    refine PipelineSettings.gainFits_iff.mpr ?_
    intro _
    have hzero : (-20.0 : ℝ) ≤ 0.0 := by norm_num
    exact hzero.trans hgain

end Larmindon
