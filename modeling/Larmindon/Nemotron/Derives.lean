/-
# `Nemotron.Derives` — the states a pass can bring the model to

Whatever a pass does, it does to the model by chunks and by resets, one a line: the
model behind it derives from the one in front of it.
-/
import Larmindon.Nemotron.Moves

namespace Larmindon.Nemotron

variable {S σ : Type}

/-- The states that a model comes to from `m₀` by chunks and resets. -/
inductive Model.Derives (M : Model S σ) (m₀ : σ) : σ → Prop
  | refl : Derives M m₀ m₀
  | transcribe {m : σ} (h : Derives M m₀ m) (chunk : List S) :
      Derives M m₀ (M.transcribeChunk m chunk).2
  | reset {m : σ} (h : Derives M m₀ m) : Derives M m₀ (M.reset m)

variable {M : Model S σ}

theorem Model.Derives.trans {m₀ m₁ m₂ : σ} (h₁ : M.Derives m₀ m₁) (h₂ : M.Derives m₁ m₂) :
    M.Derives m₀ m₂ := by
  induction h₂ with
  | refl => exact h₁
  | transcribe _ chunk ih => exact ih.transcribe chunk
  | reset _ ih => exact ih.reset

namespace Decoding

variable {d d' : Decoding S σ} {evs : List (Event S)}

theorem emit_model (d : Decoding S σ) (text : String) : (d.emit text).1.model = d.model := by
  rw [emit]
  split <;> rfl

theorem transcribeLive_model (d : Decoding S σ) (vadIsSpeech : Bool) (chunk : List S) :
    (d.transcribeLive M vadIsSpeech chunk).1.model = (M.transcribeChunk d.model chunk).2 := by
  rw [transcribeLive]
  rcases M.transcribeChunk d.model chunk with ⟨result, model⟩
  cases result <;> rfl

theorem replayChunk_model (d : Decoding S σ) (chunk : List S) :
    (d.replayChunk M chunk).1.model = (M.transcribeChunk d.model chunk).2 := by
  rw [replayChunk]
  rcases M.transcribeChunk d.model chunk with ⟨result, model⟩
  cases result with
  | error err => rfl
  | ok text => exact emit_model _ text

/-- A line passes one chunk to the model, or resets it, or does nothing to it. -/
theorem derives_line {l : Line S} (h : d.line M l = some (d', evs)) : M.Derives d.model d'.model := by
  cases l with
  | live vadIsSpeech chunk =>
      obtain rfl : (d.transcribeLive M vadIsSpeech chunk).1 = d' := by rw [Option.some.inj h]
      rw [transcribeLive_model]
      exact Model.Derives.refl.transcribe chunk
  | replay chunk =>
      obtain rfl : (d.replayChunk M chunk).1 = d' := by rw [Option.some.inj h]
      rw [replayChunk_model]
      exact Model.Derives.refl.transcribe chunk
  | update text =>
      obtain rfl : (d.emit text).1 = d' := by rw [Option.some.inj h]
      rw [emit_model]
      exact .refl
  | reset cause =>
      cases h
      exact Model.Derives.refl.reset

theorem derives_lines {r : Decoding S σ × List (Event S)} (h : d.Lines M r) :
    M.Derives d.model r.1.model := by
  obtain ⟨ls, hls⟩ := h
  refine Mealy.run_sound (P := fun _ d' _ => M.Derives d.model d'.model) ?_ .refl hls
  intro _ d₁ _ l d₂ _ h₁ hl
  exact h₁.trans (derives_line hl)

end Decoding

/-- A pass needs a model, and leaves one that derives from it. -/
theorem NemotronBackend.process_derives {vadState : VadState} {b b' : NemotronBackend S σ}
    {ids ids' : SegmentIds} {evs : List (Event S)}
    (h : b.process M vadState ids = some (.ok (b', ids', evs))) :
    ∃ m m', b.model = some m ∧ b'.model = some m' ∧ M.Derives m m' := by
  obtain ⟨model, asrConsumed, pending, d, hm, hturns, rfl⟩ := process_ok h
  have hlines := lines_chunkTurns (M := M) (t := b.tuning) (vadState = .speech) b.asrBuffer
    (b.asrBuffer.length + 1) 0 b.pendingSpeechEndResets (b.decoding model ids)
  rw [hturns] at hlines
  exact ⟨model, d.model, hm, rfl, Decoding.derives_lines hlines⟩

/-- The calls of the frame loop do not touch the model. -/
theorem NemotronBackend.hear_model [Zero S] (b : NemotronBackend S σ) (c : BackendCall S) :
    (b.hear c).model = b.model := by
  cases c <;> rfl

end Larmindon.Nemotron
