/-
# `Delivery` — what a backend that hears everything is sent

A backend that is not gated is to be sent every frame once, whatever the VAD
makes of it.  The loop asks the VAD first, though, and a frame it fails on is
left out: the samples sent are all of the whole frames if and only if the VAD
fails on none of them (`continuous_delivery_iff`).

The VAD is an oracle here, with any decision or error for each frame.  The
stream in front of it, resampled and under gain, is what the first two stages
write (`Front.iterate`).
-/
import Larmindon.Divisions

namespace Larmindon

open Batches (reblock)

variable {F ρ ν : Type}

/-- A VAD that answers as it is told, frame by frame. -/
def Vad.oracle (outcome : ℕ → Except String (VadDecision F)) : Vad F ℕ where
  processFrame := fun k _ => some (outcome k, k + 1)
  updateParams := fun k _ _ => k

/-- The samples of the frames the oracle does not fail on. -/
def heardFrames (outcome : ℕ → Except String (VadDecision F)) : ℕ → List (List F) → List F
  | _, [] => []
  | k, frame :: frames =>
      match outcome k with
      | .ok _ => frame ++ heardFrames outcome (k + 1) frames
      | .error _ => heardFrames outcome (k + 1) frames

theorem length_heardFrames (outcome : ℕ → Except String (VadDecision F)) (frames : List (List F)) :
    ∀ k, (heardFrames outcome k frames).length ≤ frames.flatten.length := by
  induction frames with
  | nil =>
      intro k
      exact Nat.le_refl 0
  | cons frame frames ih =>
      intro k
      have hrest := ih (k + 1)
      rw [heardFrames, List.flatten_cons, List.length_append]
      cases outcome k with
      | ok d => simpa using hrest
      | error e => exact hrest.trans (Nat.le_add_left _ _)

/-- All of the samples, just where there is no failure. -/
theorem heardFrames_iff {outcome : ℕ → Except String (VadDecision F)} {frames : List (List F)}
    (hne : ∀ frame ∈ frames, frame ≠ []) : ∀ k, heardFrames outcome k frames = frames.flatten ↔
      ∀ i < frames.length, ∃ d, outcome (k + i) = .ok d := by
  induction frames with
  | nil =>
      intro k
      exact ⟨fun _ i hi => absurd hi (Nat.not_lt_zero i), fun _ => rfl⟩
  | cons frame frames ih =>
      intro k
      have hrest := ih (fun f hf => hne f (List.mem_cons_of_mem frame hf)) (k + 1)
      rw [heardFrames, List.flatten_cons, List.length_cons, Nat.forall_lt_succ_left]
      cases hk : outcome k with
      | ok d =>
          show frame ++ heardFrames outcome (k + 1) frames = frame ++ frames.flatten ↔ _
          rw [List.append_cancel_left_eq, hrest]
          simp [Nat.add_assoc, Nat.add_comm 1]
      | error e =>
          show heardFrames outcome (k + 1) frames = frame ++ frames.flatten ↔ _
          constructor
          · intro heq
            have hlen := length_heardFrames outcome frames (k + 1)
            have hpos := List.length_pos_iff.mpr (hne frame List.mem_cons_self)
            rw [heq, List.length_append] at hlen
            omega
          · rintro ⟨⟨d, hd⟩, -⟩
            cases hd

/-- The frame loop under an oracle: every frame is asked about, and the backend is pushed those the
oracle does not fail on. -/
theorem run_oracle (outcome : ℕ → Except String (VadDecision F)) (frames : List (List F)) :
    ∀ k, ∃ calls, Mealy.run ((Vad.oracle outcome).frame .continuous) k frames =
      some (k + frames.length, calls) ∧ pushed calls = heardFrames outcome k frames := by
  induction frames with
  | nil =>
      intro k
      exact ⟨[], rfl, rfl⟩
  | cons frame frames ih =>
      intro k
      obtain ⟨calls, hrun, hpushed⟩ := ih (k + 1)
      rw [Nat.add_right_comm, Nat.add_assoc] at hrun
      cases hk : outcome k with
      | error e =>
          have hstep : (Vad.oracle outcome).frame .continuous k frame = some (k + 1, []) := by
            simp only [Vad.frame, Vad.oracle, hk]
          refine ⟨calls, ?_, ?_⟩
          · rw [Mealy.run_cons hstep, hrun]
            rfl
          · rw [heardFrames, hk, hpushed]
      | ok d =>
          have hstep : (Vad.oracle outcome).frame .continuous k frame =
              some (k + 1, AudioGating.continuous.route d frame) := by
            simp only [Vad.frame, Vad.oracle, hk]
          have hframe : pushed (AudioGating.continuous.route d frame) = frame := by
            cases d <;> simp [AudioGating.route, pushed]
          refine ⟨AudioGating.continuous.route d frame ++ calls, ?_, ?_⟩
          · rw [Mealy.run_cons hstep, hrun]
            rfl
          · rw [heardFrames, hk, pushed, List.flatMap_append]
            show pushed _ ++ pushed calls = _
            rw [hframe, hpushed]

/-! ## The stream in front of the VAD -/

variable [F32 F]

/-- The first two stages over an iteration. -/
def Front.iterate (R : Resampler F ρ) : Mealy.Step (Front F ρ) (Drain F) F := fun f i =>
  match i.drained with
  | [] => some (f.reload i.reload, [])
  | x :: xs => (f.reload i.reload).process R (x :: xs)

/-- An iteration is one of the first two stages, and the frame loop on what is left over with what
they write, where settings that are pushed leave the VAD as it is. -/
theorem Pipeline.iterate_spec {R : Resampler F ρ} {V : Vad F ν} {gating : AudioGating}
    (hV : ∀ v a b, V.updateParams v a b = v) {p : Pipeline F ρ ν} {i : Drain F} {front : Front F ρ}
    {samples : List F} {vad : ν} {calls : List (BackendCall F)}
    (hl : p.vadLeftover.length < vadChunkSize)
    (hf : p.toFront.iterate R i = some (front, samples))
    (hv : Mealy.run (V.frame gating) p.vad (Chunks.cut vadChunkSize (p.vadLeftover ++ samples)) =
      some (vad, calls)) :
    ∃ rs, p.iterate R V gating i =
        some (⟨front, Chunks.tail vadChunkSize (p.vadLeftover ++ samples), vad⟩, rs) ∧
      rs.filterMap Request.call? = calls := by
  have hq : (p.reload V i.reload).toFront = p.toFront.reload i.reload ∧
      (p.reload V i.reload).vadLeftover = p.vadLeftover ∧ (p.reload V i.reload).vad = p.vad := by
    cases i.reload with
    | none => exact ⟨rfl, rfl, rfl⟩
    | some s => exact ⟨rfl, rfl, hV _ _ _⟩
  obtain ⟨hqf, hql, hqv⟩ := hq
  rw [Front.iterate, ← hqf] at hf
  rw [← hql] at hl
  rw [← hql, ← hqv] at hv
  rw [Pipeline.iterate, ← hql]
  generalize p.reload V i.reload = q at hf hl hv
  cases hd : i.drained with
  | nil =>
      rw [hd] at hf
      obtain ⟨rfl, rfl⟩ := Prod.mk.inj (Option.some.inj hf)
      rw [List.append_nil, Chunks.cut_of_lt hl] at hv
      obtain ⟨rfl, rfl⟩ := Prod.mk.inj (Option.some.inj hv)
      refine ⟨[.poll], ?_, rfl⟩
      rw [List.append_nil, Chunks.tail_of_lt hl]
  | cons x xs =>
      rw [hd] at hf
      refine ⟨calls.map .call ++ [.process], ?_, filterMap_call calls⟩
      simp only [Pipeline.deliver, hf, Option.bind_some, hv, Option.map_some]

/-- The same over a run. -/
theorem Pipeline.run_spec {R : Resampler F ρ} {V : Vad F ν} {gating : AudioGating}
    (hV : ∀ v a b, V.updateParams v a b = v) (inputs : List (Drain F)) :
    ∀ {p : Pipeline F ρ ν} {front : Front F ρ} {post : List F} {vad : ν}
      {calls : List (BackendCall F)}, p.vadLeftover.length < vadChunkSize →
      Mealy.run (Front.iterate R) p.toFront inputs = some (front, post) →
      Mealy.run (V.frame gating) p.vad (Chunks.cut vadChunkSize (p.vadLeftover ++ post)) =
        some (vad, calls) →
      ∃ rs, Mealy.run (Pipeline.iterate R V gating) p inputs =
          some (⟨front, Chunks.tail vadChunkSize (p.vadLeftover ++ post), vad⟩, rs) ∧
        rs.filterMap Request.call? = calls := by
  have hn : 0 < vadChunkSize := by decide
  induction inputs with
  | nil =>
      intro p front post vad calls hl hf hv
      obtain ⟨rfl, rfl⟩ := Prod.mk.inj (Option.some.inj hf)
      rw [List.append_nil, Chunks.cut_of_lt hl] at hv
      obtain ⟨rfl, rfl⟩ := Prod.mk.inj (Option.some.inj hv)
      refine ⟨[], ?_, rfl⟩
      rw [List.append_nil, Chunks.tail_of_lt hl]
      rfl
  | cons i inputs ih =>
      intro p front post vad calls hl hf hv
      obtain ⟨front₁, samples, rest, hi, hrest, rfl⟩ := Mealy.run_cons_inv hf
      rw [← List.append_assoc, Chunks.cut_append_tail hn] at hv
      obtain ⟨vad₁, calls₁, calls₂, hv₁, hv₂, rfl⟩ := Mealy.run_append_inv hv
      obtain ⟨rs₁, hstep, hcalls₁⟩ := Pipeline.iterate_spec hV hl hi hv₁
      have hl₁ : (Chunks.tail vadChunkSize (p.vadLeftover ++ samples)).length < vadChunkSize := by
        rw [Chunks.length_tail]
        exact Nat.mod_lt _ hn
      obtain ⟨rs₂, hrun, hcalls₂⟩ := ih
        (p := ⟨front₁, Chunks.tail vadChunkSize (p.vadLeftover ++ samples), vad₁⟩) hl₁ hrest hv₂
      refine ⟨rs₁ ++ rs₂, ?_, ?_⟩
      · rw [Mealy.run_cons hstep, hrun, ← List.append_assoc, Chunks.tail_append_tail hn (p.vadLeftover ++ samples)]
        rfl
      · rw [List.filterMap_append, hcalls₁, hcalls₂]

/-! ## What is sent -/

/-- The backend is pushed the frames of the stream behind the gain that the VAD does not fail on. -/
theorem Pipeline.run_oracle (R : Resampler F ρ) (outcome : ℕ → Except String (VadDecision F))
    (resampler : Option ρ) (settings : PipelineSettings F) {inputs : List (Drain F)}
    {front : Front F ρ} {post : List F}
    (hpost : Mealy.run (Front.iterate R) (Pipeline.new resampler 0 settings).toFront inputs =
      some (front, post)) :
    ∃ p rs, Mealy.run (Pipeline.iterate R (Vad.oracle outcome) .continuous)
        (.new resampler 0 settings) inputs = some (p, rs) ∧
      pushed (rs.filterMap Request.call?) =
        heardFrames outcome 0 (Chunks.cut vadChunkSize post) := by
  obtain ⟨calls, hv, hpushed⟩ := Larmindon.run_oracle outcome (Chunks.cut vadChunkSize post) 0
  obtain ⟨rs, hrun, rfl⟩ := Pipeline.run_spec (V := Vad.oracle outcome) (fun _ _ _ => rfl) inputs
    (p := .new resampler 0 settings) (show 0 < vadChunkSize by decide) hpost hv
  exact ⟨_, rs, hrun, hpushed⟩

/-- What a backend that is not gated is sent.  Over any division into iterations, with any settings
pushed between them, and whatever the VAD makes of each frame: the samples pushed are the longest
front of the stream behind the gain that is a whole number of frames, if and only if the VAD fails
on none of these frames. -/
theorem continuous_delivery_iff (R : Resampler F ρ) (outcome : ℕ → Except String (VadDecision F))
    (resampler : Option ρ) (settings : PipelineSettings F) {inputs : List (Drain F)}
    {front : Front F ρ} {post : List F}
    (hpost : Mealy.run (Front.iterate R) (Pipeline.new resampler 0 settings).toFront inputs =
      some (front, post)) :
    ∃ p rs, Mealy.run (Pipeline.iterate R (Vad.oracle outcome) .continuous)
        (.new resampler 0 settings) inputs = some (p, rs) ∧
      (pushed (rs.filterMap Request.call?) = post.take (post.length / 512 * 512) ↔
        ∀ k < post.length / 512, ∃ d, outcome k = .ok d) := by
  obtain ⟨p, rs, hrun, hpushed⟩ := Pipeline.run_oracle R outcome resampler settings hpost
  refine ⟨p, rs, hrun, ?_⟩
  have hne : ∀ frame ∈ Chunks.cut vadChunkSize post, frame ≠ [] := by
    intro frame hf
    apply List.ne_nil_of_length_pos
    rw [Chunks.length_of_mem_cut hf]
    decide
  have hiff : heardFrames outcome 0 (Chunks.cut vadChunkSize post) = _ ↔ _ := heardFrames_iff hne 0
  rw [Chunks.flatten_cut (by decide), Chunks.length_cut, ← hpushed] at hiff
  simpa [vadChunkSize] using hiff

section TwoFrames

/-- A poll, and then two frames of silence in one drain. -/
def twoFrames : List (Drain ℝ) := [⟨none, []⟩, ⟨none, List.replicate 1024 0⟩]

/-- Without gain. -/
def flat : PipelineSettings F := ⟨0.5, 0.3, false, -20.0, 30.0, 20.0, 400.0⟩

theorem Front.run_twoFrames (R : Resampler ℝ Unit) :
    ∃ front, Mealy.run (Front.iterate R) (Pipeline.new none 0 flat : Pipeline ℝ Unit ℕ).toFront
      twoFrames = some (front, List.replicate 1024 0) := by
  obtain ⟨agc, h⟩ := (Pipeline.new none 0 flat : Pipeline ℝ Unit ℕ).toFront.process_disabled R rfl rfl
    (show (1.0 : ℝ) = 1 by norm_num) (List.replicate 1024 0)
  have hdrain : Front.iterate R (Pipeline.new none 0 flat : Pipeline ℝ Unit ℕ).toFront
      ⟨none, List.replicate 1024 0⟩ = _ := h
  have hpoll : Front.iterate R (Pipeline.new none 0 flat : Pipeline ℝ Unit ℕ).toFront ⟨none, []⟩ =
      some ((Pipeline.new none 0 flat : Pipeline ℝ Unit ℕ).toFront, []) := rfl
  have hrun := Mealy.run_append (Mealy.run_singleton hpoll) (Mealy.run_singleton hdrain)
  exact ⟨_, hrun⟩

/-- The VAD hears speech in one of the frames and not in the other. -/
theorem continuous_delivery_iff_two_frames :
    let R : Resampler ℝ Unit := ⟨1024, by decide, fun r block => (.ok [block], r)⟩
    let outcome : ℕ → Except String (VadDecision ℝ) := fun k =>
      .ok (if k = 0 then .speechStarted [] else .speechEnded)
    ∃ p rs, Mealy.run (Pipeline.iterate R (Vad.oracle outcome) .continuous) (.new none 0 flat)
        twoFrames = some (p, rs) ∧
      pushed (rs.filterMap Request.call?) = List.replicate 1024 0 := by
  intro R outcome
  obtain ⟨front, hfront⟩ := Front.run_twoFrames R
  obtain ⟨p, rs, hrun, hiff⟩ := continuous_delivery_iff R outcome none flat hfront
  refine ⟨p, rs, hrun, ?_⟩
  rw [hiff.mpr fun k _ => ⟨_, rfl⟩, List.length_replicate]
  exact List.take_of_length_le (by rw [List.length_replicate])

/-- The network fails on the first frame: only the second is pushed. -/
theorem continuous_delivery_dropped_frame :
    let R : Resampler ℝ Unit := ⟨1024, by decide, fun r block => (.ok [block], r)⟩
    let outcome : ℕ → Except String (VadDecision ℝ) := fun k =>
      if k = 0 then .error "Non-zero status code returned" else .ok .silence
    ∃ front post p rs,
      Mealy.run (Front.iterate R) (Pipeline.new none 0 flat : Pipeline ℝ Unit ℕ).toFront twoFrames =
        some (front, post) ∧
      Mealy.run (Pipeline.iterate R (Vad.oracle outcome) .continuous) (.new none 0 flat) twoFrames =
        some (p, rs) ∧
      post.length = 1024 ∧ (pushed (rs.filterMap Request.call?)).length = 512 ∧
      pushed (rs.filterMap Request.call?) ≠ post.take (post.length / 512 * 512) := by
  intro R outcome
  obtain ⟨front, hfront⟩ := Front.run_twoFrames R
  obtain ⟨p, rs, hrun, hpushed⟩ := Pipeline.run_oracle R outcome none flat hfront
  have hcut : Chunks.cut vadChunkSize (List.replicate 1024 (0 : ℝ)) =
      [List.replicate 512 0, List.replicate 512 0] := by
    have hframe : (List.replicate 512 (0 : ℝ)).length = vadChunkSize := List.length_replicate
    have hsplit : List.replicate 1024 (0 : ℝ) = List.replicate 512 0 ++ List.replicate 512 0 := by
      rw [List.replicate_append_replicate]
    rw [hsplit, Chunks.cut_append (by decide) (Dvd.intro_left 1 (by rw [hframe, one_mul])),
      Chunks.cut_of_length (by decide) hframe]
    rfl
  have hlen : (pushed (rs.filterMap Request.call?)).length = 512 := by
    rw [hpushed, hcut]
    show (List.replicate 512 (0 : ℝ) ++ []).length = 512
    rw [List.append_nil, List.length_replicate]
  refine ⟨front, _, p, rs, hfront, hrun, List.length_replicate, hlen, ?_⟩
  intro heq
  rw [heq, List.length_replicate, List.length_take, List.length_replicate] at hlen
  cases hlen

end TwoFrames

end Larmindon
