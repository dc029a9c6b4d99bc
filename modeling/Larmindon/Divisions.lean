/-
# `Divisions` — the stages do not see how the stream is divided into drains

Each stage carries over what it needs, so the three of them are a `Divisible`
machine: a reblocking and the resampler behind it, the gain sample by sample,
another reblocking and the VAD behind it (`stages`).  Any two divisions of the
captured samples make the same calls and leave the same leftovers, each of them
shorter than a block of its stage.
-/
import Larmindon.Lib.Batches
import Larmindon.Pipeline

namespace Larmindon

open Batches (Divisible andThen reblock)

variable {F ρ ν St : Type}

/-- Whole frames in front, what is left over behind. -/
theorem takeCompleteFrames_eq {n : ℕ} (hn : 0 < n) (leftover drained : List F) :
    takeCompleteFrames leftover drained n =
      ((Chunks.cut n (leftover ++ drained)).flatten, Chunks.tail n (leftover ++ drained)) := by
  generalize hxs : leftover ++ drained = xs
  rw [takeCompleteFrames, hxs, Chunks.flatten_cut hn, Chunks.tail]
  show (if xs.length / n * n < xs.length then _ else _) = _
  split
  · rfl
  · have hle : xs.length ≤ xs.length / n * n := by omega
    rw [List.take_of_length_le hle, List.drop_of_length_le hle]

/-! ## The stages as machines -/

/-- Blocks of one size, resampled one by one; without a resampler, what is drained. -/
def resampling (R : Resampler F ρ) : Mealy.Step (List F × Option ρ) (List F) F := fun s drained =>
  match s.2 with
  | none => some (s, drained)
  | some r =>
      (andThen (reblock R.inputFramesNext) (Mealy.run (Front.block R)) (s.1, r) drained).map fun q =>
        ((q.1.1, some q.1.2), q.2)

theorem divisible_resampling (R : Resampler F ρ) : Divisible (resampling R) := by
  have h := (Batches.divisible_reblock R.pos).andThen (Batches.divisible_run (Front.block R))
  rintro ⟨leftover, resampler⟩ xs ys
  cases resampler with
  | none => rfl
  | some r =>
      simp only [resampling]
      rw [h]
      cases andThen (reblock R.inputFramesNext) (Mealy.run (Front.block R)) (leftover, r) xs with
      | none => rfl
      | some q =>
          rw [Option.bind_some, Option.map_some, Option.bind_some, Option.map_map, Option.map_map]
          rfl

theorem Front.resample_eq (R : Resampler F ρ) (f : Front F ρ) (drained : List F) :
    f.resample R drained = (resampling R (f.resampleLeftover, f.resampler) drained).map fun q =>
      ({ f with resampleLeftover := q.1.1, resampler := q.1.2 }, q.2) := by
  obtain ⟨resampler, leftover, agc⟩ := f
  cases resampler with
  | none => rfl
  | some r =>
      simp only [Front.resample, resampling, andThen, reblock, takeCompleteFrames_eq R.pos,
        Chunks.cut_cut_flatten R.pos, Option.bind_some, Option.map_map]
      rfl

variable [F32 F]

/-- The stages one behind the other. -/
def stages (R : Resampler F ρ) (V : Vad F ν) (gating : AudioGating) :
    Mealy.Step (((List F × Option ρ) × AgcProcessor F) × List F × ν) (List F) (BackendCall F) :=
  andThen (andThen (resampling R) (Mealy.run AgcProcessor.sample))
    (andThen (reblock vadChunkSize) (Mealy.run (V.frame gating)))

theorem divisible_stages (R : Resampler F ρ) (V : Vad F ν) (gating : AudioGating) :
    Divisible (stages R V gating) :=
  ((divisible_resampling R).andThen (Batches.divisible_run _)).andThen
    ((Batches.divisible_reblock (by decide)).andThen (Batches.divisible_run _))

/-- The locals of the loop, stage by stage. -/
def Pipeline.equiv : Pipeline F ρ ν ≃ ((List F × Option ρ) × AgcProcessor F) × List F × ν where
  toFun p := (((p.resampleLeftover, p.resampler), p.agc), p.vadLeftover, p.vad)
  invFun s := ⟨⟨s.1.1.2, s.1.1.1, s.1.2⟩, s.2.1, s.2.2⟩
  left_inv _ := rfl
  right_inv _ := rfl

theorem Pipeline.deliver_eq (R : Resampler F ρ) (V : Vad F ν) (gating : AudioGating)
    (p : Pipeline F ρ ν) (drained : List F) :
    p.deliver R V gating drained = (stages R V gating (Pipeline.equiv p) drained).map fun r =>
      (Pipeline.equiv.symm r.1, r.2) := by
  rw [Pipeline.deliver, Front.process, Front.resample_eq]
  simp only [stages, andThen, Pipeline.equiv, Equiv.coe_fn_mk]
  cases resampling R (p.resampleLeftover, p.resampler) drained with
  | none => rfl
  | some q =>
      simp only [Option.map_some, Option.bind_some]
      rw [AgcProcessor.process]
      cases Mealy.run AgcProcessor.sample p.agc q.2 with
      | none => rfl
      | some a =>
          simp only [Option.map_some, Option.bind_some, reblock, Option.map_map]
          rfl

theorem Pipeline.divisible_deliver (R : Resampler F ρ) (V : Vad F ν) (gating : AudioGating) :
    Divisible (Pipeline.deliver R V gating) :=
  (divisible_stages R V gating).congr Pipeline.equiv (Pipeline.deliver_eq R V gating)

/-! ## Two divisions -/

omit [F32 F] in
theorem filterMap_call (calls : List (BackendCall F)) :
    (calls.map Request.call ++ [Request.process]).filterMap Request.call? = calls := by
  induction calls with
  | nil => rfl
  | cons c calls ih => exact congrArg (c :: ·) ih

/-- The calls of an iteration in which something is drained, and no settings are pushed. -/
theorem Pipeline.iterate_calls (R : Resampler F ρ) (V : Vad F ν) (gating : AudioGating)
    (p : Pipeline F ρ ν) {drained : List F} (h : drained ≠ []) :
    (p.iterate R V gating ⟨none, drained⟩).map (fun r => (r.1, r.2.filterMap Request.call?)) =
      p.deliver R V gating drained := by
  cases drained with
  | nil => exact absurd rfl h
  | cons x xs =>
      simp only [Pipeline.iterate, Pipeline.reload, Option.map_map]
      cases p.deliver R V gating (x :: xs) with
      | none => rfl
      | some r =>
          rw [Option.map_some, Function.comp_apply, filterMap_call]

omit [F32 F] in
theorem resampling_leftover {R : Resampler F ρ} {s t : List F × Option ρ} {drained out : List F}
    (h : resampling R s drained = some (t, out)) (hs : s.1.length < R.inputFramesNext) :
    t.1.length < R.inputFramesNext := by
  obtain ⟨leftover, resampler⟩ := s
  cases resampler with
  | none =>
      cases h
      exact hs
  | some r =>
      simp only [resampling, andThen, reblock, Option.bind_some, Option.map_map] at h
      obtain ⟨q, -, hq⟩ := Option.map_eq_some_iff.mp h
      obtain ⟨rfl, -⟩ := Prod.mk.inj hq
      show (Chunks.tail R.inputFramesNext (leftover ++ drained)).length < R.inputFramesNext
      rw [Chunks.length_tail]
      exact Nat.mod_lt _ R.pos

/-- What is left over is shorter than a block of its stage. -/
theorem Pipeline.deliver_leftovers {R : Resampler F ρ} {V : Vad F ν} {gating : AudioGating}
    {p p' : Pipeline F ρ ν} {drained : List F} {cs : List (BackendCall F)}
    (h : p.deliver R V gating drained = some (p', cs))
    (hp : p.resampleLeftover.length < R.inputFramesNext) :
    p'.resampleLeftover.length < R.inputFramesNext ∧ p'.vadLeftover.length < vadChunkSize := by
  rw [Pipeline.deliver_eq] at h
  obtain ⟨q, hq, hp'⟩ := Option.map_eq_some_iff.mp h
  obtain ⟨rfl, -⟩ := Prod.mk.inj hp'
  obtain ⟨front, hfront, hvad⟩ := Option.bind_eq_some_iff.mp hq
  obtain ⟨v, hv, rfl⟩ := Option.map_eq_some_iff.mp hvad
  obtain ⟨r, hr, hagc⟩ := Option.bind_eq_some_iff.mp hfront
  obtain ⟨a, -, rfl⟩ := Option.map_eq_some_iff.mp hagc
  refine ⟨resampling_leftover hr hp, ?_⟩
  obtain ⟨w, -, rfl⟩ := Option.map_eq_some_iff.mp hv
  show (Chunks.tail vadChunkSize (p.vadLeftover ++ a.2)).length < vadChunkSize
  rw [Chunks.length_tail]
  exact Nat.mod_lt _ (by decide)

/-- The stages do not depend on the division into drains.  For any two divisions of the captured
samples into drains that are not empty, if the iterations over one run without a panic, so do those
over the other: they make the same calls on the backend, and leave everything as the others do, with
leftovers shorter than a block of the resampler and a frame of the VAD. -/
theorem drains_invisible (R : Resampler F ρ) (N : Network F St) (gating : AudioGating)
    (resampler : Option ρ) (vad : VadProcessor F St) (settings : PipelineSettings F)
    {ds ds' : List (List F)} (hds : ∀ d ∈ ds, d ≠ []) (hds' : ∀ d ∈ ds', d ≠ [])
    (heq : ds.flatten = ds'.flatten) {p : Pipeline F ρ (VadProcessor F St)} {rs : List (Request F)}
    (hrun : Mealy.run (Pipeline.iterate R (VadProcessor.vad N) gating)
      (.new resampler vad settings) (ds.map fun d => ⟨none, d⟩) = some (p, rs)) :
    ∃ rs', Mealy.run (Pipeline.iterate R (VadProcessor.vad N) gating)
        (.new resampler vad settings) (ds'.map fun d => ⟨none, d⟩) = some (p, rs') ∧
      rs.filterMap Request.call? = rs'.filterMap Request.call? ∧
      p.resampleLeftover.length < R.inputFramesNext ∧ p.vadLeftover.length < vadChunkSize := by
  set V := VadProcessor.vad N
  set p₀ : Pipeline F ρ (VadProcessor F St) := .new resampler vad settings
  -- The calls are those of `deliver` over the drains.
  have hcalls : ∀ {ds : List (List F)}, (∀ d ∈ ds, d ≠ []) →
      (Mealy.run (Pipeline.iterate R V gating) p₀ (ds.map fun d => ⟨none, d⟩)).map
        (fun r => (r.1, r.2.filterMap Request.call?)) =
      Mealy.run (Pipeline.deliver R V gating) p₀ ds := by
    intro ds hds
    exact Batches.run_filterMap (fun s d hd => s.iterate_calls R V gating (hds d hd)) p₀
  have hone := Batches.run_divisions (Pipeline.divisible_deliver R V gating) p₀ hds hds' heq
  have hdeliver := hcalls hds
  rw [hrun, Option.map_some] at hdeliver
  have hother := hcalls hds'
  rw [← hone, ← hdeliver] at hother
  obtain ⟨⟨p', rs'⟩, hrun', heq'⟩ := Option.map_eq_some_iff.mp hother
  obtain ⟨rfl, hrs⟩ := Prod.mk.inj heq'
  refine ⟨rs', hrun', hrs.symm, ?_⟩
  cases ds with
  | nil =>
      obtain ⟨rfl, -⟩ := Prod.mk.inj (Option.some.inj hrun)
      exact ⟨R.pos, show 0 < vadChunkSize by decide⟩
  | cons d ds =>
      rw [Batches.run_flatten (Pipeline.divisible_deliver R V gating)] at hdeliver
      exact Pipeline.deliver_leftovers hdeliver.symm R.pos

/-- With nothing to resample and no gain, the samples drained are those that reach the VAD. -/
theorem Front.process_disabled (R : Resampler ℝ ρ) {f : Front ℝ ρ} (hr : f.resampler = none)
    (he : f.agc.enabled = false) (hg : f.agc.currentGain = 1) (drained : List ℝ) :
    ∃ agc, f.process R drained = some ({ f with agc }, drained) := by
  obtain ⟨agc, hagc⟩ := AgcProcessor.process_disabled he hg drained
  refine ⟨agc, ?_⟩
  simp only [Front.process, Front.resample, hr, Option.bind_some, hagc, Option.map_some]

/-- A network that hears no speech. -/
def quiet : Network ℝ Unit := ⟨(), fun _ _ => .ok ((), .ok [0])⟩

/-- A frame with nothing to resample, no gain and no speech. -/
theorem Pipeline.deliver_quiet (R : Resampler ℝ ρ) {p : Pipeline ℝ ρ (VadProcessor ℝ Unit)}
    (hr : p.resampler = none) (he : p.agc.enabled = false) (hg : p.agc.currentGain = 1)
    (hl : p.vadLeftover = []) (hs : p.vad.state = .silence) {xs : List ℝ}
    (hring : p.vad.stateMachine.ringBuffer.Holds xs) (ht : 0 < p.vad.stateMachine.thresholdStart)
    {frame : List ℝ} (hf : frame.length = vadChunkSize) :
    ∃ p', p.deliver R (VadProcessor.vad quiet) .continuous frame = some (p', [.pushAudio frame]) := by
  obtain ⟨agc, hfront⟩ := p.toFront.process_disabled R hr he hg frame
  obtain ⟨ring, hpush, -, -⟩ := hring.pushSlice frame
  have hmodel : p.vad.model.processFrame quiet frame =
      some (.ok 0, ⟨(), frame.drop (vadChunkSize - vadContextSize)⟩) := if_pos hf
  have hsilence : ∃ m, p.vad.stateMachine.process 0 frame = some (.silence, m) := by
    have hlow : decide (p.vad.stateMachine.thresholdStart ≤ 0) = false :=
      decide_eq_false (not_le.mpr ht)
    simp only [VadStateMachine.process, show p.vad.stateMachine.state = .silence from hs, hlow,
      VadStateMachine.processSilence, Bool.false_eq_true, if_false, hpush]
    exact ⟨_, rfl⟩
  obtain ⟨m, hm⟩ := hsilence
  have hframe : (VadProcessor.vad quiet).frame .continuous p.vad frame =
      some (⟨⟨(), frame.drop (vadChunkSize - vadContextSize)⟩, m⟩, [.pushAudio frame]) := by
    simp only [Vad.frame, VadProcessor.vad, VadProcessor.processFrame, hmodel, hm]
    rfl
  have hcut : Chunks.cut vadChunkSize (p.vadLeftover ++ frame) = [frame] := by
    rw [hl, List.nil_append, Chunks.cut_of_length (by decide) hf]
  have hrun := Mealy.run_singleton hframe
  rw [← hcut] at hrun
  simp only [Pipeline.deliver, hfront, Option.bind_some, hrun, Option.map_some]
  exact ⟨_, rfl⟩

/-- A frame of silence at 16 kHz, drained at once or in two pieces neither of which is a frame. -/
theorem drains_invisible_one_frame :
    let R : Resampler ℝ Unit := ⟨1024, by decide, fun r block => (.ok [block], r)⟩
    let p₀ : Pipeline ℝ Unit (VadProcessor ℝ Unit) :=
      .new none (.new quiet 0.5 0.3 500 250 500) ⟨0.5, 0.3, false, -20, 30, 20, 400⟩
    let run := fun ds : List (List ℝ) =>
      Mealy.run (Pipeline.iterate R (VadProcessor.vad quiet) .continuous) p₀
        (ds.map fun d => ⟨none, d⟩)
    let frame : List ℝ := List.replicate 512 0
    ∃ p rs rs', run [frame] = some (p, rs) ∧
      run [List.replicate 100 0, List.replicate 412 0] = some (p, rs') ∧
      rs.filterMap Request.call? = [.pushAudio frame] ∧
      rs'.filterMap Request.call? = [.pushAudio frame] := by
  intro R p₀ run frame
  have hframe : frame.length = vadChunkSize := List.length_replicate
  obtain ⟨p, hp⟩ := Pipeline.deliver_quiet R (p := p₀) rfl rfl (show (1.0 : ℝ) = 1 by norm_num) rfl
    rfl (.new (by decide)) (show (0 : ℝ) < 0.5 by norm_num) hframe
  have hrun : run [frame] = some (p, [.call (.pushAudio frame), .process]) := by
    apply Mealy.run_singleton
    show (p₀.deliver R (VadProcessor.vad quiet) .continuous frame).map _ = _
    rw [hp]
    rfl
  have hcut : [frame].flatten = [List.replicate 100 0, List.replicate 412 (0 : ℝ)].flatten := by
    rw [List.flatten_cons, List.flatten_cons, List.flatten_cons, List.flatten_nil, List.append_nil,
      List.append_nil, List.replicate_append_replicate]
  have hone : ∀ d ∈ [frame], d ≠ [] := by
    intro d hd
    rw [List.mem_singleton.mp hd]
    exact List.cons_ne_nil _ _
  have htwo : ∀ d ∈ [List.replicate 100 0, List.replicate 412 (0 : ℝ)], d ≠ [] := by
    intro d hd
    rcases List.mem_pair.mp hd with rfl | rfl
    · exact List.cons_ne_nil _ _
    · exact List.cons_ne_nil _ _
  obtain ⟨rs', hrun', hcalls, -, -⟩ :=
    drains_invisible R quiet .continuous none _ _ hone htwo hcut hrun
  exact ⟨p, _, rs', hrun, hrun', rfl, hcalls.symm⟩

end Larmindon
