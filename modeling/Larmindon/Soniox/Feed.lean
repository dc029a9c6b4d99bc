/-
# `Soniox.Feed` — from the samples pushed to the bytes the service is sent

The backend stages what `push_audio` gives it, and a call of `process` hands all of
it to `send_audio` as one frame; `end_session` hands over what is left, and finishes.
`Feed` is that beside the client and its socket task (`Upload`).

    chunks    what was staged at each call, and what is staged still: together all
              that was pushed; each chunk is one frame                    (`Fed`)
    taken     the chunks whose frame the channel took
    gone      those the task took from it again: the first of them
    heard     those that a write was begun with, in order and once       (`Hears`)

So the service reads the samples of some of the chunks, whole and in order
(`server_hears`); and all of them where no frame was refused and end-of-stream is
out, or no write has failed and nothing is on its way (`server_hears_all`).
-/
import Larmindon.Soniox.Holes
import Larmindon.Soniox.Pcm

namespace Larmindon.Soniox

/-! ## The backend's end -/

/-- Where the session stands for the processing thread. -/
inductive Stage where
  | live
  /-- `end_session` has handed over what was staged. -/
  | flushed
  /-- `finish` was called. -/
  | finished
  deriving DecidableEq, Repr

structure Feed where
  /-- `staged` and `staged_samples`. -/
  staged : AudioFrame := ⟨[], 0⟩
  stage : Stage := .live
  upload : Upload := {}
  deriving DecidableEq, Repr

inductive FeedMove (Sample : Type) where
  | push (samples : List Sample)
  | process
  | endSession
  /-- `end_session` calls `finish` once its send has returned. -/
  | finish
  | drop
  /-- The socket task moves. -/
  | task (e : Event)
  | subtract
  /-- The next step of the send in progress. -/
  | turn

namespace Feed

variable {Sample : Type} (quantize : Sample → Int16)

/-- The frame of a block of samples. -/
def frameOf (samples : List Sample) : AudioFrame := ⟨f32ToPcmS16le quantize samples, samples.length⟩

/-- `push_audio`. -/
def pushAudio (f : Feed) (samples : List Sample) : Feed :=
  { f with staged :=
    ⟨f.staged.pcm ++ f32ToPcmS16le quantize samples, f.staged.samples + samples.length⟩ }

/-- A move of the client or its task. -/
def client (f : Feed) (m : UploadMove) : Option (Feed × List Seen) :=
  (Upload.step f.upload m).map fun (upload, seen) => ({ f with upload }, seen)

/-- What is staged, if anything, is taken and sent as one frame. -/
def send (f : Feed) : Option (Feed × List Seen) :=
  if f.staged.pcm.isEmpty then some (f, [])
  else { f with staged := ⟨[], 0⟩ }.client (.sendAudio f.staged)

def step : Mealy.Step Feed (FeedMove Sample) Seen
  | f, .push samples =>
      if f.stage = .live ∧ f.upload.Callable then some (f.pushAudio quantize samples, []) else none
  | f, .process => if f.stage = .live ∧ f.upload.Callable then f.send else none
  | f, .endSession =>
      if f.stage = .live ∧ f.upload.Callable then { f with stage := .flushed }.send else none
  | f, .finish => if f.stage = .flushed then { f with stage := .finished }.client .finish else none
  | f, .drop => f.client .drop
  | f, .task e => f.client (.task e)
  | f, .subtract => f.client .subtract
  | f, .turn => f.client .turn

end Feed

/-- All samples pushed. -/
def pushed {Sample : Type} (ms : List (FeedMove Sample)) : List Sample :=
  ms.flatMap fun m => match m with
    | .push samples => samples
    | _ => []

/-- The chunks made of the samples pushed and what is staged, behind one more move. -/
def FeedMove.cut {Sample : Type} (chunks : List (List Sample) × List Sample) :
    FeedMove Sample → List (List Sample) × List Sample
  | .push samples => (chunks.1, chunks.2 ++ samples)
  | .process | .endSession => if chunks.2.isEmpty then chunks else (chunks.1 ++ [chunks.2], [])
  | .finish | .drop | .task _ | .subtract | .turn => chunks

/-- The samples pushed, cut at the calls that send them; and those that are staged. -/
def chunks {Sample : Type} (ms : List (FeedMove Sample)) : List (List Sample) × List Sample :=
  ms.foldl FeedMove.cut ([], [])

/-- The frames for which a `send_audio` has returned. -/
def offered (os : List Seen) : List AudioFrame :=
  os.filterMap fun o => match o with
    | .accepted frame | .rejected frame => some frame
    | _ => none

/-- The frames for which `send_audio` returned an error. -/
def rejected (os : List Seen) : List AudioFrame :=
  os.filterMap fun o => match o with
    | .rejected frame => some frame
    | _ => none

@[simp] theorem pushed_append {Sample : Type} (xs ys : List (FeedMove Sample)) :
    pushed (xs ++ ys) = pushed xs ++ pushed ys := by simp [pushed]

theorem chunks_append {Sample : Type} (ms : List (FeedMove Sample)) (m : FeedMove Sample) :
    chunks (ms ++ [m]) = m.cut (chunks ms) := by
  rw [chunks, List.foldl_append]
  rfl

/-- What is cut and what is staged are all that was pushed. -/
theorem flatten_chunks {Sample : Type} (ms : List (FeedMove Sample)) :
    (chunks ms).1.flatten ++ (chunks ms).2 = pushed ms := by
  induction ms using List.reverseRecOn with
  | nil => rfl
  | append_singleton ms m ih =>
      rw [chunks_append, pushed_append, ← ih]
      cases m with
      | push samples => simp [FeedMove.cut, pushed]
      | process | endSession =>
          rw [FeedMove.cut]
          split
          · exact (List.append_nil _).symm
          · simp [pushed]
      | finish | drop | task | subtract | turn => exact (List.append_nil _).symm

@[simp] theorem offered_append (xs ys : List Seen) : offered (xs ++ ys) = offered xs ++ offered ys := by
  simp [offered]

@[simp] theorem offered_map (acts : List Act) : offered (acts.map .act) = [] := by
  induction acts with
  | nil => rfl
  | cons a acts ih => exact ih

theorem accepted_sublist (os : List Seen) : (accepted os).Sublist (offered os) := by
  induction os with
  | nil => exact .slnil
  | cons o os ih =>
      cases o with
      | act a => exact ih
      | accepted frame => exact ih.cons_cons frame
      | rejected frame => exact ih.cons frame
      | finish => exact ih

/-- Where nothing was refused, everything was accepted. -/
theorem accepted_of_rejected {os : List Seen} (h : rejected os = []) : accepted os = offered os := by
  induction os with
  | nil => rfl
  | cons o os ih =>
      cases o with
      | act a => exact ih h
      | accepted frame => exact congrArg (frame :: ·) (ih h)
      | rejected frame => cases h
      | finish => exact ih h

/-! ## The frame of a send -/

namespace Upload

variable {u u' : Upload} {seen : List Seen}

/-- A move that makes no call gives back the frame of the call in progress, or keeps it. -/
theorem step_frame {m : UploadMove} (hm : ∀ frame, m ≠ .sendAudio frame)
    (h : Upload.step u m = some (u', seen)) :
    offered seen ++ u'.call.frame.toList = u.call.frame.toList := by
  have hpost : ∀ (u : Upload) (m : Outbound), (u.post m).call = u.call := by
    intro u m
    rcases u.post_cases m with hp | hp <;> rw [hp]
  cases moves_of_step h with
  | task => rw [offered_map, List.nil_append]
  | subtract | finished => rfl
  | refused | called => exact absurd rfl (hm _)
  | full hc | fits hc | counted hc | sent hc | closed hc | undone hc => rw [hc]; rfl
  | finish | drop => rw [hpost]; rfl

/-- A call is made with a frame that is not empty: it is the frame of the call in progress. -/
theorem step_sendAudio {frame : AudioFrame} (hpcm : frame.pcm ≠ []) (hsamples : frame.samples ≠ 0)
    (h : Upload.step u (.sendAudio frame) = some (u', seen)) :
    u.call.frame = none ∧ seen = [] ∧ u'.call.frame = some frame := by
  simp only [Upload.step, Option.ite_none_right_eq_some] at h
  obtain ⟨hcall, h⟩ := h
  have hframe : (frame.pcm.isEmpty || frame.samples == 0) = false := by simp [hpcm, hsamples]
  rw [hframe] at h
  cases h
  exact ⟨by rw [hcall.1]; rfl, rfl, rfl⟩

end Upload

/-! ## What a step can be, said once -/

variable {Sample : Type} {quantize : Sample → Int16}

namespace Feed

/-- The steps, with their guards and their effect. -/
inductive Moves (quantize : Sample → Int16) (f : Feed) : FeedMove Sample → Feed → List Seen → Prop
  | push {samples : List Sample} : f.stage = .live → Moves quantize f (.push samples)
      (f.pushAudio quantize samples) []
  /-- There is nothing to send. -/
  | nothing {m : FeedMove Sample} {stage : Stage} : f.stage = .live → stage ≠ .finished →
      m = .process ∨ m = .endSession → f.staged.pcm = [] → Moves quantize f m { f with stage } []
  | sends {m : FeedMove Sample} {stage : Stage} {u : Upload} {new : List Seen} : f.stage = .live →
      stage ≠ .finished → m = .process ∨ m = .endSession → f.staged.pcm ≠ [] →
      Upload.step f.upload (.sendAudio f.staged) = some (u, new) →
      Moves quantize f m ⟨⟨[], 0⟩, stage, u⟩ new
  | finish {u : Upload} {new : List Seen} : f.stage = .flushed →
      Upload.step f.upload .finish = some (u, new) →
      Moves quantize f .finish { f with stage := .finished, upload := u } new
  | client {m : FeedMove Sample} {um : UploadMove} {u : Upload} {new : List Seen} :
      (∀ b, m.cut b = b) → (∀ frame, um ≠ .sendAudio frame) → um ≠ .finish →
      Upload.step f.upload um = some (u, new) → Moves quantize f m { f with upload := u } new

variable {f f' : Feed} {new : List Seen}

theorem client_eq_some {um : UploadMove} (h : f.client um = some (f', new)) :
    ∃ u, Upload.step f.upload um = some (u, new) ∧ f' = { f with upload := u } := by
  simp only [client, Option.map_eq_some_iff, Prod.mk.injEq] at h
  obtain ⟨⟨u, seen⟩, hs, hf, rfl⟩ := h
  exact ⟨u, hs, hf.symm⟩

/-- A send, in a session that is live or about to be closed. -/
theorem moves_of_send {m : FeedMove Sample} (stage : Stage) (hlive : f.stage = .live)
    (hstage : stage ≠ .finished) (hm : m = .process ∨ m = .endSession)
    (h : { f with stage }.send = some (f', new)) : Moves quantize f m f' new := by
  rw [send] at h
  cases hempty : f.staged.pcm.isEmpty with
  | true =>
      rw [if_pos hempty] at h
      cases h
      exact .nothing hlive hstage hm (List.isEmpty_iff.mp hempty)
  | false =>
      rw [if_neg (by rw [hempty]; decide)] at h
      obtain ⟨u, hs, rfl⟩ := client_eq_some h
      refine .sends hlive hstage hm ?_ hs
      intro hnil
      rw [hnil] at hempty
      cases hempty

theorem moves_of_step {m : FeedMove Sample} (h : step quantize f m = some (f', new)) :
    Moves quantize f m f' new := by
  cases m with
  | push samples =>
      obtain ⟨⟨hlive, -⟩, h⟩ := Option.ite_none_right_eq_some.mp h
      cases h
      exact .push hlive
  | process =>
      obtain ⟨⟨hlive, -⟩, h⟩ := Option.ite_none_right_eq_some.mp h
      exact moves_of_send f.stage hlive (by rw [hlive]; decide) (.inl rfl) h
  | endSession =>
      obtain ⟨⟨hlive, -⟩, h⟩ := Option.ite_none_right_eq_some.mp h
      exact moves_of_send .flushed hlive (by decide) (.inr rfl) h
  | finish =>
      obtain ⟨hflushed, h⟩ := Option.ite_none_right_eq_some.mp h
      obtain ⟨u, hs, rfl⟩ := client_eq_some h
      exact .finish hflushed hs
  | drop | task e | subtract | turn =>
      obtain ⟨u, hs, rfl⟩ := client_eq_some h
      exact .client (fun _ => rfl) (by simp) (by simp) hs

/-- On its upload, a run is a run of the upload machine. -/
theorem run_upload {ms : List (FeedMove Sample)} {os : List Seen}
    (h : Mealy.run (step quantize) {} ms = some (f, os)) :
    ∃ us, Mealy.run Upload.step {} us = some (f.upload, os) := by
  refine Mealy.run_sound (P := fun _ f os => ∃ us, Mealy.run Upload.step {} us = some (f.upload, os))
    ?_ ⟨[], rfl⟩ h
  rintro ms f os m f' new ⟨us, hr⟩ hs
  cases moves_of_step hs with
  | push | nothing => exact ⟨us, by rw [List.append_nil]; exact hr⟩
  | sends _ _ _ _ hu | finish _ hu | client _ _ _ hu =>
      exact ⟨us ++ [_], Mealy.run_append hr (Mealy.run_singleton hu)⟩

end Feed

/-- Only `finish` is seen as such, and by itself. -/
theorem Upload.step_finish {u u' : Upload} {um : UploadMove} {new : List Seen}
    (h : Upload.step u um = some (u', new)) (hmem : .finish ∈ new) : um = .finish ∧ new = [.finish] := by
  cases moves_of_step h with
  | finished | finish => exact ⟨rfl, rfl⟩
  | _ => simp at hmem

theorem Upload.finish_seen {u u' : Upload} {new : List Seen}
    (h : Upload.step u .finish = some (u', new)) : new = [.finish] ∧ u.call = .idle ∧ u'.call = .idle := by
  cases moves_of_step h with
  | finished hcall => exact ⟨rfl, hcall.1, hcall.1⟩
  | finish hcall =>
      refine ⟨rfl, hcall.1, ?_⟩
      rcases ({ u with finishSent := true } : Upload).post_cases .finish with hp | hp <;>
        rw [hp] <;> exact hcall.1

/-! ## Blocks -/

namespace Feed

/-- What is pushed is staged behind what is there. -/
theorem pushAudio_staged {f : Feed} {rest : List Sample} (h : f.staged = frameOf quantize rest)
    (samples : List Sample) :
    (f.pushAudio quantize samples).staged = frameOf quantize (rest ++ samples) := by
  simp only [pushAudio, h, frameOf, f32ToPcmS16le, List.flatMap_append, List.length_append]

theorem frameOf_pcm (samples : List Sample) :
    (frameOf quantize samples).pcm = pcm.write (samples.map quantize) :=
  f32ToPcmS16le_eq quantize samples

/-- The bytes of a block are those of no block only where it has no sample. -/
theorem frameOf_pcm_eq_nil {samples : List Sample} :
    (frameOf quantize samples).pcm = [] ↔ samples = [] := by
  rw [frameOf_pcm, ← List.length_eq_zero_iff, pcm.length_write, List.length_map, Nat.mul_eq_zero,
    ← List.length_eq_zero_iff]
  exact or_iff_right (by decide)

end Feed

/-- The chunks were sent, each as a frame, and the rest is staged; and nothing is sent behind `finish`. -/
structure Fed (quantize : Sample → Int16) (ms : List (FeedMove Sample)) (os : List Seen) (f : Feed) :
    Prop where
  staged : f.staged = Feed.frameOf quantize (chunks ms).2
  flushed : f.stage ≠ .live → (chunks ms).2 = []
  offered : offered os ++ f.upload.call.frame.toList = (chunks ms).1.map (Feed.frameOf quantize)
  idle : f.stage = .finished → f.upload.call.frame = none
  called : .finish ∈ os → f.stage = .finished
  last : Mealy.After .finish (fun after => Soniox.offered after = []) os

namespace Fed

variable {ms : List (FeedMove Sample)} {os new : List Seen} {f f' : Feed} {m : FeedMove Sample}

theorem new_fed : Fed quantize [] [] {} where
  staged := rfl
  flushed := fun _ => rfl
  offered := rfl
  idle := by rintro ⟨⟩
  called := by simp
  last := .nil

/-- A move that makes no send leaves the chunks as they are. -/
theorem client (h : Fed quantize ms os f) {um : UploadMove} {u : Upload} (hm : ∀ b, m.cut b = b)
    (hsend : ∀ frame, um ≠ .sendAudio frame) (hfinish : um ≠ .finish)
    (hu : Upload.step f.upload um = some (u, new)) :
    Fed quantize (ms ++ [m]) (os ++ new) { f with upload := u } := by
  have hframe := Upload.step_frame hsend hu
  have hchunks : chunks (ms ++ [m]) = chunks ms := by rw [chunks_append, hm]
  refine ⟨?_, ?_, ?_, ?_, ?_, ?_⟩
  · rw [hchunks]
    exact h.staged
  · rw [hchunks]
    exact h.flushed
  · rw [hchunks, offered_append, List.append_assoc, hframe, h.offered]
  · intro hfin
    rw [h.idle hfin] at hframe
    exact Option.toList_eq_nil_iff.mp (List.append_eq_nil_iff.mp hframe).2
  · intro hmem
    rcases List.mem_append.mp hmem with hold | hnew
    · exact h.called hold
    · exact absurd (Upload.step_finish hu hnew).1 hfinish
  · refine h.last.append rfl (fun hnew => absurd (Upload.step_finish hu hnew).1 hfinish) ?_
    intro hold after hafter
    rw [h.idle (h.called hold)] at hframe
    rw [offered_append, hafter, (List.append_eq_nil_iff.mp hframe).1]
    rfl

theorem finish_not_mem (h : Fed quantize ms os f) (hstage : f.stage ≠ .finished) : .finish ∉ os :=
  fun hmem => hstage (h.called hmem)

/-- Where nothing is staged no chunk is made. -/
theorem nothing (h : Fed quantize ms os f) {stage : Stage} (hlive : f.stage = .live)
    (hstage : stage ≠ .finished) (hm : m = .process ∨ m = .endSession) (hempty : f.staged.pcm = []) :
    Fed quantize (ms ++ [m]) os { f with stage } := by
  have hnil : (chunks ms).2 = [] := by
    rw [h.staged] at hempty
    exact Feed.frameOf_pcm_eq_nil.mp hempty
  have hchunks : chunks (ms ++ [m]) = chunks ms := by
    rw [chunks_append]
    rcases hm with rfl | rfl <;> rw [FeedMove.cut, if_pos (List.isEmpty_iff.mpr hnil)]
  have hnot := h.finish_not_mem (by rw [hlive]; decide)
  refine ⟨?_, ?_, ?_, fun hfin => absurd hfin hstage, fun hmem => absurd hmem hnot, h.last⟩
  · rw [hchunks]
    exact h.staged
  · intro _
    rw [hchunks]
    exact hnil
  · rw [hchunks]
    exact h.offered

/-- What is staged is the next chunk, of which the frame is offered. -/
theorem sends (h : Fed quantize ms os f) {stage : Stage} {u : Upload} (hlive : f.stage = .live)
    (hstage : stage ≠ .finished) (hm : m = .process ∨ m = .endSession) (hsome : f.staged.pcm ≠ [])
    (hu : Upload.step f.upload (.sendAudio f.staged) = some (u, new)) :
    Fed quantize (ms ++ [m]) (os ++ new) ⟨⟨[], 0⟩, stage, u⟩ := by
  have hrest : (chunks ms).2 ≠ [] := by
    intro hnil
    rw [h.staged, hnil] at hsome
    exact hsome rfl
  have hchunks : chunks (ms ++ [m]) = ((chunks ms).1 ++ [(chunks ms).2], []) := by
    rw [chunks_append]
    rcases hm with rfl | rfl <;> rw [FeedMove.cut, if_neg (by rwa [List.isEmpty_iff])]
  have hcount : f.staged.samples ≠ 0 := by
    rw [h.staged]
    exact fun hzero => hrest (List.eq_nil_of_length_eq_zero hzero)
  obtain ⟨hidle, rfl, hcall⟩ := Upload.step_sendAudio hsome hcount hu
  have hnot := h.finish_not_mem (by rw [hlive]; decide)
  have hoffered := h.offered
  rw [List.append_nil]
  refine ⟨?_, ?_, ?_, fun hfin => absurd hfin hstage, fun hmem => absurd hmem hnot, h.last⟩
  · rw [hchunks]
    rfl
  · intro _
    rw [hchunks]
  · rw [hidle, Option.toList_none, List.append_nil] at hoffered
    rw [hcall, hoffered, h.staged, hchunks, List.map_append]
    rfl

/-- `finish` is called once everything was offered. -/
theorem finish (h : Fed quantize ms os f) {u : Upload} (hflushed : f.stage = .flushed)
    (hu : Upload.step f.upload .finish = some (u, new)) :
    Fed quantize (ms ++ [.finish]) (os ++ new) { f with stage := .finished, upload := u } := by
  obtain ⟨rfl, hidle, hidle'⟩ := Upload.finish_seen hu
  have hnot := h.finish_not_mem (by rw [hflushed]; decide)
  have hchunks : chunks (ms ++ [.finish]) = chunks ms := by
    rw [chunks_append]
    rfl
  have hoffered := h.offered
  refine ⟨?_, ?_, ?_, ?_, fun _ => rfl, ?_⟩
  · rw [hchunks]
    exact h.staged
  · intro _
    rw [hchunks]
    exact h.flushed (by rw [hflushed]; decide)
  · rw [hidle] at hoffered
    rw [hidle', offered_append, hchunks, ← hoffered]
    exact congrArg (· ++ []) (List.append_nil _)
  · intro _
    rw [hidle']
    rfl
  · exact h.last.append rfl (fun _ => rfl) fun hold => absurd hold hnot

theorem step (h : Fed quantize ms os f) (hs : Feed.step quantize f m = some (f', new)) :
    Fed quantize (ms ++ [m]) (os ++ new) f' := by
  cases Feed.moves_of_step hs with
  | @push samples hlive =>
      rw [List.append_nil]
      refine ⟨?_, fun hnot => absurd hlive hnot, ?_, h.idle, h.called, h.last⟩
      · rw [chunks_append]
        exact Feed.pushAudio_staged h.staged samples
      · rw [chunks_append]
        exact h.offered
  | nothing hlive hstage hm hempty =>
      rw [List.append_nil]
      exact h.nothing hlive hstage hm hempty
  | sends hlive hstage hm hsome hu => exact h.sends hlive hstage hm hsome hu
  | finish hflushed hu => exact h.finish hflushed hu
  | client hm hsend hfinish hu => exact h.client hm hsend hfinish hu

theorem run (h : Mealy.run (Feed.step quantize) {} ms = some (f, os)) : Fed quantize ms os f :=
  Mealy.run_sound (P := fun ms f os => Fed quantize ms os f) (fun _ _ _ _ _ _ hf hs => hf.step hs)
    new_fed h

end Fed

/-! ## What the service reads -/

/-- The bytes of chunks. -/
theorem flatten_bytes (blocks : List (List Sample)) :
    (blocks.map (f32ToPcmS16le quantize)).flatten = pcm.write (blocks.flatten.map quantize) := by
  induction blocks with
  | nil => rfl
  | cons block blocks ih =>
      rw [List.map_cons, List.flatten_cons, ih, List.flatten_cons, List.map_append, pcm.write_append,
        f32ToPcmS16le_eq]

/-- The bytes of chunks, read as samples. -/
theorem read_chunks (blocks : List (List Sample)) :
    pcm.read (blocks.map (f32ToPcmS16le quantize)).flatten = blocks.flatten.map quantize := by
  rw [flatten_bytes, pcm.read_write]

/-- End-of-stream has been written. -/
def Ends (os : List Seen) : Prop := .act (.write (.binary [])) ∈ os

/-- Behind end-of-stream nothing more is accepted, and all of it was handed to a write. -/
theorem handed_of_ends {ms : List (FeedMove Sample)} {f : Feed} {os : List Seen}
    (h : Mealy.run (Feed.step quantize) {} ms = some (f, os)) (hends : Ends os) :
    f.stage = .finished ∧ handed (taskActs os) = (accepted os).map AudioFrame.pcm := by
  obtain ⟨us, hr⟩ := Feed.run_upload h
  have hw := Wired.run hr
  have hf := Fed.run h
  obtain ⟨before, after, rfl⟩ := List.append_of_mem hends
  obtain ⟨hfinish, hemptied⟩ := hw.eos before after rfl
  obtain ⟨xs, ys, rfl⟩ := List.append_of_mem hfinish
  have hnone : accepted after = [] := by
    have hoffered := hf.last xs (ys ++ .act (.write (.binary [])) :: after) (by simp)
    have hsub := accepted_sublist (ys ++ .act (.write (.binary [])) :: after)
    rw [hoffered] at hsub
    have hnil := List.sublist_nil.mp hsub
    rw [accepted_append] at hnil
    exact (List.append_eq_nil_iff.mp hnil).2
  refine ⟨hf.called (by simp), ?_⟩
  -- nothing is handed on that was not accepted, and everything accepted was handed on by then
  obtain ⟨gone, hgone, hsub, -⟩ := hw.ledger
  have hle : (handed (taskActs (xs ++ .finish :: ys ++ .act (.write (.binary [])) :: after))).Sublist
      ((accepted (xs ++ .finish :: ys ++ .act (.write (.binary [])) :: after)).map AudioFrame.pcm) := by
    rw [hgone, List.map_append]
    exact hsub.trans (List.sublist_append_left _ _)
  refine hle.eq_of_length_le ?_
  have hacc : accepted (xs ++ .finish :: ys ++ .act (.write (.binary [])) :: after) =
      accepted (xs ++ .finish :: ys) := by
    rw [accepted_append]
    show _ ++ accepted after = _
    rw [hnone, List.append_nil]
  rw [hacc, ← hemptied, taskActs_append (xs ++ .finish :: ys), handed_append, List.length_append]
  exact Nat.le_add_right _ _

/-- Of the chunks made of what was pushed: those the channel took, those the task took from it, and those
that a write was begun with. -/
structure Hears (quantize : Sample → Int16) (ms : List (FeedMove Sample)) (os : List Seen) (f : Feed)
    (taken gone heard : List (List Sample)) : Prop where
  /-- The channel took some of the frames, of all where it refused none. -/
  takes : taken.Sublist (chunks ms).1 ∧ accepted os = taken.map (Feed.frameOf quantize) ∧
    (rejected os = [] → f.upload.call.frame = none → taken = (chunks ms).1)
  /-- From the front of it; the others wait. -/
  goes : gone <+: taken ∧
    accepted os = gone.map (Feed.frameOf quantize) ++ f.upload.task.queues.line
  /-- None of them is let go before `finish` has been taken and what was in front of it is written. -/
  hears : heard.Sublist gone ∧ (f.upload.Early → heard = gone)
  /-- A write is of the bytes of one chunk, in which the service reads its samples. -/
  reads : handed (taskActs os) = heard.map (f32ToPcmS16le quantize) ∧
    pcm.read (handed (taskActs os)).flatten = heard.flatten.map quantize
  ends : Ends os → heard = taken

/-- **The service is sent chunks of what was pushed.**  Whatever the calls of the session, the task and
the network do: everything pushed is the chunks, for each of which a frame was sent, and what is staged,
which is nothing once `end_session` was called; and what the channel takes, the task takes from it and a
write is begun with are some of these chunks, whole, in order and each once. -/
theorem server_hears {ms : List (FeedMove Sample)} {f : Feed} {os : List Seen}
    (h : Mealy.run (Feed.step quantize) {} ms = some (f, os)) :
    pushed ms = (chunks ms).1.flatten ++ (chunks ms).2 ∧
    f.staged = Feed.frameOf quantize (chunks ms).2 ∧
    (f.stage ≠ .live → (chunks ms).2 = []) ∧
    offered os ++ f.upload.call.frame.toList = (chunks ms).1.map (Feed.frameOf quantize) ∧
    ∃ taken gone heard, Hears quantize ms os f taken gone heard := by
  have hf := Fed.run h
  refine ⟨(flatten_chunks ms).symm, hf.staged, hf.flushed, hf.offered, ?_⟩
  have hoffered := hf.offered
  obtain ⟨us, hr⟩ := Feed.run_upload h
  obtain ⟨front, hfront, hsub, hearly⟩ := (Wired.run hr).ledger
  have haccepted : (accepted os).Sublist ((chunks ms).1.map (Feed.frameOf quantize)) := by
    rw [← hoffered]
    exact (accepted_sublist os).trans (List.sublist_append_left _ _)
  obtain ⟨taken, htaken, htakes⟩ := List.sublist_map_iff.mp haccepted
  -- the frames the task took are those of the first chunks
  obtain ⟨gone, htail, rfl⟩ : ∃ gone, gone <+: taken ∧ front = gone.map (Feed.frameOf quantize) := by
    refine ⟨taken.take front.length, List.take_prefix _ _, ?_⟩
    rw [List.map_take, ← htakes, hfront, List.take_left]
  rw [List.map_map] at hsub hearly
  obtain ⟨heard, hheard, hhears⟩ := List.sublist_map_iff.mp hsub
  refine ⟨taken, gone, heard, ⟨htaken, htakes, ?_⟩, ⟨htail, hfront⟩, ⟨hheard, ?_⟩, ⟨hhears, ?_⟩, ?_⟩
  · intro hnone hidle
    rw [hidle, Option.toList_none, List.append_nil, ← accepted_of_rejected hnone, htakes] at hoffered
    have hlen := congrArg List.length hoffered
    rw [List.length_map, List.length_map] at hlen
    exact htaken.eq_of_length hlen
  · intro he
    have hlen := congrArg List.length (hhears.symm.trans (hearly he))
    rw [List.length_map, List.length_map] at hlen
    exact hheard.eq_of_length hlen
  · rw [hhears]
    exact read_chunks heard
  · intro hends
    obtain ⟨-, hall⟩ := handed_of_ends h hends
    have hlen := congrArg List.length (hhears.symm.trans hall)
    rw [htakes] at hlen
    simp only [List.length_map] at hlen
    exact (hheard.trans htail.sublist).eq_of_length hlen

/-- Two samples are staged when the session is ended, and are sent before end-of-stream. -/
theorem Feed.run_ended (quantize : Sample → Int16) (x y : Sample) :
    ∃ f os, Mealy.run (Feed.step quantize) {}
        [.task (.runtime (.ok ())), .push [x], .push [y], .endSession, .turn, .turn, .turn, .finish,
          .task (.opened (.ok ())), .task (.written (.ok ())), .task .turn, .task .recv, .subtract,
          .task (.written (.ok ())), .task .recv, .task .turn] = some (f, os) ∧
      rejected os = [] ∧ f.upload.call.frame = none ∧ Ends os :=
  ⟨_, _, rfl, rfl, rfl, List.mem_of_getLast? rfl⟩

/-- They are one chunk, and heard. -/
theorem server_hears_ended :
    ∃ f os, Mealy.run (Feed.step id) {}
        [.task (.runtime (.ok ())), .push [7], .push [-2], .endSession, .turn, .turn, .turn, .finish,
          .task (.opened (.ok ())), .task (.written (.ok ())), .task .turn, .task .recv, .subtract,
          .task (.written (.ok ())), .task .recv, .task .turn] = some (f, os) ∧
      f.staged = ⟨[], 0⟩ ∧ pcm.read (handed (taskActs os)).flatten = [7, -2] := by
  obtain ⟨f, os, hrun, hnone, hidle, hends⟩ := Feed.run_ended (id : Int16 → Int16) 7 (-2)
  refine ⟨f, os, hrun, ?_⟩
  obtain ⟨-, hstaged, -, -, taken, gone, heard, hhears⟩ := server_hears hrun
  refine ⟨hstaged, ?_⟩
  rw [hhears.reads.2, hhears.ends hends, hhears.takes.2.2 hnone hidle]
  rfl

/-- While the session is quiet no write is in progress. -/
theorem Noting.quiet {os : List Seen} {u : Upload} (h : Noting os u) (hq : u.Quiet) :
    Soniox.handed (taskActs os) = (endedWrites os).map fun w => w.2.1 := by
  have hnone : (writeLog (taskActs os)).1 = none := by
    obtain ⟨c, hp, hpt⟩ := hq.open_
    have hw := h.writing
    rw [Task.uploads_connected hp] at hw
    rcases hpt with hpt | hpt <;> rw [hpt] at hw <;>
      exact Option.isNone_iff_eq_none.mp (by simpa [Point.uploads] using hw)
  rw [h.handed, hnone, Option.toList_none, List.append_nil]

/-- While it is quiet, all that was accepted was handed to a write. -/
theorem Wired.quiet {os : List Seen} {u : Upload} (h : Wired os u) (hq : u.Quiet) :
    handed (taskActs os) = (accepted os).map AudioFrame.pcm := by
  obtain ⟨gone, hgone, -, hearly⟩ := h.ledger
  have hline : u.task.queues.line = [] := by
    rw [Queues.line, Queues.channel, hq.pending, hq.channel]
    rfl
  rw [hgone, hline, List.append_nil]
  exact hearly (.inl hq.unfinished)

end Larmindon.Soniox
