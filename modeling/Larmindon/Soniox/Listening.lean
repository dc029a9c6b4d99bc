/-
# `Soniox.Listening` — from the capture callback to the service

A session of the Soniox backend end to end.  Three threads are at work: the capture
callback fills the buffer, the processing loop drains it, runs the stages and makes
the calls they end in, and the socket task sends what the calls hand over.  A run
interleaves them in any order.

    captured     the buffer                     every sample held, drained or counted
    drain        resample, gain, frames of 512  what is short of a frame is left over
    serve        push_audio, process            each frame pushed once
    feed         the channel and the socket     each frame of bytes sent once

Each stage has its own account of what it was given and what it gave on; here they
are put together (`Conveyed`), so that what the service reads is a function of what
was captured (`capture_heard`).
-/
import Larmindon.Delivery
import Larmindon.Downmix
import Larmindon.Soniox.Feed

namespace Larmindon

variable {F ρ ν : Type}

/-! ## The stages of one iteration -/

/-- A VAD that fails on no frame. -/
def Vad.Infallible (V : Vad F ν) : Prop :=
  ∀ v frame e v', V.processFrame v frame ≠ some (.error e, v')

/-- Every frame asked about is pushed. -/
theorem Vad.Infallible.run {V : Vad F ν} (hV : V.Infallible) (frames : List (List F)) :
    ∀ {v v' : ν} {calls : List (BackendCall F)},
      Mealy.run (V.frame .continuous) v frames = some (v', calls) → pushed calls = frames.flatten := by
  induction frames with
  | nil =>
      intro v v' calls h
      obtain ⟨-, rfl⟩ := Prod.mk.inj (Option.some.inj h)
      rfl
  | cons frame frames ih =>
      intro v v' calls h
      obtain ⟨v₁, first, rest, hframe, hrest, rfl⟩ := Mealy.run_cons_inv h
      have hfirst : pushed first = frame := by
        rw [Vad.frame] at hframe
        cases hp : V.processFrame v frame with
        | none =>
            rw [hp] at hframe
            cases hframe
        | some r =>
            obtain ⟨result, v₂⟩ := r
            cases result with
            | error e => exact absurd hp (hV v frame e v₂)
            | ok d =>
                rw [hp] at hframe
                obtain ⟨-, rfl⟩ := Prod.mk.inj (Option.some.inj hframe)
                cases d <;> simp [AudioGating.route, pushed]
      rw [List.flatten_cons, ← ih hrest, ← hfirst]
      exact List.flatMap_append

section Stages

variable [F32 F]

/-- An iteration is the two stages in front of the VAD, and the whole frames of what they give. -/
theorem Pipeline.iterate_pushes {R : Resampler F ρ} {V : Vad F ν} (hV : V.Infallible)
    {p p' : Pipeline F ρ ν} {i : Drain F} {rs : List (Request F)}
    (hl : p.vadLeftover.length < vadChunkSize) (h : p.iterate R V .continuous i = some (p', rs)) :
    ∃ samples, p.toFront.iterate R i = some (p'.toFront, samples) ∧
      p'.vadLeftover = Chunks.tail vadChunkSize (p.vadLeftover ++ samples) ∧
      pushed (rs.filterMap Request.call?) =
        (Chunks.cut vadChunkSize (p.vadLeftover ++ samples)).flatten := by
  have hq : (p.reload V i.reload).toFront = p.toFront.reload i.reload ∧
      (p.reload V i.reload).vadLeftover = p.vadLeftover := by
    cases i.reload with
    | none => exact ⟨rfl, rfl⟩
    | some s => exact ⟨rfl, rfl⟩
  obtain ⟨hqf, hql⟩ := hq
  rw [Front.iterate, ← hqf]
  rw [← hql] at hl ⊢
  rw [Pipeline.iterate] at h
  generalize p.reload V i.reload = q at h hl ⊢
  cases hd : i.drained with
  | nil =>
      rw [hd] at h
      obtain ⟨rfl, rfl⟩ := Prod.mk.inj (Option.some.inj h)
      refine ⟨[], rfl, ?_, ?_⟩
      · rw [List.append_nil, Chunks.tail_of_lt hl]
      · rw [List.append_nil, Chunks.cut_of_lt hl]
        rfl
  | cons x xs =>
      rw [hd] at h
      simp only [Option.map_eq_some_iff, Pipeline.deliver, Option.bind_eq_some_iff] at h
      obtain ⟨⟨p₁, calls⟩, ⟨⟨front, samples⟩, hfront, ⟨vad, calls'⟩, hframes, heq⟩, heq'⟩ := h
      cases heq
      obtain ⟨rfl, rfl⟩ := Prod.mk.inj heq'
      refine ⟨samples, hfront, rfl, ?_⟩
      rw [filterMap_call]
      exact hV.run _ hframes

/-- The stages in front of the VAD, one by one. -/
def Front.equiv : Front F ρ ≃ (List F × Option ρ) × AgcProcessor F where
  toFun f := ((f.resampleLeftover, f.resampler), f.agc)
  invFun s := ⟨s.1.2, s.1.1, s.2⟩
  left_inv _ := rfl
  right_inv _ := rfl

end Stages

namespace Soniox

/-! ## The session -/

structure Listening (F ρ ν : Type) where
  capture : CaptureBuffer F
  pipeline : Pipeline F ρ ν
  /-- What the iteration has still to ask of the backend. -/
  requests : List (Request F)
  feed : Feed

inductive ListeningMove (F : Type) where
  /-- The callback. -/
  | captured (samples : List F)
  /-- The stream is exchanged. -/
  | setCapacity (capacity : ℕ)
  /-- An iteration begins, with the settings pushed if there are any. -/
  | drain (reload : Option (PipelineSettings F))
  /-- The next of what the iteration asks of the backend. -/
  | serve
  /-- The session's end, the next step of a send in progress, or a move of the socket task. -/
  | feed (m : FeedMove F)

/-- What can be seen of a session: what was drained and how many samples were missing, and what the
client and its task do. -/
inductive Shown (F : Type) where
  | drained (i : Drain F) (droppedSamples : ℕ)
  | seen (o : Seen)

/-- What a request asks of the feed; marks and polls send nothing. -/
def asks : Request F → Option (FeedMove F)
  | .call (.pushAudio samples) => some (.push samples)
  | .call .markSpeechStart | .call .markSpeechEnd | .poll => none
  | .process => some .process

/-- The samples captured. -/
def captured (ms : List (ListeningMove F)) : List F :=
  ms.flatMap fun m => match m with
    | .captured samples => samples
    | _ => []

/-- What the iterations read. -/
def iterations (os : List (Shown F)) : List (Drain F) :=
  os.filterMap fun o => match o with
    | .drained i _ => some i
    | .seen _ => none

/-- What the drains returned. -/
def drains (os : List (Shown F)) : List (List F × ℕ) :=
  os.filterMap fun o => match o with
    | .drained i droppedSamples => some (i.drained, droppedSamples)
    | .seen _ => none

/-- What is seen of the client and its task. -/
def seen (os : List (Shown F)) : List Seen :=
  os.filterMap fun o => match o with
    | .drained _ _ => none
    | .seen o => some o

@[simp] theorem captured_append (xs ys : List (ListeningMove F)) :
    captured (xs ++ ys) = captured xs ++ captured ys := by simp [captured]

@[simp] theorem iterations_append (xs ys : List (Shown F)) :
    iterations (xs ++ ys) = iterations xs ++ iterations ys := by simp [iterations]

@[simp] theorem drains_append (xs ys : List (Shown F)) : drains (xs ++ ys) = drains xs ++ drains ys := by
  simp [drains]

@[simp] theorem seen_append (xs ys : List (Shown F)) : seen (xs ++ ys) = seen xs ++ seen ys := by
  simp [seen]

@[simp] theorem iterations_seen (os : List Seen) : iterations (os.map (Shown.seen (F := F))) = [] := by
  induction os with
  | nil => rfl
  | cons o os ih => exact ih

@[simp] theorem drains_seen (os : List Seen) : drains (os.map (Shown.seen (F := F))) = [] := by
  induction os with
  | nil => rfl
  | cons o os ih => exact ih

@[simp] theorem seen_seen (os : List Seen) : seen (os.map (Shown.seen (F := F))) = os := by
  induction os with
  | nil => rfl
  | cons o os ih => exact congrArg (o :: ·) ih

/-- Where a call leaves the session. -/
def FeedMove.stage (stage : Stage) : FeedMove F → Stage
  | .endSession => .flushed
  | .finish => .finished
  | .push _ | .process | .drop | .task _ | .subtract | .turn => stage

theorem Feed.stage_client {f f' : Feed} {um : UploadMove} {new : List Seen}
    (h : f.client um = some (f', new)) : f'.stage = f.stage := by
  obtain ⟨u, -, rfl⟩ := client_eq_some h
  rfl

theorem Feed.stage_send {f f' : Feed} {new : List Seen} (h : f.send = some (f', new)) :
    f'.stage = f.stage := by
  rw [send] at h
  split at h
  · cases h
    rfl
  · exact (stage_client h).trans rfl

theorem Feed.stage_step {quantize : F → Int16} {f f' : Feed} {m : FeedMove F} {new : List Seen}
    (h : Feed.step quantize f m = some (f', new)) : f'.stage = m.stage f.stage := by
  cases m with
  | push samples =>
      obtain ⟨-, h⟩ := Option.ite_none_right_eq_some.mp h
      cases h
      rfl
  | process | endSession =>
      obtain ⟨-, h⟩ := Option.ite_none_right_eq_some.mp h
      exact stage_send h
  | finish =>
      obtain ⟨-, h⟩ := Option.ite_none_right_eq_some.mp h
      exact stage_client h
  | drop | task e | subtract | turn => exact stage_client h

theorem stage_asks {request : Request F} {m : FeedMove F} (h : asks request = some m) (stage : Stage) :
    m.stage stage = stage := by
  cases request with
  | call c =>
      cases c with
      | pushAudio samples =>
          cases h
          rfl
      | markSpeechStart | markSpeechEnd => cases h
  | poll => cases h
  | process =>
      cases h
      rfl

/-- What a request pushes is what it asks of the feed. -/
theorem pushed_requests (request : Request F) (requests : List (Request F)) :
    Larmindon.pushed ((request :: requests).filterMap Request.call?) =
      pushed (asks request).toList ++ Larmindon.pushed (requests.filterMap Request.call?) := by
  cases request with
  | call c =>
      cases c with
      | pushAudio samples => simp [Request.call?, asks, pushed, Larmindon.pushed]
      | markSpeechStart | markSpeechEnd => rfl
  | poll | process => rfl

namespace Listening

variable (quantize : F → Int16)

/-- The moves of the feed that no iteration asks for.  The session ends between iterations. -/
def allows (s : Listening F ρ ν) : FeedMove F → Bool
  | .push _ | .process => false
  | .endSession => s.requests.isEmpty
  | .finish | .drop | .task _ | .subtract | .turn => true

def move (s : Listening F ρ ν) (m : FeedMove F) : Option (Listening F ρ ν × List (Shown F)) :=
  (Feed.step quantize s.feed m).map fun (feed, seen) => ({ s with feed }, seen.map .seen)

variable [F32 F]

def new (capacity : ℕ) (resampler : Option ρ) (vad : ν) (settings : PipelineSettings F) :
    Listening F ρ ν where
  capture := .withCapacity capacity
  pipeline := .new resampler vad settings
  requests := []
  feed := {}

/-- One step of one of the threads. -/
def step (R : Resampler F ρ) (V : Vad F ν) :
    Mealy.Step (Listening F ρ ν) (ListeningMove F) (Shown F)
  | s, .captured samples => some ({ s with capture := s.capture.extendSamples samples }, [])
  | s, .setCapacity capacity => some ({ s with capture := s.capture.setCapacity capacity }, [])
  | s, .drain reload =>
      if s.requests.isEmpty ∧ s.feed.stage = .live ∧ s.feed.upload.Callable then
        let ((drained, droppedSamples), capture) := s.capture.drainAll
        (s.pipeline.iterate R V .continuous ⟨reload, drained⟩).map fun (pipeline, requests) =>
          ({ s with capture, pipeline, requests }, [.drained ⟨reload, drained⟩ droppedSamples])
      else none
  | s, .serve =>
      match s.requests with
      | [] => none
      | request :: requests =>
          match asks request with
          | none => some ({ s with requests }, [])
          | some m => { s with requests }.move quantize m
  | s, .feed m => if s.allows m then s.move quantize m else none

end Listening

/-! ## The accounts, put together -/

variable {quantize : F → Int16}

theorem stage_move {s t : Listening F ρ ν} {m : FeedMove F} {new : List (Shown F)}
    (h : s.move quantize m = some (t, new)) : t.feed.stage = m.stage s.feed.stage := by
  simp only [Listening.move, Option.map_eq_some_iff] at h
  obtain ⟨⟨feed, seen⟩, hstep, heq⟩ := h
  cases heq
  exact Feed.stage_step hstep

variable [F32 F] {R : Resampler F ρ} {V : Vad F ν}

/-- Where a session stands, from the pipeline it began with: the samples captured are drained, held or
counted; those drained have been through the stages; and the whole frames of what came of them were
pushed, or are about to be. -/
structure Conveyed (quantize : F → Int16) (R : Resampler F ρ) (p : Pipeline F ρ ν)
    (ms : List (ListeningMove F)) (os : List (Shown F)) (s : Listening F ρ ν) : Prop where
  accounted : Larmindon.Accounted (captured ms) (drains os) s.capture
  heard : ∃ (post : List F) (fms : List (FeedMove F)),
    Mealy.run (Front.iterate R) p.toFront (iterations os) = some (s.pipeline.toFront, post) ∧
    s.pipeline.vadLeftover = Chunks.tail vadChunkSize post ∧
    Mealy.run (Feed.step quantize) {} fms = some (s.feed, seen os) ∧
    pushed fms ++ Larmindon.pushed (s.requests.filterMap Request.call?) =
      (Chunks.cut vadChunkSize post).flatten
  ended : s.feed.stage ≠ .live → s.requests = []

namespace Conveyed

variable {p : Pipeline F ρ ν} {ms : List (ListeningMove F)} {os : List (Shown F)}
  {s s' : Listening F ρ ν} {m : ListeningMove F} {new : List (Shown F)}

theorem new_conveyed (capacity : ℕ) (resampler : Option ρ) (vad : ν) (settings : PipelineSettings F) :
    Conveyed quantize R (.new resampler vad settings) [] [] (.new capacity resampler vad settings) where
  accounted := ⟨[], [], rfl, .nil, .withCapacity capacity⟩
  heard := by
    refine ⟨[], [], rfl, ?_, rfl, ?_⟩
    · rw [Chunks.tail_of_lt (show 0 < vadChunkSize by decide)]
      rfl
    · rw [Chunks.cut_nil]
      rfl
  ended := fun _ => rfl

/-- What the feed does, whoever asked for it. -/
theorem fed (h : Conveyed quantize R p ms os s) {t : Listening F ρ ν} {fm : FeedMove F}
    (hcapture : t.capture = s.capture) (hpipeline : t.pipeline = s.pipeline) (hfeed : t.feed = s.feed)
    (hpushed : pushed [fm] ++ Larmindon.pushed (t.requests.filterMap Request.call?) =
      Larmindon.pushed (s.requests.filterMap Request.call?))
    (hcaptured : captured [m] = []) (hmove : t.move quantize fm = some (s', new))
    (hended : s'.feed.stage ≠ .live → t.requests = []) :
    Conveyed quantize R p (ms ++ [m]) (os ++ new) s' := by
  obtain ⟨post, fms, hfront, hleft, hrun, hsamples⟩ := h.heard
  simp only [Listening.move, Option.map_eq_some_iff, Prod.mk.injEq] at hmove
  obtain ⟨⟨feed, new⟩, hstep, rfl, rfl⟩ := hmove
  rw [hfeed] at hstep
  refine ⟨?_, ⟨post, fms ++ [fm], ?_, ?_, ?_, ?_⟩, hended⟩
  · rw [captured_append, hcaptured, drains_append, drains_seen, List.append_nil, List.append_nil]
    exact hcapture ▸ h.accounted
  · rw [iterations_append, iterations_seen, List.append_nil]
    exact hpipeline ▸ hfront
  · exact hpipeline ▸ hleft
  · rw [seen_append, seen_seen]
    exact Mealy.run_append hrun (Mealy.run_singleton hstep)
  · rw [pushed_append, List.append_assoc, ← hsamples]
    exact congrArg _ hpushed

/-- What touches the buffer alone. -/
theorem buffered (h : Conveyed quantize R p ms os s) {b : CaptureBuffer F}
    (hb : Larmindon.Accounted (captured (ms ++ [m])) (drains os) b) :
    Conveyed quantize R p (ms ++ [m]) os { s with capture := b } where
  accounted := hb
  heard := h.heard
  ended := h.ended

/-- An iteration, of which the calls are about to be made. -/
theorem drained (hV : V.Infallible) (h : Conveyed quantize R p ms os s)
    {reload : Option (PipelineSettings F)}
    (hs : Listening.step quantize R V s (.drain reload) = some (s', new)) :
    Conveyed quantize R p (ms ++ [.drain reload]) (os ++ new) s' := by
  have hn : 0 < vadChunkSize := by decide
  obtain ⟨post, fms, hfront, hleft, hrun, hsamples⟩ := h.heard
  obtain ⟨⟨hidle, hlive, -⟩, hs⟩ := Option.ite_none_right_eq_some.mp hs
  simp only [Option.map_eq_some_iff] at hs
  obtain ⟨⟨pipeline, requests⟩, hiterate, heq⟩ := hs
  obtain ⟨rfl, rfl⟩ := Prod.mk.inj heq
  have hshort : s.pipeline.vadLeftover.length < vadChunkSize := by
    rw [hleft, Chunks.length_tail]
    exact Nat.mod_lt _ hn
  obtain ⟨samples, hstage, hleft', hpushes⟩ := Pipeline.iterate_pushes hV hshort hiterate
  rw [hleft] at hleft' hpushes
  rw [List.isEmpty_iff.mp hidle] at hsamples
  refine ⟨?_, ⟨post ++ samples, fms, ?_, ?_, ?_, ?_⟩, fun hne => absurd hlive hne⟩
  · rw [captured_append, drains_append]
    have hnone : captured [(.drain reload : ListeningMove F)] = [] := rfl
    rw [hnone, List.append_nil]
    exact h.accounted.drainAll
  · rw [iterations_append]
    exact Mealy.run_append hfront (Mealy.run_singleton hstage)
  · rw [Chunks.tail_append_tail hn]
    exact hleft'
  · rw [seen_append]
    exact (List.append_nil (seen os)).symm ▸ hrun
  · rw [Chunks.cut_append_tail hn, List.flatten_append, ← hsamples, ← hpushes]
    show _ = (pushed fms ++ []) ++ _
    rw [List.append_nil]

/-- The next of the calls. -/
theorem served (h : Conveyed quantize R p ms os s)
    (hs : Listening.step quantize R V s .serve = some (s', new)) :
    Conveyed quantize R p (ms ++ [.serve]) (os ++ new) s' := by
  obtain ⟨post, fms, hfront, hleft, hrun, hsamples⟩ := h.heard
  rw [Listening.step] at hs
  cases hr : s.requests with
  | nil =>
      rw [hr] at hs
      cases hs
  | cons request requests =>
      rw [hr] at hs
      have hlive : s.feed.stage = .live := by
        cases hst : s.feed.stage with
        | live => rfl
        | flushed | finished =>
            have hnil := h.ended (by rw [hst]; decide)
            rw [hr] at hnil
            cases hnil
      rw [hr, pushed_requests] at hsamples
      cases hasks : asks request with
      | none =>
          rw [hasks] at hsamples
          simp only [hasks] at hs
          obtain ⟨rfl, rfl⟩ := Prod.mk.inj (Option.some.inj hs)
          rw [List.append_nil]
          refine ⟨?_, ⟨post, fms, hfront, hleft, hrun, hsamples⟩, fun hne => absurd hlive hne⟩
          rw [captured_append]
          exact (List.append_nil (captured ms)).symm ▸ h.accounted
      | some fm =>
          simp only [hasks] at hs
          refine h.fed (t := { s with requests }) rfl rfl rfl ?_ rfl hs ?_
          · rw [hr, pushed_requests, hasks]
            rfl
          · intro hne
            rw [stage_move hs, stage_asks hasks] at hne
            exact absurd hlive hne

/-- What no iteration asks for pushes nothing, and ends the session only between iterations. -/
theorem unasked (h : Conveyed quantize R p ms os s) {fm : FeedMove F}
    (hs : Listening.step quantize R V s (.feed fm) = some (s', new)) :
    Conveyed quantize R p (ms ++ [.feed fm]) (os ++ new) s' := by
  obtain ⟨hallows, hs⟩ := Option.ite_none_right_eq_some.mp hs
  have hpushed : pushed [fm] = [] := by
    cases fm with
    | push => cases hallows
    | process | endSession | finish | drop | task | subtract | turn => rfl
  refine h.fed rfl rfl rfl (by rw [hpushed, List.nil_append]) rfl hs ?_
  intro hstage
  cases fm with
  | push | process => cases hallows
  | endSession => exact List.isEmpty_iff.mp hallows
  | finish =>
      refine h.ended ?_
      simp only [Listening.move, Option.map_eq_some_iff] at hs
      obtain ⟨_, hstep, -⟩ := hs
      obtain ⟨hflushed, -⟩ := Option.ite_none_right_eq_some.mp hstep
      rw [hflushed]
      decide
  | drop | task | subtract | turn =>
      rw [stage_move hs] at hstage
      exact h.ended hstage

theorem step (hV : V.Infallible) (h : Conveyed quantize R p ms os s)
    (hs : Listening.step quantize R V s m = some (s', new)) :
    Conveyed quantize R p (ms ++ [m]) (os ++ new) s' := by
  cases m with
  | captured samples =>
      obtain ⟨rfl, rfl⟩ := Prod.mk.inj (Option.some.inj hs)
      rw [List.append_nil]
      refine h.buffered ?_
      have hnew : captured [.captured samples] = samples := List.append_nil samples
      rw [captured_append, hnew]
      exact h.accounted.extendSamples samples
  | setCapacity capacity =>
      obtain ⟨rfl, rfl⟩ := Prod.mk.inj (Option.some.inj hs)
      rw [List.append_nil]
      refine h.buffered ?_
      have hnone : captured [(.setCapacity capacity : ListeningMove F)] = [] := rfl
      rw [captured_append, hnone, List.append_nil]
      exact h.accounted.setCapacity capacity
  | drain reload => exact h.drained hV hs
  | serve => exact h.served hs
  | feed fm => exact h.unasked hs

theorem run (hV : V.Infallible) {capacity : ℕ} {resampler : Option ρ} {vad : ν}
    {settings : PipelineSettings F}
    (h : Mealy.run (Listening.step quantize R V) (.new capacity resampler vad settings) ms = some (s, os)) :
    Conveyed quantize R (.new resampler vad settings) ms os s :=
  Mealy.run_sound (P := fun ms s os => Conveyed quantize R (.new resampler vad settings) ms os s)
    (fun _ _ _ _ _ _ hconveyed hs => hconveyed.step hV hs) (new_conveyed capacity resampler vad settings) h

end Conveyed

section OneFrame

end OneFrame

end Soniox

end Larmindon
