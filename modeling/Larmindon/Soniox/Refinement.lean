/-
# `Soniox.Refinement` — the two models of the queues agree

`World` has the whole of `process` and `poll` beside the socket task, and takes the
task's move and what it does to the counter as one step; `Feed` has only what the
calls send, and every access to the counter is a step of its own.

    task e           the move, then the subtraction where the move has one
    push, process    the same
    poll             nothing: it sends nothing
    turn             the next access of a send; nothing while a call drains and folds

So a run of the world is a run of the feed (`world_feeds`), and what is shown of all
runs of the feed, or of its upload, holds beside everything a call does with what
it receives (`world_sends`).
-/
import Larmindon.Soniox.Feed
import Larmindon.Soniox.World

namespace Larmindon.Soniox

variable {Sample : Type} {quantize : Sample → Int16}

/-! ## The abstraction -/

/-- The send in progress. -/
def Call.send : Call → SendCall
  | .loading frame => .loading frame
  | .counting frame => .counting frame
  | .sending frame => .sending frame
  | .undoing frame => .undoing frame
  | .idle | .draining _ | .folding _ _ _ | .ended => .idle

namespace World

def feed (w : World) : Feed where
  staged := ⟨w.backend.staged, w.backend.stagedSamples⟩
  stage := .live
  upload := { task := w.task, call := w.call.send }

/-- What the task does in a move. -/
def acts (w : World) : Move Sample → List Act
  | .task e => ((w.task.own e).map Prod.snd).getD []
  | .push _ | .process | .poll | .turn _ => []

/-- The world, with all that the task has done. -/
def watched (quantize : Sample → Int16) :
    Mealy.Step (World × List Act) (Move Sample) (Except AsrError (List TranscriptUpdate)) :=
  Mealy.track (step quantize) fun w m acts => acts ++ w.acts m

end World

/-- All samples pushed. -/
def Move.pushed (ms : List (Move Sample)) : List Sample :=
  ms.flatMap fun m => match m with
    | .push samples => samples
    | _ => []

/-- The moves that push or send something. -/
def Move.feeds : Move Sample → Option (FeedMove Sample)
  | .push samples => some (.push samples)
  | .process => some .process
  | .task _ | .poll | .turn _ => none

/-- The samples pushed, cut at the calls of `process`; and those that are staged. -/
def Move.chunks (ms : List (Move Sample)) : List (List Sample) × List Sample :=
  Soniox.chunks (ms.filterMap Move.feeds)

theorem Move.flatten_chunks (ms : List (Move Sample)) :
    (Move.chunks ms).1.flatten ++ (Move.chunks ms).2 = Move.pushed ms := by
  rw [Move.chunks, Soniox.flatten_chunks]
  induction ms with
  | nil => rfl
  | cons m ms ih =>
      cases m with
      | push samples => exact congrArg (samples ++ ·) ih
      | process | task | poll | turn => exact ih

/-! ## One step -/

/-- Of a move of the task, the subtraction is what it does to the counter. -/
theorem Task.own_queued {t t' : Task} {e : Event} {acts : List Act}
    (h : t.own e = some (t', acts)) :
    t'.queues.queued = match t.operand e with
      | none => t.queues.queued
      | some n => fetchSub t.queues.queued n := by
  have hflow := own_flow h
  generalize t'.queues = q at hflow
  cases hflow with
  | still hf | control hf | buffer _ hf => simp [operand, hf]
  | flush hp _ hf | take hp _ hf => simp [operand, hf, hp, Queues.release]
  | discard hp hf => simp [operand, hf, hp]

/-- The task's move, with the counter read and written in between. -/
theorem Feed.run_task (quantize : Sample → Int16) (f : Feed) {task : Task} {e : Event} {acts : List Act}
    (hsub : f.upload.subtracting = none) (h : f.upload.task.own e = some (task, acts)) :
    ∃ fs : List (FeedMove Sample), (∀ b, fs.foldl FeedMove.cut b = b) ∧
      Mealy.run (Feed.step quantize) f fs =
        some ({ f with upload := { f.upload with task } }, acts.map .act) := by
  obtain ⟨staged, stage, ⟨t, subtracting, call, finishSent, dropped⟩⟩ := f
  obtain rfl : subtracting = none := hsub
  replace h : t.own e = some (task, acts) := h
  have hqueued := Task.own_queued h
  have htask : Feed.step quantize ⟨staged, stage, ⟨t, none, call, finishSent, dropped⟩⟩ (.task e) =
      some (⟨staged, stage, ⟨{ task with queues.queued := t.queues.queued }, t.operand e, call, finishSent,
        dropped⟩⟩, acts.map .act) := by
    simp only [Feed.step, Feed.client, Upload.step, h, Option.map_some]
  cases hop : t.operand e with
  | none =>
      have hsame : task.queues.queued = t.queues.queued := by rw [hqueued, hop]
      rw [hop, ← hsame] at htask
      exact ⟨[.task e], fun _ => rfl, Mealy.run_singleton htask⟩
  | some n =>
      have hsame : task.queues.queued = fetchSub t.queues.queued n := by rw [hqueued, hop]
      have hsubtract : Feed.step quantize ⟨staged, stage, ⟨{ task with queues.queued := t.queues.queued },
          some n, call, finishSent, dropped⟩⟩ .subtract =
            some (⟨staged, stage, ⟨{ task with queues.queued := fetchSub t.queues.queued n }, none, call,
              finishSent, dropped⟩⟩, []) := rfl
      rw [hop] at htask
      rw [← hsame] at hsubtract
      refine ⟨[.task e, .subtract], fun _ => rfl, ?_⟩
      rw [Mealy.run_cons htask, Mealy.run_singleton hsubtract, Option.map_some, List.append_nil]

/-- Receiving stages nothing. -/
theorem foldMessage_staged {s s' : SonioxBackend × SegmentIds} {i : Instant × Inbound}
    {us : List TranscriptUpdate} (h : SonioxBackend.foldMessage s i = some (s', us)) :
    s'.1.staged = s.1.staged ∧ s'.1.stagedSamples = s.1.stagedSamples ∧ s'.1.client = s.1.client := by
  obtain ⟨b, ids⟩ := s
  obtain ⟨now, m⟩ := i
  cases m with
  | response r =>
      simp only [SonioxBackend.foldMessage, Option.map_eq_some_iff, Prod.mk.injEq] at h
      obtain ⟨w, -, rfl, -⟩ := h
      dsimp only
      split <;> exact ⟨rfl, rfl, rfl⟩
  | reconnecting reason | finished | fatal message =>
      cases h
      exact ⟨rfl, rfl, rfl⟩

/-- Nor does returning, and the call is over. -/
theorem World.finishCall_feed (w : World) (updates : List TranscriptUpdate) (fallback : Option AsrError)
    (hcall : w.call.send = .idle) :
    (w.finishCall (w.backend.deliver updates fallback)).1.feed = w.feed ∧
      (w.finishCall (w.backend.deliver updates fallback)).1.backend.client = w.backend.client := by
  have hdeliver : (w.backend.deliver updates fallback).1.staged = w.backend.staged ∧
      (w.backend.deliver updates fallback).1.stagedSamples = w.backend.stagedSamples ∧
      (w.backend.deliver updates fallback).1.client = w.backend.client := by
    unfold SonioxBackend.deliver
    repeat' split
    all_goals exact ⟨rfl, rfl, rfl⟩
  obtain ⟨hstaged, hsamples, hclient⟩ := hdeliver
  unfold World.finishCall
  split
  all_goals
    refine ⟨?_, hclient⟩
    simp only [feed, hstaged, hsamples, hcall]
    rfl

/-- What a step of the world is, for the feed. -/
structure Fits (quantize : Sample → Int16) (w : World) (m : Move Sample) (w' : World) : Prop where
  client : w'.backend.client ≠ none
  feeds : ∃ fs os, Mealy.run (Feed.step quantize) w.feed fs = some (w'.feed, os) ∧
    taskActs os = w.acts m ∧ ∀ b, fs.foldl FeedMove.cut b = m.feeds.toList.foldl FeedMove.cut b

/-- A step that is one of the feed. -/
theorem Fits.one {w w' : World} {m : Move Sample} (fm : FeedMove Sample) (new : List Seen)
    (hclient : w'.backend.client ≠ none) (hs : Feed.step quantize w.feed fm = some (w'.feed, new))
    (hacts : taskActs new = w.acts m)
    (hcut : ∀ b, fm.cut b = m.feeds.toList.foldl FeedMove.cut b) : Fits quantize w m w' :=
  ⟨hclient, [fm], new, Mealy.run_singleton hs, hacts, hcut⟩

/-- A step the feed does not see. -/
theorem Fits.still {w w' : World} {m : Move Sample} (hclient : w'.backend.client ≠ none)
    (hfeed : w'.feed = w.feed) (hacts : w.acts m = []) (hnone : m.feeds = none) :
    Fits quantize w m w' :=
  ⟨hclient, [], [], by rw [hfeed]; rfl, hacts.symm, fun _ => by rw [hnone]; rfl⟩

namespace World

variable {w w' : World} {rs : List (Except AsrError (List TranscriptUpdate))}

/-- What a call sends when it begins. -/
theorem feed_process (quantize : Sample → Int16) (hidle : w.call = .idle) :
    Feed.step quantize w.feed .process =
      if w.backend.staged.isEmpty then some (w.feed, [])
      else (Upload.step { task := w.task } (.sendAudio ⟨w.backend.staged, w.backend.stagedSamples⟩)).map
        fun (upload, seen) => (⟨⟨[], 0⟩, .live, upload⟩, seen) := by
  have hfeed : w.feed = ⟨⟨w.backend.staged, w.backend.stagedSamples⟩, .live, { task := w.task }⟩ := by
    simp only [feed, hidle, Call.send]
  rw [hfeed]
  have hguard : Stage.live = .live ∧ ({ task := w.task } : Upload).Callable := ⟨rfl, rfl, rfl⟩
  rw [Feed.step, if_pos hguard]
  rfl

theorem beginProcess_fits (hclient : w.backend.client ≠ none) (hidle : w.call = .idle)
    (h : w.beginProcess = (w', rs)) : Fits quantize w .process w' := by
  obtain ⟨client, hc⟩ := Option.ne_none_iff_exists'.mp hclient
  have hprocess := feed_process quantize hidle
  have hcallable : ({ task := w.task } : Upload).Callable := ⟨rfl, rfl⟩
  rw [beginProcess] at h
  cases hempty : w.backend.staged.isEmpty with
  | true =>
      rw [if_pos hempty] at h hprocess
      cases h
      refine .one .process [] hclient ?_ rfl fun _ => rfl
      rw [hprocess]
      simp only [feed, hidle, Call.send]
  | false =>
      have hsome : ¬ w.backend.staged.isEmpty = true := by rw [hempty]; decide
      rw [if_neg hsome] at h hprocess
      simp only [hc] at h
      split at h
      case isTrue hrefused =>
          cases h
          refine .one .process [.rejected ⟨w.backend.staged, w.backend.stagedSamples⟩] (by simp) ?_ rfl
            fun _ => rfl
          rw [hprocess, Upload.step, if_pos hcallable, if_pos hrefused]
          simp only [Option.map_some, feed, Call.send]
      case isFalse hvalid =>
          cases h
          refine .one .process [] (by simp) ?_ rfl fun _ => rfl
          rw [hprocess, Upload.step, if_pos hcallable, if_neg hvalid]
          simp only [Option.map_some, feed, Call.send]

/-- The accesses of a send are those of the feed; draining and folding is not seen. -/
theorem turn_fits {now : Instant} (hclient : w.backend.client ≠ none) (h : w.turn now = some (w', rs)) :
    Fits quantize w (.turn now) w' := by
  obtain ⟨client, hc⟩ := Option.ne_none_iff_exists'.mp hclient
  have hstep : Feed.step quantize w.feed .turn =
      w.feed.upload.turn.map fun (upload, seen) => ({ w.feed with upload }, seen) := rfl
  cases hcall : w.call with
  | idle | ended => simp [turn, hcall] at h
  | loading frame =>
      simp only [turn, hcall] at h
      split at h
      case isTrue hfull =>
          cases h
          refine .one .turn [.rejected frame] hclient ?_ rfl fun _ => rfl
          rw [hstep]
          simp only [feed, hcall, Call.send, Upload.turn, if_pos hfull, Option.map_some]
      case isFalse hroom =>
          cases h
          refine .one .turn [] hclient ?_ rfl fun _ => rfl
          rw [hstep]
          simp only [feed, hcall, Call.send, Upload.turn, if_neg hroom, Option.map_some]
  | counting frame =>
      simp only [turn, hcall, Task.sender, Option.map_some, Option.some.injEq, Prod.mk.injEq] at h
      obtain ⟨rfl, rfl⟩ := h
      refine .one .turn [] hclient ?_ rfl fun _ => rfl
      rw [hstep]
      simp only [feed, hcall, Call.send, Upload.turn, Task.sender, Option.map_some]
  | sending frame =>
      simp only [turn, hcall] at h
      cases hsent : w.task.sender (.enqueue (.audio frame)) with
      | some task =>
          rw [hsent] at h
          cases h
          refine .one .turn [.accepted frame] hclient ?_ rfl fun _ => rfl
          rw [hstep]
          simp only [feed, hcall, Call.send, Upload.turn, hsent, Option.map_some]
      | none =>
          rw [hsent] at h
          cases h
          refine .one .turn [] hclient ?_ rfl fun _ => rfl
          rw [hstep]
          simp only [feed, hcall, Call.send, Upload.turn, hsent, Option.map_some]
  | undoing frame =>
      simp only [turn, hcall, Task.sender, Option.map_some, Option.some.injEq, Prod.mk.injEq] at h
      obtain ⟨rfl, rfl⟩ := h
      refine .one .turn [.rejected frame] hclient ?_ rfl fun _ => rfl
      rw [hstep]
      simp only [feed, hcall, Call.send, Upload.turn, Task.sender, Option.map_some]
  | draining sendError =>
      simp only [turn, hcall, hc, Option.some.injEq, Prod.mk.injEq] at h
      obtain ⟨rfl, rfl⟩ := h
      exact .still hclient (by simp only [feed, hcall, Call.send]) rfl rfl
  | folding rest updates sendError =>
      cases rest with
      | nil =>
          simp only [turn, hcall, Option.some.injEq] at h
          obtain ⟨hfeed, hcl⟩ := w.finishCall_feed updates sendError (by rw [hcall]; rfl)
          rw [h] at hfeed hcl
          exact .still (by rw [hcl]; exact hclient) hfeed rfl rfl
      | cons m rest =>
          simp only [turn, hcall, Option.map_eq_some_iff, Prod.mk.injEq] at h
          obtain ⟨⟨⟨b, ids⟩, us⟩, hfold, rfl, -⟩ := h
          obtain ⟨hstaged, hsamples, hcl⟩ := foldMessage_staged hfold
          dsimp only at hstaged hsamples hcl
          refine .still (by rw [← hcl] at hclient; exact hclient) ?_ rfl rfl
          simp only [feed, hstaged, hsamples, hcall, Call.send]

/-- **Every step of the world is a run of the feed.** -/
theorem step_fits {m : Move Sample} (hclient : w.backend.client ≠ none)
    (h : step quantize w m = some (w', rs)) : Fits quantize w m w' := by
  cases m with
  | task e =>
      simp only [step, Option.map_eq_some_iff, Prod.mk.injEq] at h
      obtain ⟨⟨task, acts⟩, hown, rfl, -⟩ := h
      obtain ⟨fs, hcut, hrun⟩ := Feed.run_task quantize w.feed rfl hown
      refine ⟨hclient, fs, acts.map .act, hrun, ?_, hcut⟩
      simp only [taskActs_map, World.acts, hown, Option.map_some, Option.getD_some]
  | push samples =>
      cases hcall : w.call with
      | idle =>
          simp only [step, hcall, Option.some.injEq, Prod.mk.injEq] at h
          obtain ⟨rfl, -⟩ := h
          have hguard : w.feed.stage = .live ∧ w.feed.upload.Callable :=
            ⟨rfl, by rw [feed, hcall]; rfl, rfl⟩
          refine .one (.push samples) [] hclient ?_ rfl fun _ => rfl
          rw [Feed.step, if_pos hguard]
          simp only [Feed.pushAudio, SonioxBackend.pushAudio, feed, hcall]
      | _ => simp [step, hcall] at h
  | process =>
      cases hcall : w.call with
      | idle =>
          simp only [step, hcall, Option.some.injEq] at h
          exact beginProcess_fits hclient hcall h
      | _ => simp [step, hcall] at h
  | poll =>
      cases hcall : w.call with
      | idle =>
          simp only [step, hcall, Option.some.injEq, Prod.mk.injEq] at h
          obtain ⟨rfl, -⟩ := h
          exact .still hclient (by simp only [feed, hcall, Call.send]) rfl rfl
      | _ => simp [step, hcall] at h
  | turn now => exact turn_fits hclient h

end World

/-! ## Runs -/

/-- **A run of the world is a run of the feed.**  From the beginning of a session on, whatever is
pushed, called, received and done by the task: some moves of the feed lead from where it starts to where
the world stands, make the same chunks of the same samples, and have the task do the same. -/
theorem world_feeds {b : SonioxBackend} {ids : SegmentIds} {ms : List (Move Sample)} {w : World}
    {acts : List Act} {rs : List (Except AsrError (List TranscriptUpdate))}
    (h : Mealy.run (World.watched quantize) (World.new b ids, []) ms = some ((w, acts), rs)) :
    ∃ fs os, Mealy.run (Feed.step quantize) {} fs = some (w.feed, os) ∧ taskActs os = acts ∧
      chunks fs = Move.chunks ms := by
  have hinv : w.backend.client ≠ none ∧ ∃ fs os, Mealy.run (Feed.step quantize) {} fs =
      some (w.feed, os) ∧ taskActs os = acts ∧ chunks fs = Move.chunks ms := by
    refine Mealy.run_sound (P := fun ms (s : World × List Act) _ => s.1.backend.client ≠ none ∧
      ∃ fs os, Mealy.run (Feed.step quantize) {} fs = some (s.1.feed, os) ∧ taskActs os = s.2 ∧
        chunks fs = Move.chunks ms) ?_ ⟨by simp [World.new, SonioxBackend.beginSession], [], [], rfl, rfl,
          rfl⟩ h
    rintro ms ⟨w, acts⟩ rs m ⟨w', acts'⟩ new ⟨hclient, fs, os, hr, hacts, hchunks⟩ hs
    obtain ⟨hstep, rfl⟩ := Mealy.track_step hs
    obtain ⟨hclient', fs', os', hr', hacts', hcut⟩ := World.step_fits hclient hstep
    refine ⟨hclient', fs ++ fs', os ++ os', Mealy.run_append hr hr', ?_, ?_⟩
    · rw [taskActs_append, hacts, hacts']
    · rw [Move.chunks, List.filterMap_append, chunks, List.foldl_append, chunks, List.foldl_append]
      show fs'.foldl FeedMove.cut (chunks fs) = _
      rw [hchunks, hcut]
      cases m <;> rfl
  exact hinv.2

/-- **What the processing thread sends beside the socket task.**  Whatever is pushed, called, received
and done by the task, each message folded and each call returned on the way: on each connection goes
what its protocol allows; the counter is the samples in the queues and of the send in progress, below
its ceiling.  All that was pushed is the chunks made by `process` and what is staged; the channel took
the frames of some of the chunks, one each; the writes the task has begun are of the first of these, one
each and in order; and the others are in its queues. -/
theorem world_sends {b : SonioxBackend} {ids : SegmentIds} {ms : List (Move Sample)} {w : World}
    {acts : List Act} {rs : List (Except AsrError (List TranscriptUpdate))}
    (h : Mealy.run (World.watched quantize) (World.new b ids, []) ms = some ((w, acts), rs)) :
    (∀ k, WireForm (dataFrames (onConnection k acts))) ∧
    (w.task.phase ≠ .gone →
      w.task.queues.queued = w.task.queues.held + w.call.send.counted) ∧
    w.task.queues.queued ≤ MAX_QUEUED_SAMPLES ∧
    Move.pushed ms = (Move.chunks ms).1.flatten ++ (Move.chunks ms).2 ∧
    w.backend.staged = f32ToPcmS16le quantize (Move.chunks ms).2 ∧
    w.backend.stagedSamples = (Move.chunks ms).2.length ∧
    ∃ taken heard : List (List Sample), taken.Sublist (Move.chunks ms).1 ∧ heard <+: taken ∧
      taken.map (Feed.frameOf quantize) = heard.map (Feed.frameOf quantize) ++ w.task.queues.line ∧
      handed acts = heard.map (f32ToPcmS16le quantize) ∧
      pcm.read (handed acts).flatten = heard.flatten.map quantize := by
  obtain ⟨fs, os, hr, rfl, hchunks⟩ := world_feeds h
  obtain ⟨us, hup⟩ := Feed.run_upload hr
  have hw := Wired.run hup
  obtain ⟨-, hstaged, -, -, taken, gone, heard, hhears⟩ := server_hears hr
  -- `finish` is not called here, so the task lets nothing go
  obtain rfl : heard = gone := hhears.hears.2 (.inl rfl)
  have htakes := hhears.takes.1
  rw [hchunks] at hstaged htakes
  refine ⟨?_, hw.balanced.ledger, hw.balanced.ceiling, (Move.flatten_chunks ms).symm, ?_, ?_, taken,
    heard, htakes, hhears.goes.1, ?_, hhears.reads.1, hhears.reads.2⟩
  · intro k
    rcases eq_or_ne k (opened (taskActs os)) with rfl | hk
    · exact hw.now.form
    · exact hw.past k hk
  · exact congrArg AudioFrame.pcm hstaged
  · exact congrArg AudioFrame.samples hstaged
  · rw [← hhears.takes.2.1]
    exact hhears.goes.2

/-- A sample is sent by `process`, which then drains and returns. -/
theorem World.run_process (quantize : Sample → Int16) (x : Sample) :
    ∃ (w : World) (acts : List Act) (rs : List (Except AsrError (List TranscriptUpdate))),
      Mealy.run (World.watched quantize) (World.new .new 0, [])
        [.task (.runtime (.ok ())), .push [x], .process, .turn 0, .turn 0, .turn 0, .turn 1, .turn 2,
          .task (.opened (.ok ())), .task (.written (.ok ())), .task .turn, .task .recv] =
        some ((w, acts), rs) :=
  ⟨_, _, _, rfl⟩

theorem world_sends_process :
    ∃ (w : World) (acts : List Act) (rs : List (Except AsrError (List TranscriptUpdate))),
      Mealy.run (World.watched id) (World.new .new 0, [])
        [.task (.runtime (.ok ())), .push [7], .process, .turn 0, .turn 0, .turn 0, .turn 1, .turn 2,
          .task (.opened (.ok ())), .task (.written (.ok ())), .task .turn, .task .recv] =
        some ((w, acts), rs) ∧
      w.backend.staged = [] ∧
      ∃ heard : List (List Int16), heard.Sublist [[7]] ∧
        handed acts = heard.map (f32ToPcmS16le id) := by
  obtain ⟨w, acts, rs, hrun⟩ := World.run_process (id : Int16 → Int16) 7
  obtain ⟨-, -, -, -, hstaged, -, taken, heard, htaken, hheard, -, hhanded, -⟩ := world_sends hrun
  exact ⟨w, acts, rs, hrun, hstaged, heard, hheard.sublist.trans htaken, hhanded⟩

end Larmindon.Soniox
