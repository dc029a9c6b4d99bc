/-
# `Soniox.World` — the processing thread beside the socket task

The two threads share the queues of `Client` and one queue of inbound messages.
`World.step` interleaves them: the socket task moves on its own, and the
processing thread moves through a call of `process` or `poll` one shared access
at a time (`Call`): read the backlog, count, send, take the count back, drain the
inbound queue, then fold what was drained message by message and return.  A call
that returns `Fatal` is the last one, as the engine leaves its loop on it.

`try_recv` until empty is one step: only the processing thread takes from the
inbound queue, so all that matters is what is in it when it is found empty.
-/
import Larmindon.Soniox.Backend

namespace Larmindon.Soniox

/-! ## The two threads -/

/-- Where the processing thread stands in a call. -/
inductive Call where
  | idle
  /-- `send_audio` is about to read the backlog. -/
  | loading (frame : AudioFrame)
  | counting (frame : AudioFrame)
  | sending (frame : AudioFrame)
  /-- The channel is closed; the count is about to be taken back. -/
  | undoing (frame : AudioFrame)
  | draining (sendError : Option AsrError)
  | folding (rest : List Inbound) (updates : List TranscriptUpdate) (sendError : Option AsrError)
  /-- A `Fatal` was returned. -/
  | ended

structure World where
  task : Task
  /-- Sent by the socket task and not drained yet. -/
  inbox : List Inbound
  backend : SonioxBackend
  ids : SegmentIds
  call : Call

inductive Move (Sample : Type) where
  | task (e : Event)
  | push (samples : List Sample)
  | process
  | poll
  /-- The next step of the call in progress, at this reading of the clock. -/
  | turn (now : Instant)

namespace World

/-- After `begin_session`, on any backend. -/
def new (b : SonioxBackend) (ids : SegmentIds) : World where
  task := .new
  inbox := []
  backend := b.beginSession
  ids := ids
  call := .idle

/-- The result of a call, and whether the engine goes on after it. -/
def finishCall (w : World) (res : SonioxBackend × Except AsrError (List TranscriptUpdate)) :
    World × List (Except AsrError (List TranscriptUpdate)) :=
  match res.2 with
  | .error (.fatal _) => ({ w with backend := res.1, call := .ended }, [res.2])
  | _ => ({ w with backend := res.1, call := .idle }, [res.2])

/-- `process` up to its first access to the queues. -/
def beginProcess (w : World) : World × List (Except AsrError (List TranscriptUpdate)) :=
  if w.backend.staged.isEmpty then ({ w with call := .draining none }, [])
  else
    let frame : AudioFrame := ⟨w.backend.staged, w.backend.stagedSamples⟩
    let b := { w.backend with staged := [], stagedSamples := 0 }
    match b.client with
    | none => w.finishCall (b, .error (.fatal "The Soniox session is not open"))
    | some _ =>
        if frame.pcm.isEmpty || frame.samples == 0 then
          ({ w with backend := b, call := .draining (some (.transient
            "Refusing to send an empty Soniox audio frame; that is the end-of-stream signal")) }, [])
        else ({ w with backend := b, call := .loading frame }, [])

/-- One step of a call. -/
def turn (w : World) (now : Instant) :
    Option (World × List (Except AsrError (List TranscriptUpdate))) :=
  match w.call with
  | .idle | .ended => none
  | .loading frame =>
      -- `saturating_add`
      if min (w.task.queues.queued + frame.samples) (2 ^ 64 - 1) > MAX_QUEUED_SAMPLES then
        some ({ w with call := .draining (some (.transient ("Soniox upload is backed up past " ++
          toString (MAX_QUEUED_SAMPLES / 16000) ++ "s of audio; dropping captured audio"))) }, [])
      else some ({ w with call := .counting frame }, [])
  | .counting frame =>
      (w.task.sender (.count frame.samples)).map fun task =>
        ({ w with task, call := .sending frame }, [])
  | .sending frame =>
      match w.task.sender (.enqueue (.audio frame)) with
      | some task =>
          some ({ w with
            task, backend.framesSent := w.backend.framesSent + 1, call := .draining none }, [])
      | none => some ({ w with call := .undoing frame }, [])
  | .undoing frame =>
      (w.task.sender (.uncount frame.samples)).map fun task =>
        ({ w with
          task, call := .draining (some (.fatal "The Soniox connection has ended")) }, [])
  | .draining sendError =>
      match w.backend.client with
      | none => some ({ w with call := .folding [] [] sendError }, [])
      | some _ => some ({ w with inbox := [], call := .folding w.inbox [] sendError }, [])
  | .folding [] updates sendError => some (w.finishCall (w.backend.deliver updates sendError))
  | .folding (m :: rest) updates sendError =>
      (SonioxBackend.foldMessage (w.backend, w.ids) (now, m)).map fun ((backend, ids), us) =>
        ({ w with backend, ids, call := .folding rest (updates ++ us) sendError }, [])

/-- One step of either thread. -/
def step {Sample : Type} (quantize : Sample → Int16) :
    Mealy.Step World (Move Sample) (Except AsrError (List TranscriptUpdate)) :=
  fun w m =>
    match m with
    | .task e =>
        (w.task.own e).map fun (task, acts) => ({ w with task, inbox := w.inbox ++ messages acts }, [])
    | .push samples =>
        match w.call with
        | .idle => some ({ w with backend := w.backend.pushAudio quantize samples }, [])
        | _ => none
    | .process =>
        match w.call with
        | .idle => some w.beginProcess
        | _ => none
    | .poll =>
        match w.call with
        | .idle => some ({ w with call := .draining none }, [])
        | _ => none
    | .turn now => w.turn now

end World

/-- Everything the calls have returned as text. -/
def delivered (results : List (Except AsrError (List TranscriptUpdate))) : List TranscriptUpdate :=
  results.flatMap fun r => match r with
    | .ok us => us
    | .error _ => []

@[simp] theorem delivered_append (rs rs' : List (Except AsrError (List TranscriptUpdate))) :
    delivered (rs ++ rs') = delivered rs ++ delivered rs' := by
  simp [delivered]

end Larmindon.Soniox
