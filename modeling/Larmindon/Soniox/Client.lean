/-
# `Soniox.Client` — the socket task as a machine over its awaits

`session` and everything it calls run on one thread and stop only at an await,
so the task is a machine whose states are its awaits and whose inputs are what
an await can resolve with: the outcome of a connect or a write, a frame from the
server, a message taken from the outbound channel, a timer.  `Point` is where
`connect_and_run` stands, `Phase` where `session` does.  `turn` is the task's
own next move in the two loops that pop a queue without awaiting.

The sender works on the same queues from another thread.  Its moves, a message
put in the channel, a count added to or taken from `queued`, the channel closed,
are inputs too and may come at any point.

Timers, wire encoding and the contents of the start request are left out; a
timer is an input that may come whenever it is armed, and a parse an input that
may fail.
-/
import Larmindon.Lib.Mealy
import Larmindon.Soniox.Protocol
import Mathlib.Algebra.GroupWithZero.Nat

namespace Larmindon.Soniox

/-- Consecutive failed attempts tolerated before the session is declared dead. -/
def MAX_RECONNECT_ATTEMPTS : ℕ := 5

/-- Milliseconds. -/
def BACKOFF_START : ℕ := 500

/-- Milliseconds. -/
def BACKOFF_CAP : ℕ := 15000

/-- Upload backlog ceiling, in samples. -/
def MAX_QUEUED_SAMPLES : ℕ := 30 * 16000

/-- `0.5 → 1 → 2 → 4 → 8 s`, capped. -/
def backoff (attempt : ℕ) : ℕ := min (BACKOFF_START * 2 ^ min (attempt - 1) 16) BACKOFF_CAP

/-! ## Messages -/

/-- A PCM frame and the samples it counts for. -/
structure AudioFrame where
  pcm : List UInt8
  samples : ℕ
  deriving DecidableEq, Repr

/-- Processing thread to socket thread. -/
inductive Outbound where
  | audio (frame : AudioFrame)
  | finish
  | shutdown
  deriving DecidableEq, Repr

/-- Socket thread to processing thread. -/
inductive Inbound where
  | response (response : SonioxResponse)
  | reconnecting (reason : String)
  | finished
  | fatal (message : String)
  deriving DecidableEq, Repr

/-- A frame written to the socket. -/
inductive Frame where
  | start
  | binary (pcm : List UInt8)
  | ping
  deriving DecidableEq, Repr

/-- What `ws.next()` resolves with.  The text of a frame is the result of parsing it. -/
inductive Incoming where
  /-- The stream has ended: `None`. -/
  | ended
  | error (e : String)
  | text (parsed : Except String SonioxResponse)
  | binary
  | close
  | other

/-- Why one connection ended. -/
inductive Outcome where
  | finished
  | shutdown
  | fatal (message : String)
  | retry (reason : String) (progressed : Bool)
  deriving DecidableEq, Repr

inductive BackoffOutcome where
  | continue
  | shutdown
  | finish
  deriving DecidableEq, Repr

/-! ## States -/

/-- Where `connect_and_run` stands. -/
inductive Point where
  | connecting
  /-- The start request is being written. -/
  | starting
  /-- About to pop the next frame buffered across the outage. -/
  | flushing
  /-- Such a frame is being written. -/
  | flushWriting
  | selecting
  /-- A frame taken by the select loop is being written. -/
  | uploading
  /-- A `Finish` was taken; about to take what else is queued. -/
  | draining
  /-- A frame taken after `Finish` is being written. -/
  | drainWriting
  /-- The end-of-stream frame is being written. -/
  | endingStream
  | pinging
  /-- The socket is being closed; this will be the outcome. -/
  | closing (outcome : Outcome)
  deriving DecidableEq, Repr

structure Conn where
  point : Point := .connecting
  progressed : Bool := false
  finishing : Bool := false
  watchdogArmed : Bool := false
  deriving DecidableEq, Repr

/-- Where `session` stands. -/
inductive Phase where
  /-- The thread is building its runtime. -/
  | spawned
  | connected (c : Conn)
  /-- In `wait_backoff`, for so many milliseconds. -/
  | waiting (delay : ℕ)
  /-- `session` has returned and its ends of the channels are not dropped yet. -/
  | returned
  | gone
  deriving DecidableEq, Repr

/-- The queues the task works on: `pending` is its own, the rest is shared with the sender. -/
structure Queues where
  out : List Outbound := []
  senderGone : Bool := false
  queued : ℕ := 0
  pending : List AudioFrame := []
  deriving DecidableEq, Repr

structure Task where
  phase : Phase
  queues : Queues
  attempt : ℕ
  deriving DecidableEq, Repr

def Task.new : Task := { phase := .spawned, queues := {}, attempt := 0 }

/-- What may happen next. -/
inductive Event where
  | runtime (built : Except String Unit)
  | connectTimedOut
  | connectFailed (e : String)
  | opened (startJson : Except String Unit)
  | turn
  | written (result : Except String Unit)
  | closed
  | recv
  | incoming (m : Incoming)
  | pingTick
  | watchdogFired
  | slept
  | dropped
  /-- The sender counts samples before it sends them. -/
  | count (samples : ℕ)
  /-- The sender takes a count back. -/
  | uncount (samples : ℕ)
  | enqueue (m : Outbound)
  | hangUp

/-- What the task is seen to do. -/
inductive Act where
  /-- A connection is opened. -/
  | connect
  | took (m : Outbound)
  | received (r : SonioxResponse)
  | write (f : Frame)
  /-- Whether the write begun last succeeded. -/
  | wrote (ok : Bool)
  | message (m : Inbound)
  | outcome (o : Outcome)
  deriving DecidableEq, Repr

/-! ## The counter -/

/-- `AtomicUsize::fetch_add`, which wraps. -/
def fetchAdd (queued samples : ℕ) : ℕ := (queued + samples) % 2 ^ 64

/-- `AtomicUsize::fetch_sub`, which wraps. -/
def fetchSub (queued samples : ℕ) : ℕ := (queued + (2 ^ 64 - samples % 2 ^ 64)) % 2 ^ 64

/-- `fetch_sub(samples.min(load()))`.  Only the sender's `fetch_add` can come between the two. -/
def Queues.release (q : Queues) (samples : ℕ) : Queues :=
  { q with queued := fetchSub q.queued (min samples q.queued) }

/-! ## One connection -/

/-- Either the connection goes on or `connect_and_run` returns. -/
inductive Verdict where
  | stay (c : Conn)
  | ended (o : Outcome)
  deriving DecidableEq, Repr

/-- `send_frame`: releases the frame's share of the backlog and begins the write. -/
def sendFrame (c : Conn) (q : Queues) (frame : AudioFrame) (point : Point) :
    Verdict × Queues × List Act :=
  (.stay { c with point }, q.release frame.samples, [.write (.binary frame.pcm)])

/-- The socket is gone: fine when finishing, a reason to reconnect otherwise. -/
def Conn.lost (c : Conn) (reason : String) : Outcome :=
  if c.finishing then .finished else .retry reason c.progressed

/-- The client forwards a response unless its token list is empty. -/
def forward (r : SonioxResponse) : List SonioxResponse := if r.tokens.isEmpty then [] else [r]

/-- The `incoming` branch of the select loop. -/
def Conn.onIncoming (c : Conn) : Incoming → Verdict × List Act
  | .ended => (.ended (c.lost "Soniox closed the connection"), [])
  | .error e => (.ended (c.lost ("the Soniox connection dropped: " ++ e)), [])
  | .text (.error _) => (.stay c, [])
  | .text (.ok r) =>
      let c := { c with progressed := true }
      match r.error with
      | some error =>
          let reason := error.message ++ " (" ++ error.errorType ++ ")"
          if error.retryable then (.ended (.retry reason c.progressed), [.received r])
          else (.ended (.fatal ("Soniox rejected the session: " ++ reason)), [.received r])
      | none =>
          let acts := .received r :: (forward r).map fun r => .message (.response r)
          if r.finished then (.stay { c with point := .closing .finished }, acts)
          else (.stay c, acts)
  | .binary => (.ended (.fatal "Soniox sent a binary frame, which its protocol never uses"), [])
  | .close => (.ended (c.lost "Soniox closed the connection"), [])
  | .other => (.stay c, [])

/-- The `outgoing` branch of the select loop, given the message taken. -/
def Conn.onOutgoing (c : Conn) (q : Queues) : Outbound → Verdict × Queues × List Act
  | .shutdown => (.stay { c with point := .closing .shutdown }, q, [])
  | .finish => if c.finishing then (.stay c, q, []) else (.stay { c with point := .draining }, q, [])
  | .audio frame =>
      -- anything after end-of-stream is not part of this stream
      if c.finishing then (.stay c, q.release frame.samples, [])
      else sendFrame c q frame .uploading

/-- One turn of the loop that empties the channel before end-of-stream. -/
def Conn.onDrained (c : Conn) (q : Queues) : Outbound → Verdict × Queues × List Act
  | .audio frame => sendFrame c q frame .drainWriting
  | .finish => (.stay c, q, [])
  | .shutdown => (.stay { c with point := .closing .shutdown }, q, [])

/-- A write has ended; `ok` is where the connection goes on, `failed` what it ends with. -/
def Conn.onWritten (c : Conn) (ok : Point) (failed : String → Outcome) :
    Except String Unit → Verdict × List Act
  | .ok _ => (.stay { c with point := ok }, [.wrote true])
  | .error e => (.ended (failed e), [.wrote false])

/-- The select loop and the code before it, one await at a time. -/
def Conn.step (c : Conn) (q : Queues) : Event → Option (Verdict × Queues × List Act)
  | .connectTimedOut =>
      if c.point = .connecting then
        some (.ended (.retry "the connection to Soniox timed out" false), q, [])
      else none
  | .connectFailed e =>
      if c.point = .connecting then
        some (.ended (.retry ("could not reach Soniox: " ++ e) false), q, [])
      else none
  | .opened startJson =>
      if c.point = .connecting then
        match startJson with
        | .error e => some (.ended (.fatal ("Could not build the Soniox start request: " ++ e)), q, [])
        | .ok _ => some (.stay { c with point := .starting }, q, [.write .start])
      else none
  | .turn =>
      match c.point with
      | .flushing =>
          match q.pending with
          | [] => some (.stay { c with point := .selecting }, q, [])
          | frame :: pending => some (sendFrame c { q with pending } frame .flushWriting)
      | .draining =>
          match q.out with
          | [] => some (.stay { c with point := .endingStream }, q, [.write (.binary [])])
          | m :: out =>
              let (v, q, acts) := c.onDrained { q with out } m
              some (v, q, .took m :: acts)
      | _ => none
  | .written result =>
      let write ok failed :=
        let (v, acts) := c.onWritten ok failed result
        some (v, q, acts)
      match c.point with
      | .starting =>
          write .flushing fun e => .retry ("could not start a Soniox session: " ++ e) false
      | .flushWriting =>
          write .flushing fun e => .retry ("Soniox audio upload failed: " ++ e) false
      | .uploading =>
          write .selecting fun e => .retry ("Soniox audio upload failed: " ++ e) c.progressed
      | .drainWriting =>
          write .draining fun e => .retry ("Soniox audio upload failed: " ++ e) c.progressed
      | .endingStream =>
          match result with
          | .ok _ =>
              some (.stay { c with point := .selecting, finishing := true, watchdogArmed := true }, q,
                [.wrote true])
          | .error _ => some (.ended .finished, q, [.wrote false])
      | .pinging =>
          write .selecting fun e => .retry ("the Soniox keepalive failed: " ++ e) c.progressed
      | _ => none
  | .closed =>
      match c.point with
      | .closing outcome => some (.ended outcome, q, [])
      | _ => none
  | .recv =>
      if c.point = .selecting then
        match q.out with
        | [] => if q.senderGone then some (.ended .shutdown, q, []) else none
        | m :: out =>
            let (v, q, acts) := c.onOutgoing { q with out } m
            some (v, q, .took m :: acts)
      else none
  | .incoming m =>
      if c.point = .selecting then
        let (v, acts) := c.onIncoming m
        some (v, q, acts)
      else none
  | .pingTick =>
      if c.point = .selecting then some (.stay { c with point := .pinging }, q, [.write .ping])
      else none
  | .watchdogFired =>
      if c.point = .selecting ∧ c.watchdogArmed = true then
        some (.stay { c with point := .closing .finished }, q, [])
      else none
  | _ => none

/-! ## The session -/

/-- `wait_backoff`, given the message taken. -/
def Queues.onBackoff (q : Queues) : Outbound → Option BackoffOutcome × Queues
  | .shutdown => (some .shutdown, q)
  | .finish => (some .finish, q)
  | .audio frame =>
      if q.queued > MAX_QUEUED_SAMPLES then
        (none, { q with queued := fetchSub q.queued frame.samples })
      else (none, { q with pending := q.pending ++ [frame] })

/-- `wait_backoff`, one await at a time; `none` inside is a wait that goes on. -/
def Queues.waitStep (q : Queues) : Event → Option (Option BackoffOutcome × Queues × List Act)
  | .slept => some (some .continue, q, [])
  | .recv =>
      match q.out with
      | [] => if q.senderGone then some (some .shutdown, q, []) else none
      | m :: out =>
          let (v, q) := { q with out }.onBackoff m
          some (v, q, [.took m])
  | _ => none

namespace Task

/-- The attempt counter after a connection that is to be retried. -/
def nextAttempt (attempt : ℕ) (progressed : Bool) : ℕ := (if progressed then 0 else attempt) + 1

/-- `session` has returned. -/
def ended (t : Task) : Bool := t.phase = .returned ∨ t.phase = .gone

/-- The match of `session` on the outcome of a connection. -/
def onOutcome (t : Task) (q : Queues) : Outcome → Task × List Act
  | .finished => ({ t with phase := .returned, queues := q }, [.message .finished])
  | .shutdown => ({ t with phase := .returned, queues := q }, [])
  | .fatal message => ({ t with phase := .returned, queues := q }, [.message (.fatal message)])
  | .retry reason progressed =>
      let attempt := nextAttempt t.attempt progressed
      if attempt > MAX_RECONNECT_ATTEMPTS then
        ({ phase := .returned, queues := q, attempt },
          [.message (.fatal ("Lost the Soniox connection and could not re-establish it after " ++
            toString MAX_RECONNECT_ATTEMPTS ++ " attempts: " ++ reason))])
      else
        ({ phase := .waiting (backoff attempt), queues := q, attempt },
          [.message (.reconnecting reason)])

/-- The match of `session` on the outcome of `wait_backoff`. -/
def onBackoff (t : Task) (q : Queues) : Option BackoffOutcome → Task × List Act
  | none => ({ t with queues := q }, [])
  | some .continue => ({ t with phase := .connected {}, queues := q }, [.connect])
  | some .shutdown => ({ t with phase := .returned, queues := q }, [])
  | some .finish => ({ t with phase := .returned, queues := q }, [.message .finished])

/-- The moves of the sender. -/
def sender (t : Task) : Event → Option Task
  | .count samples => some { t with queues.queued := fetchAdd t.queues.queued samples }
  | .uncount samples => some { t with queues.queued := fetchSub t.queues.queued samples }
  | .enqueue m =>
      if t.phase = .gone ∨ t.queues.senderGone = true then none
      else some { t with queues.out := t.queues.out ++ [m] }
  | .hangUp => some { t with queues.senderGone := true }
  | _ => none

/-- The moves of the task itself. -/
def own (t : Task) (e : Event) : Option (Task × List Act) :=
  match t.phase with
  | .spawned =>
      match e with
      | .runtime (.ok _) => some ({ t with phase := .connected {} }, [.connect])
      | .runtime (.error e) =>
          some ({ t with phase := .returned },
            [.message (.fatal ("Could not start the Soniox runtime: " ++ e))])
      | _ => none
  | .connected c =>
      match c.step t.queues e with
      | none => none
      | some (.stay c, q, acts) => some ({ t with phase := .connected c, queues := q }, acts)
      | some (.ended o, q, acts) =>
          let (t, after) := t.onOutcome q o
          some (t, acts ++ .outcome o :: after)
  | .waiting _ =>
      match t.queues.waitStep e with
      | none => none
      | some (v, q, acts) =>
          let (t, after) := t.onBackoff q v
          some (t, acts ++ after)
  | .returned =>
      match e with
      | .dropped => some ({ t with phase := .gone }, [])
      | _ => none
  | .gone => none

/-- One event. -/
def step : Mealy.Step Task Event Act := fun t e =>
  match t.sender e with
  | some t => some (t, [])
  | none => t.own e

end Task

/-- The messages among what the task is seen to do. -/
def messages (acts : List Act) : List Inbound :=
  acts.filterMap fun a => match a with
    | .message m => some m
    | _ => none

end Larmindon.Soniox
