/-
# `Soniox.Upload` — one client's calls beside its socket task

`World` has the calls the backend makes; here the client is called by anyone, as
its interface allows: `send_audio` with any frame, `finish`, and at last `drop`,
one call at a time.  The backlog counter is shared by the two threads and every
access to it is a step of its own.  On the sender's side `SendCall` says which
access of `send_audio` is next.  On the task's side a move that releases a frame
reads the counter, and the `fetch_sub` comes later, in `subtract`; until then the
task is inside that move and makes no other.

    access                 source                    step here
    load, compare          send_audio                turn in `loading`
    fetch_add              send_audio                turn in `counting`
    channel send           send_audio                turn in `sending`
    fetch_sub (undo)       send_audio                turn in `undoing`
    pop, load              send_frame, wait_backoff  task
    fetch_sub              send_frame, wait_backoff  subtract

`drop` joins the thread before the channel is closed, so the task never sees the
channel closed and `hangUp` has no move here.

`Upload.Moves` lists the steps of both threads with their guards and their effect,
and the invariants go by cases on it (`Upload.moves_of_step`).
-/
import Larmindon.Soniox.Moves

namespace Larmindon.Soniox

/-! ## What a move of the task takes off the counter -/

/-- The frame at the head of the channel. -/
def Queues.headAudio (q : Queues) : Option AudioFrame :=
  match q.out with
  | .audio frame :: _ => some frame
  | _ => none

/-- The frame whose share of the backlog a move of the task gives back. -/
def Task.frees (t : Task) (e : Event) : Option AudioFrame :=
  match t.phase, e with
  | .connected c, .turn =>
      match c.point with
      | .flushing => t.queues.pending.head?
      | .draining => t.queues.headAudio
      | _ => none
  | .connected c, .recv => if c.point = .selecting then t.queues.headAudio else none
  | .waiting _, .recv => if t.queues.queued > MAX_QUEUED_SAMPLES then t.queues.headAudio else none
  | _, _ => none

/-- The operand of the `fetch_sub` such a move leads to: `send_frame` takes the minimum with what it
reads off the counter, `wait_backoff` does not. -/
def Task.operand (t : Task) (e : Event) : Option ℕ :=
  (t.frees e).map fun frame =>
    match t.phase with
    | .waiting _ => frame.samples
    | _ => min frame.samples t.queues.queued

/-! ## The machine -/

/-- Where `send_audio` stands. -/
inductive SendCall where
  | idle
  /-- About to read the backlog. -/
  | loading (frame : AudioFrame)
  | counting (frame : AudioFrame)
  | sending (frame : AudioFrame)
  /-- The channel is closed; the count is about to be taken back. -/
  | undoing (frame : AudioFrame)
  deriving DecidableEq, Repr

structure Upload where
  task : Task := .new
  /-- What the task is about to take off the counter. -/
  subtracting : Option ℕ := none
  call : SendCall := .idle
  finishSent : Bool := false
  dropped : Bool := false
  deriving DecidableEq, Repr

inductive UploadMove where
  /-- The task moves; the rest is the sender's, but for `subtract`. -/
  | task (e : Event)
  | subtract
  | sendAudio (frame : AudioFrame)
  /-- The next step of the call in progress. -/
  | turn
  | finish
  | drop

/-- What is seen of a client. -/
inductive Seen where
  | act (a : Act)
  /-- `send_audio` returned `Ok`. -/
  | accepted (frame : AudioFrame)
  /-- `send_audio` returned an error. -/
  | rejected (frame : AudioFrame)
  /-- `finish` was called. -/
  | finish
  deriving DecidableEq, Repr

namespace Upload

/-- A send whose failure is ignored. -/
def post (u : Upload) (m : Outbound) : Upload := { u with task := (u.task.sender (.enqueue m)).getD u.task }

/-- The next access of `send_audio`. -/
def turn (u : Upload) : Option (Upload × List Seen) :=
  match u.call with
  | .idle => none
  | .loading frame =>
      -- `saturating_add`
      if min (u.task.queues.queued + frame.samples) (2 ^ 64 - 1) > MAX_QUEUED_SAMPLES then
        some ({ u with call := .idle }, [.rejected frame])
      else some ({ u with call := .counting frame }, [])
  | .counting frame =>
      (u.task.sender (.count frame.samples)).map fun task =>
        ({ u with task, call := .sending frame }, [])
  | .sending frame =>
      match u.task.sender (.enqueue (.audio frame)) with
      | some task => some ({ u with task, call := .idle }, [.accepted frame])
      | none => some ({ u with call := .undoing frame }, [])
  | .undoing frame =>
      (u.task.sender (.uncount frame.samples)).map fun task =>
        ({ u with task, call := .idle }, [.rejected frame])

/-- The client can be called: no call is in progress and it has not been dropped. -/
def Callable (u : Upload) : Prop := u.call = .idle ∧ u.dropped = false

instance (u : Upload) : Decidable u.Callable := inferInstanceAs (Decidable (_ ∧ _))

/-- One step of either thread. -/
def step : Mealy.Step Upload UploadMove Seen
  | u, .task e =>
      match u.subtracting with
      | some _ => none
      | none => (u.task.own e).map fun (task, acts) =>
          ({ u with
             task := { task with queues.queued := u.task.queues.queued }
             subtracting := u.task.operand e }, acts.map .act)
  | u, .subtract =>
      u.subtracting.map fun n =>
        ({ u with
           task.queues.queued := fetchSub u.task.queues.queued n
           subtracting := none }, [])
  | u, .sendAudio frame =>
      if u.Callable then
        if frame.pcm.isEmpty || frame.samples == 0 then some (u, [.rejected frame])
        else some ({ u with call := .loading frame }, [])
      else none
  | u, .turn => u.turn
  | u, .finish =>
      if u.Callable then
        if u.finishSent then some (u, [.finish])
        else some ({ u with finishSent := true }.post .finish, [.finish])
      else none
  | u, .drop => if u.Callable then some ({ u with dropped := true }.post .shutdown, []) else none

/-! ## What a step can be, said once -/

/-- The steps of both threads, with their guards and their effect. -/
inductive Moves (u : Upload) : UploadMove → Upload → List Seen → Prop
  | task {e : Event} {task : Task} {acts : List Act} : u.subtracting = none →
      u.task.own e = some (task, acts) →
      Moves u (.task e)
        { u with
          task := { task with queues.queued := u.task.queues.queued }
          subtracting := u.task.operand e } (acts.map .act)
  | subtract {n : ℕ} : u.subtracting = some n →
      Moves u .subtract
        { u with task.queues.queued := fetchSub u.task.queues.queued n, subtracting := none } []
  | refused {frame : AudioFrame} : u.Callable → Moves u (.sendAudio frame) u [.rejected frame]
  | called {frame : AudioFrame} : u.Callable → frame.pcm ≠ [] →
      Moves u (.sendAudio frame) { u with call := .loading frame } []
  | full {frame : AudioFrame} : u.call = .loading frame →
      Moves u .turn { u with call := .idle } [.rejected frame]
  | fits {frame : AudioFrame} : u.call = .loading frame →
      u.task.queues.queued + frame.samples ≤ MAX_QUEUED_SAMPLES →
      Moves u .turn { u with call := .counting frame } []
  | counted {frame : AudioFrame} : u.call = .counting frame →
      Moves u .turn
        { u with
          task.queues.queued := fetchAdd u.task.queues.queued frame.samples
          call := .sending frame } []
  | sent {frame : AudioFrame} : u.call = .sending frame →
      ¬(u.task.phase = .gone ∨ u.task.queues.senderGone = true) →
      Moves u .turn
        { u with task.queues.out := u.task.queues.out ++ [.audio frame], call := .idle }
        [.accepted frame]
  | closed {frame : AudioFrame} : u.call = .sending frame →
      u.task.phase = .gone ∨ u.task.queues.senderGone = true →
      Moves u .turn { u with call := .undoing frame } []
  | undone {frame : AudioFrame} : u.call = .undoing frame →
      Moves u .turn
        { u with
          task.queues.queued := fetchSub u.task.queues.queued frame.samples
          call := .idle } [.rejected frame]
  | finished : u.Callable → u.finishSent = true → Moves u .finish u [.finish]
  | finish : u.Callable → u.finishSent = false →
      Moves u .finish ({ u with finishSent := true }.post .finish) [.finish]
  | drop : u.Callable → Moves u .drop ({ u with dropped := true }.post .shutdown) []

variable {u u' : Upload} {seen : List Seen}

/-- The message is in the channel, or the other end of it is gone. -/
theorem post_cases (u : Upload) (m : Outbound) :
    u.post m = u ∨ u.post m = { u with task.queues.out := u.task.queues.out ++ [m] } := by
  rw [post, Task.sender]
  split
  · exact .inl rfl
  · exact .inr rfl

theorem moves_of_turn (h : u.turn = some (u', seen)) : Moves u .turn u' seen := by
  cases hc : u.call with
  | idle => simp [turn, hc] at h
  | loading frame =>
      simp only [turn, hc] at h
      split at h
      · cases h
        exact .full hc
      · rename_i hroom
        cases h
        -- the saturated sum is under the ceiling, so it was not saturated
        have hceiling : MAX_QUEUED_SAMPLES < 2 ^ 64 - 1 := by decide
        exact .fits hc (by omega)
  | counting frame =>
      simp only [turn, hc, Task.sender, Option.map_some] at h
      cases h
      exact .counted hc
  | sending frame =>
      rcases Classical.em (u.task.phase = .gone ∨ u.task.queues.senderGone = true) with hgone | hopen
      · simp only [turn, hc, Task.sender, if_pos hgone] at h
        cases h
        exact .closed hc hgone
      · simp only [turn, hc, Task.sender, if_neg hopen] at h
        cases h
        exact .sent hc hopen
  | undoing frame =>
      simp only [turn, hc, Task.sender, Option.map_some] at h
      cases h
      exact .undone hc

/-- **Everything a step of either thread can do.** -/
theorem moves_of_step {m : UploadMove} (h : step u m = some (u', seen)) : Moves u m u' seen := by
  cases m with
  | task e =>
      cases hsub : u.subtracting with
      | some n => simp [step, hsub] at h
      | none =>
          simp only [step, hsub, Option.map_eq_some_iff, Prod.exists] at h
          obtain ⟨task, acts, hown, heq⟩ := h
          cases heq
          exact .task hsub hown
  | subtract =>
      simp only [step, Option.map_eq_some_iff] at h
      obtain ⟨n, hsub, heq⟩ := h
      cases heq
      exact .subtract hsub
  | sendAudio frame =>
      simp only [step, Option.ite_none_right_eq_some] at h
      obtain ⟨hcall, h⟩ := h
      split at h
      · cases h
        exact .refused hcall
      · rename_i hvalid
        cases h
        refine .called hcall ?_
        intro hnil
        simp [hnil] at hvalid
  | turn => exact moves_of_turn h
  | finish =>
      simp only [step, Option.ite_none_right_eq_some] at h
      obtain ⟨hcall, h⟩ := h
      split at h
      · rename_i hsent
        cases h
        exact .finished hcall hsent
      · rename_i hsent
        cases h
        exact .finish hcall (Bool.eq_false_iff.mpr hsent)
  | drop =>
      simp only [step, Option.ite_none_right_eq_some] at h
      obtain ⟨hcall, h⟩ := h
      cases h
      exact .drop hcall

end Upload

/-! ## The queues under a move of the task -/

/-- The samples of some frames. -/
def samplesOf (frames : List AudioFrame) : ℕ := (frames.map AudioFrame.samples).sum

@[simp] theorem samplesOf_nil : samplesOf [] = 0 := rfl

@[simp] theorem samplesOf_cons (frame : AudioFrame) (frames : List AudioFrame) :
    samplesOf (frame :: frames) = frame.samples + samplesOf frames := by
  simp [samplesOf]

@[simp] theorem samplesOf_append (xs ys : List AudioFrame) :
    samplesOf (xs ++ ys) = samplesOf xs + samplesOf ys := by
  simp [samplesOf]

/-- The frame of a message, if it carries one. -/
def Outbound.frame : Outbound → Option AudioFrame
  | .audio frame => some frame
  | .finish | .shutdown => none

/-- The frames in the channel. -/
def Queues.channel (q : Queues) : List AudioFrame := q.out.filterMap Outbound.frame

/-- What the move of the task does to the queues: a frame is at one end of one of them. -/
inductive Task.Flow (t : Task) (e : Event) : Queues → Prop
  | still : t.frees e = none → Flow t e t.queues
  | control {m : Outbound} {out : List Outbound} : t.frees e = none → t.queues.out = m :: out →
      m.frame = none → Flow t e { t.queues with out }
  | flush {c : Conn} {frame : AudioFrame} {pending : List AudioFrame} :
      t.phase = .connected c → c.point = .flushing → t.frees e = some frame →
      t.queues.pending = frame :: pending →
      Flow t e ({ t.queues with pending }.release frame.samples)
  | take {c : Conn} {frame : AudioFrame} {out : List Outbound} :
      t.phase = .connected c → c.point = .selecting ∨ c.point = .draining →
      t.frees e = some frame → t.queues.out = .audio frame :: out →
      Flow t e ({ t.queues with out }.release frame.samples)
  | buffer {delay : ℕ} {frame : AudioFrame} {out : List Outbound} :
      t.phase = .waiting delay → t.frees e = none → t.queues.out = .audio frame :: out →
      t.queues.queued ≤ MAX_QUEUED_SAMPLES →
      Flow t e { t.queues with out, pending := t.queues.pending ++ [frame] }
  | discard {delay : ℕ} {frame : AudioFrame} {out : List Outbound} :
      t.phase = .waiting delay → t.frees e = some frame → t.queues.out = .audio frame :: out →
      t.queues.queued > MAX_QUEUED_SAMPLES →
      Flow t e { t.queues with out, queued := fetchSub t.queues.queued frame.samples }

namespace Task

variable {t t' : Task} {e : Event} {acts : List Act}

theorem conn_flow {c : Conn} {q : Queues} {v : Verdict} (hp : t.phase = .connected c)
    (h : c.Moves t.queues e v q acts) : t.Flow e q := by
  cases h with
  | flush hpt hpend => exact .flush hp hpt (by simp [frees, hp, hpt, hpend]) hpend
  | drainAudio hpt hout =>
      exact .take hp (.inr hpt) (by simp [frees, hp, hpt, Queues.headAudio, hout]) hout
  | upload hpt hout hf =>
      exact .take hp (.inl hpt) (by simp [frees, hp, hpt, Queues.headAudio, hout]) hout
  | tooLate hpt hout hf =>
      exact .take hp (.inl hpt) (by simp [frees, hp, hpt, Queues.headAudio, hout]) hout
  | drainFinish hpt hout | drainShutdown hpt hout =>
      exact .control (by simp [frees, hp, hpt, Queues.headAudio, hout]) hout rfl
  | takeShutdown hpt hout | takeFinish hpt hout hf | finishAgain hpt hout hf =>
      exact .control (by simp [frees, hp, hpt, Queues.headAudio, hout]) hout rfl
  | flushed hpt hpend => exact .still (by simp [frees, hp, hpt, hpend])
  | drained hpt hout => exact .still (by simp [frees, hp, hpt, Queues.headAudio, hout])
  | orphaned hpt hout hg => exact .still (by simp [frees, hp, hpt, Queues.headAudio, hout])
  | _ => exact .still (by simp [frees, hp])

theorem onOutcome_queues (t : Task) (q : Queues) (o : Outcome) : (t.onOutcome q o).1.queues = q := by
  cases o with
  | retry reason p =>
      rcases Nat.lt_or_ge MAX_RECONNECT_ATTEMPTS (nextAttempt t.attempt p) with h | h
      · obtain ⟨message, he⟩ := onOutcome_over t q reason h
        rw [he]
      · rw [onOutcome_again t q reason (Nat.not_lt.mpr h)]
  | _ => rfl

theorem waiting_flow {delay : ℕ} (hp : t.phase = .waiting delay) (h : t.own e = some (t', acts)) :
    t.Flow e t'.queues := by
  simp only [own, hp] at h
  cases e with
  | slept =>
      simp only [Queues.waitStep, onBackoff, Option.some.injEq, Prod.mk.injEq] at h
      obtain ⟨rfl, -⟩ := h
      exact .still (by simp [frees, hp])
  | recv =>
      cases hout : t.queues.out with
      | nil =>
          cases hg : t.queues.senderGone with
          | true =>
              simp only [Queues.waitStep, hout, hg, if_true, onBackoff, Option.some.injEq,
                Prod.mk.injEq] at h
              obtain ⟨rfl, -⟩ := h
              exact .still (by simp [frees, hp, Queues.headAudio, hout])
          | false => simp [Queues.waitStep, hout, hg] at h
      | cons m out =>
          cases m with
          | shutdown | finish =>
              simp only [Queues.waitStep, hout, Queues.onBackoff, onBackoff, Option.some.injEq,
                Prod.mk.injEq] at h
              obtain ⟨rfl, -⟩ := h
              exact .control (by simp [frees, hp, Queues.headAudio, hout]) hout rfl
          | audio frame =>
              simp only [Queues.waitStep, hout, Queues.onBackoff] at h
              split at h
              · rename_i hover
                simp only [onBackoff, Option.some.injEq, Prod.mk.injEq] at h
                obtain ⟨rfl, -⟩ := h
                exact .discard hp (by simp only [frees, hp, if_pos hover, Queues.headAudio, hout]) hout
                  hover
              · rename_i hroom
                simp only [onBackoff, Option.some.injEq, Prod.mk.injEq] at h
                obtain ⟨rfl, -⟩ := h
                exact .buffer hp (by simp only [frees, hp, if_neg hroom]) hout (Nat.not_lt.mp hroom)
  | _ => simp [Queues.waitStep] at h

/-- **Everything a move of the task can do to the queues.** -/
theorem own_flow (h : t.own e = some (t', acts)) : t.Flow e t'.queues := by
  cases hp : t.phase with
  | waiting delay => exact waiting_flow hp h
  | _ =>
      cases own_moves h with
      | goes hp' hm => exact conn_flow hp' hm
      | ends hp' hm => rw [onOutcome_queues]; exact conn_flow hp' hm
      | started hp' | unstarted hp' | dropped hp' => exact .still (by simp [frees, hp'])
      | slept hp' | orphaned hp' | buffers hp' | stopped hp' | finished hp' => simp [hp] at hp'

end Task

end Larmindon.Soniox
