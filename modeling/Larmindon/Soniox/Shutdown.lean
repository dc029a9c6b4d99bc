/-
# `Soniox.Shutdown` — dropping the client ends the task

`drop` sends a `Shutdown` and joins the thread, so it returns when the task does.
`Task.left` is what the task can still do on its own: every move lowers it, but
for a response, which gives back all attempts, and a keepalive, which lowers it
again with its write.

    point                          rank      beside it
    closing                           2      6   a connection still to be tried
    selecting                         3      3   a message in the channel
    one write from selecting          4      2   a frame in `pending`
    two                               5
    connecting, one from draining     6

So after the drop the task makes at most so many moves, and so many more for each
frame the server sends (`shutdown_bounded`).  What it waits for meanwhile is a
timer, its own turn or the `Shutdown` in its channel; the one exception is a
write, or the closing of the socket, which nothing of this wakes.
-/
import Larmindon.Soniox.Backlog
import Larmindon.Soniox.Session

namespace Larmindon.Soniox

/-! ## What is left to do -/

def Point.rank : Point → ℕ
  | .closing _ => 2
  | .selecting => 3
  | .uploading | .pinging | .flushing | .endingStream => 4
  | .starting | .flushWriting | .draining => 5
  | .drainWriting | .connecting => 6

/-- Connections the session may still lose, this one included. -/
def remaining (attempt : ℕ) (progressed : Bool) : ℕ :=
  MAX_RECONNECT_ATTEMPTS + 1 - if progressed then 0 else attempt

/-- The moves the queues are good for. -/
def Queues.load (q : Queues) : ℕ := 3 * q.out.length + 2 * q.pending.length

def Conn.left (c : Conn) (attempt : ℕ) : ℕ := c.point.rank + 6 * remaining attempt c.progressed

/-- Moves the task can make before it is gone, where the server says nothing. -/
def Task.left (t : Task) : ℕ :=
  match t.phase with
  | .spawned | .waiting _ => 7 + 6 * remaining t.attempt false + t.queues.load
  | .connected c => c.left t.attempt + t.queues.load
  | .returned => 1
  | .gone => 0

/-- What comes from the server. -/
def Event.heard : Event → Bool
  | .incoming _ => true
  | _ => false

def Event.pinged : Event → Bool
  | .pingTick => true
  | _ => false

/-- What comes by itself: a timer, the next turn of the task, a message that is in the channel. -/
def Event.prompt : Event → Bool
  | .runtime _ | .connectTimedOut | .turn | .recv | .watchdogFired | .slept | .dropped => true
  | _ => false

/-- The end of a write, or of closing the socket. -/
def Event.ends : Event → Bool
  | .written _ | .closed => true
  | _ => false

/-- Moves that an event may add to those left, itself included. -/
def Event.credit (e : Event) : ℕ := 37 * e.heard.toNat + 2 * e.pinged.toNat

theorem remaining_true (attempt : ℕ) : remaining attempt true = 6 := rfl

theorem remaining_false (attempt : ℕ) : remaining attempt false = 6 - attempt := rfl

theorem remaining_le (attempt : ℕ) (p : Bool) : remaining attempt p ≤ 6 := by
  cases p with
  | true => exact (remaining_true attempt).le
  | false =>
      rw [remaining_false]
      omega

/-- A connection that progressed has all attempts before it, one that did not no more than that. -/
theorem remaining_mono {p p' : Bool} (attempt : ℕ) (h : p = true → p' = true) :
    remaining attempt p ≤ remaining attempt p' := by
  cases p' with
  | true => exact remaining_le attempt p
  | false =>
      have hp : p = false := Bool.eq_false_iff.mpr fun hp => Bool.noConfusion (h hp)
      rw [hp]

def Outcome.progressed : Outcome → Bool
  | .retry _ p => p
  | _ => false

/-- The next connection is paid for by the one that ended. -/
theorem Task.onOutcome_left (t : Task) (q : Queues) (o : Outcome) :
    (t.onOutcome q o).1.left ≤ 1 + 6 * remaining t.attempt o.progressed + q.load := by
  cases o with
  | retry reason p =>
      rcases Nat.lt_or_ge MAX_RECONNECT_ATTEMPTS (nextAttempt t.attempt p) with hover | hagain
      · obtain ⟨message, he⟩ := onOutcome_over t q reason hover
        rw [he]
        show 1 ≤ _
        omega
      · rw [onOutcome_again t q reason (Nat.not_lt.mpr hagain)]
        have hle : nextAttempt t.attempt p ≤ 5 := hagain
        have hrem : remaining t.attempt p = 7 - nextAttempt t.attempt p := by
          simp only [remaining, nextAttempt, MAX_RECONNECT_ATTEMPTS]
          omega
        show 7 + 6 * remaining (nextAttempt t.attempt p) false + q.load
          ≤ 1 + 6 * remaining t.attempt p + q.load
        rw [hrem, remaining_false]
        omega
  | finished | shutdown | fatal message =>
      show 1 ≤ _
      omega

/-- A write ends lower than it began. -/
theorem Point.afterWrite_rank {p p' : Point} (h : p.afterWrite = some p') : p'.rank < p.rank := by
  cases p with
  | starting | flushWriting | uploading | drainWriting | pinging =>
      cases h
      decide
  | _ => cases h

/-! ## One move -/

theorem Point.two_le_rank (p : Point) : 2 ≤ p.rank := by
  cases p <;> simp only [rank] <;> omega

@[simp] theorem Event.credit_incoming (m : Incoming) : (Event.incoming m).credit = 37 := rfl

@[simp] theorem Event.credit_ping : Event.pingTick.credit = 2 := rfl

/-- What a move of a connection leaves to be done. -/
def Verdict.left (v : Verdict) (attempt : ℕ) : ℕ :=
  match v with
  | .stay c => c.left attempt
  | .ended o => 1 + 6 * remaining attempt o.progressed

/-- A move of a connection is one of those that were left. -/
theorem Conn.Moves.left {c : Conn} {q q' : Queues} {e : Event} {v : Verdict} {acts : List Act}
    (hm : c.Moves q e v q' acts) (hc : ∀ o, c.point = .closing o → o.isRetry = false)
    (attempt : ℕ) :
    1 + v.left attempt + q'.load ≤ c.left attempt + q.load + e.credit := by
  have hdry (o : Outcome) (ho : o.progressed = false) :
      remaining attempt o.progressed ≤ remaining attempt c.progressed :=
    remaining_mono attempt fun h => absurd (ho.symm.trans h) Bool.false_ne_true
  cases hm with
  | timedOut hp | unreachable hp =>
      have hr := hdry (.retry "" false) rfl
      simp only [Verdict.left, Conn.left, hp, Point.rank, Outcome.progressed] at hr ⊢
      omega
  | unbuildable hp =>
      have hr := hdry (.fatal "") rfl
      simp only [Verdict.left, Conn.left, hp, Point.rank, Outcome.progressed] at hr ⊢
      omega
  | streamLost hp =>
      have hr := hdry .finished rfl
      simp only [Verdict.left, Conn.left, hp, Point.rank, Outcome.progressed] at hr ⊢
      omega
  | opened hp | endedStream hp | gaveUp hp _ =>
      simp only [Verdict.left, Conn.left, hp, Point.rank]
      omega
  | flushed hp hpend =>
      simp only [Verdict.left, Conn.left, hp, Point.rank]
      omega
  | flush hp hpend =>
      simp only [Verdict.left, Conn.left, hp, Point.rank, Queues.load, Queues.release, hpend,
        List.length_cons]
      omega
  | drainAudio hp hout | upload hp hout _ | tooLate hp hout _ =>
      simp only [Verdict.left, Conn.left, hp, Point.rank, Queues.load, Queues.release, hout,
        List.length_cons]
      omega
  | drainFinish hp hout | drainShutdown hp hout | takeShutdown hp hout | takeFinish hp hout _
  | finishAgain hp hout _ =>
      simp only [Verdict.left, Conn.left, hp, Point.rank, Queues.load, hout, List.length_cons]
      omega
  | drained hp hout =>
      simp only [Verdict.left, Conn.left, hp, Point.rank]
      omega
  | wrote hp =>
      have hrank := Point.afterWrite_rank hp
      simp only [Verdict.left, Conn.left]
      omega
  | @writeFailed _ _ _ point hp hpr =>
      have hrank := Point.afterWrite_rank hp
      have htwo := point.two_le_rank
      have hr := remaining_mono attempt hpr
      simp only [Verdict.left, Conn.left, Outcome.progressed]
      omega
  | @closed o hp =>
      have hr := hdry o (by cases o <;> first | rfl | exact absurd (hc _ hp) Bool.noConfusion)
      simp only [Verdict.left, Conn.left, hp, Point.rank]
      omega
  | orphaned hp hout _ =>
      have hr := hdry .shutdown rfl
      simp only [Verdict.left, Conn.left, hp, Point.rank]
      omega
  -- a frame from the server may give back every attempt
  | @lost m reason hp _ =>
      have hr := remaining_le attempt (c.lost reason).progressed
      simp only [Verdict.left, Conn.left, hp, Point.rank, Event.credit_incoming]
      omega
  | unexpected hp _ | rejected hp _ _ | failed hp _ _ =>
      have hr := remaining_le attempt
      simp only [Verdict.left, Conn.left, hp, Point.rank, Event.credit_incoming, Outcome.progressed]
      have hfalse := hr false
      have htrue := hr true
      omega
  | ignored hp _ =>
      simp only [Verdict.left, Event.credit_incoming]
      omega
  | answered hp _ _ | dismissed hp _ _ =>
      simp only [Verdict.left, Conn.left, hp, Point.rank, Event.credit_incoming, remaining_true]
      omega
  | pings hp =>
      simp only [Verdict.left, Conn.left, hp, Point.rank, Event.credit_ping]
      omega

namespace Task

variable {t t' : Task} {e : Event} {acts : List Act}

/-- A socket is closed to stop, never to connect again. -/
def Closes (t : Task) : Prop :=
  ∀ c o, t.phase = .connected c → c.point = .closing o → o.isRetry = false

theorem onOutcome_phase (t : Task) (q : Queues) (o : Outcome) :
    (t.onOutcome q o).1.phase = .returned ∨
      o.isRetry = true ∧ ∃ delay, (t.onOutcome q o).1.phase = .waiting delay := by
  cases o with
  | retry reason p =>
      rcases Nat.lt_or_ge MAX_RECONNECT_ATTEMPTS (nextAttempt t.attempt p) with hover | hagain
      · obtain ⟨message, he⟩ := onOutcome_over t q reason hover
        rw [he]
        exact .inl rfl
      · rw [onOutcome_again t q reason (Nat.not_lt.mpr hagain)]
        exact .inr ⟨rfl, _, rfl⟩
  | _ => exact .inl rfl

theorem Moves.closes (hm : Moves t e t' acts) (h : t.Closes) : t'.Closes := by
  intro c' o' hp' hpt'
  cases hm with
  | goes hp hm =>
      cases hp'
      exact (hm.score ⟨false, 0, 0⟩).2 (fun o => h _ o hp) o' hpt'
  | ends hp hm =>
      rename_i c o q acts
      rcases t.onOutcome_phase q o with he | ⟨-, delay, he⟩ <;>
        exact nomatch he.symm.trans hp'
  | started | slept =>
      cases hp'
      cases hpt'
  | unstarted | orphaned | stopped | finished | dropped => cases hp'
  | buffers hp => exact nomatch hp.symm.trans hp'

/-- What `wait_backoff` takes from the channel it keeps at most. -/
theorem Flow.waiting_load {q : Queues} {delay : ℕ} {frame : AudioFrame} {out : List Outbound}
    (hf : t.Flow e q) (hp : t.phase = .waiting delay) (hout : t.queues.out = .audio frame :: out)
    (hq : q.out = out) : 1 + q.load ≤ t.queues.load := by
  cases hf with
  | still _ =>
      rw [hout] at hq
      exact absurd hq (List.cons_ne_self _ _)
  | control _ hout' hm =>
      obtain ⟨rfl, -⟩ := List.cons.inj (hout.symm.trans hout')
      cases hm
  | flush hp' | take hp' => exact nomatch hp.symm.trans hp'
  | buffer _ _ hout' _ | discard _ _ hout' _ =>
      simp only [Queues.load, hout', List.length_cons, List.length_append, List.length_nil]
      omega

/-- A move of the task is one of those that were left. -/
theorem own_left (hown : t.own e = some (t', acts)) (h : t.Closes) :
    1 + t'.left ≤ t.left + e.credit := by
  cases own_moves hown with
  | started hp =>
      simp only [Task.left, hp, Conn.left, Point.rank]
      omega
  | goes hp hm =>
      have hle := hm.left (fun o => h _ o hp) t.attempt
      simp only [Task.left, hp]
      simp only [Verdict.left] at hle
      omega
  | ends hp hm =>
      rename_i c o q acts
      have hle := hm.left (fun o => h _ o hp) t.attempt
      have hnext := t.onOutcome_left q o
      have hleft : t.left = c.left t.attempt + t.queues.load := by simp only [Task.left, hp]
      simp only [Verdict.left] at hle
      omega
  | slept hp =>
      simp only [Task.left, hp, Conn.left, Point.rank]
      omega
  | buffers hp hout hq =>
      have hload := (own_flow hown).waiting_load hp hout hq
      simp only [Task.left, hp] at hload ⊢
      omega
  | unstarted hp | orphaned hp _ | stopped hp _ | finished hp _ =>
      simp only [Task.left, hp]
      omega
  | dropped hp =>
      simp only [Task.left, hp]
      omega

end Task

/-! ## The word to stop -/

/-- The word to stop is in the channel, or it was taken: the socket is being closed, or the session
is over. -/
def Verdict.Told (v : Verdict) (q : Queues) : Prop :=
  .shutdown ∈ q.out ∨
    match v with
    | .stay c => ∃ o, c.point = .closing o
    | .ended o => o.isRetry = false

theorem shutdown_behind {m : Outbound} {out out' : List Outbound} (h : .shutdown ∈ out')
    (hout : out' = m :: out) (hm : m ≠ .shutdown) : .shutdown ∈ out := by
  rw [hout] at h
  exact (List.mem_cons.mp h).resolve_left hm.symm

/-- The word is taken by a connection that then closes its socket. -/
theorem Conn.Moves.told {c : Conn} {q q' : Queues} {e : Event} {v : Verdict} {acts : List Act}
    (hm : c.Moves q e v q' acts) (hc : ∀ o, c.point = .closing o → o.isRetry = false)
    (h : Verdict.Told (.stay c) q) : v.Told q' := by
  have hin (hp : ∀ o, c.point ≠ .closing o) : .shutdown ∈ q.out :=
    h.resolve_right fun ⟨o, ho⟩ => hp o ho
  cases hm with
  | closed hp => exact .inr (hc _ hp)
  | drainShutdown | takeShutdown | dismissed | gaveUp => exact .inr ⟨_, rfl⟩
  | unbuildable | streamLost | orphaned | unexpected | rejected => exact .inr rfl
  | ignored hp _ => exact h
  | answered hp _ _ => exact h
  | drainAudio hp hout | upload hp hout _ | tooLate hp hout _ =>
      refine .inl (shutdown_behind (hin fun o => ?_) hout Outbound.noConfusion)
      rw [hp]
      exact Point.noConfusion
  | drainFinish hp hout | takeFinish hp hout _ | finishAgain hp hout _ =>
      refine .inl (shutdown_behind (hin fun o => ?_) hout Outbound.noConfusion)
      rw [hp]
      exact Point.noConfusion
  | timedOut hp | unreachable hp | opened hp | flush hp _ | flushed hp _ | drained hp _
  | endedStream hp | lost hp _ | failed hp _ _ | pings hp =>
      refine .inl (hin fun o => ?_)
      rw [hp]
      exact Point.noConfusion
  | wrote hp | writeFailed hp _ =>
      refine .inl (hin fun o ho => ?_)
      rw [ho] at hp
      cases hp

namespace Task

variable {t t' : Task} {e : Event} {acts : List Act}

/-- The same of the task. -/
def Told (t : Task) : Prop :=
  match t.phase with
  | .returned | .gone => True
  | .connected c => Verdict.Told (.stay c) t.queues
  | .spawned | .waiting _ => .shutdown ∈ t.queues.out

theorem told_of_mem (h : .shutdown ∈ t.queues.out) : t.Told := by
  cases hp : t.phase with
  | connected c =>
      simp only [Told, hp]
      exact .inl h
  | _ => simp only [Told, hp, h]

/-- What is told stays told. -/
theorem own_told (hown : t.own e = some (t', acts)) (hc : t.Closes) (h : t.Told) : t'.Told := by
  cases own_moves hown with
  | started hp | slept hp =>
      simp only [Told, hp] at h
      exact .inl h
  | goes hp hm =>
      simp only [Told, hp] at h
      exact hm.told (fun o => hc _ o hp) h
  | ends hp hm =>
      rename_i c o q acts
      simp only [Told, hp] at h
      rcases hm.told (fun o => hc _ o hp) h with hin | hstop
      · refine told_of_mem ?_
        rw [onOutcome_queues]
        exact hin
      · rcases t.onOutcome_phase q o with he | ⟨hretry, -⟩
        · simp only [Told, he]
        · exact absurd (hretry.symm.trans hstop) Bool.noConfusion
  | buffers hp hout hq =>
      simp only [Told, hp] at h
      refine told_of_mem ?_
      show Outbound.shutdown ∈ _
      rw [hq]
      exact shutdown_behind h hout Outbound.noConfusion
  | unstarted | orphaned | stopped | finished | dropped => trivial

/-! ## What the task waits for -/

/-- The task is inside a write, or closing its socket. -/
def Writing (t : Task) : Prop :=
  ∃ c, t.phase = .connected c ∧
    (c.point.afterWrite ≠ none ∨ c.point = .endingStream ∨ ∃ o, c.point = .closing o)

theorem own_isSome {c : Conn} (hp : t.phase = .connected c)
    (h : (c.step t.queues e).isSome = true) : (t.own e).isSome = true := by
  obtain ⟨⟨v, q, acts⟩, hs⟩ := Option.isSome_iff_exists.mp h
  cases v <;> simp only [own, hp, hs, Option.isSome_some]

/-- A task that is told and not inside a write has a move that no other party has to make. -/
theorem Told.moves (h : t.Told) (hp : t.phase ≠ .gone) (hw : ¬ t.Writing) :
    ∃ e : Event, e.prompt = true ∧ (t.own e).isSome = true := by
  cases hph : t.phase with
  | spawned => exact ⟨.runtime (.ok ()), rfl, by simp [own, hph]⟩
  | waiting delay => exact ⟨.slept, rfl, by simp [own, hph, Queues.waitStep]⟩
  | returned => exact ⟨.dropped, rfl, by simp [own, hph]⟩
  | gone => exact absurd hph hp
  | connected c =>
      cases hpt : c.point with
      | connecting => exact ⟨.connectTimedOut, rfl, own_isSome hph (by simp [Conn.step, hpt])⟩
      | flushing =>
          refine ⟨.turn, rfl, own_isSome hph ?_⟩
          cases hpend : t.queues.pending <;> simp [Conn.step, hpt, hpend]
      | draining =>
          refine ⟨.turn, rfl, own_isSome hph ?_⟩
          cases hout : t.queues.out <;> simp [Conn.step, hpt, hout]
      | selecting =>
          simp only [Told, hph, Verdict.Told, hpt, reduceCtorEq, exists_false, or_false] at h
          refine ⟨.recv, rfl, own_isSome hph ?_⟩
          cases hout : t.queues.out with
          | nil => simp [hout] at h
          | cons m out => simp [Conn.step, hpt, hout]
      | starting | flushWriting | uploading | drainWriting | pinging =>
          exact absurd ⟨c, hph, .inl (by simp [hpt, Point.afterWrite])⟩ hw
      | endingStream => exact absurd ⟨c, hph, .inr (.inl hpt)⟩ hw
      | closing o => exact absurd ⟨c, hph, .inr (.inr ⟨o, hpt⟩)⟩ hw

/-- Nothing but the end of the write wakes a task that is inside one. -/
theorem Writing.own (h : t.Writing) (hown : t.own e = some (t', acts)) : e.ends = true := by
  obtain ⟨c, hp, hpt⟩ := h
  have hstep : ∃ v q as, c.step t.queues e = some (v, q, as) := by
    simp only [Task.own, hp] at hown
    cases hs : c.step t.queues e with
    | none => simp [hs] at hown
    | some r => exact ⟨_, _, _, rfl⟩
  obtain ⟨v, q, as, hs⟩ := hstep
  have hat (p : Point) (hcp : c.point = p) (hw : p.afterWrite = none) (hne : p ≠ .endingStream)
      (hnc : ∀ o, p ≠ .closing o) : False := by
    subst hcp
    rcases hpt with hpt | hpt | ⟨o, hpt⟩
    · exact hpt hw
    · exact hne hpt
    · exact hnc o hpt
  cases Conn.step_moves hs with
  | wrote | writeFailed | endedStream | streamLost | closed => rfl
  | timedOut hp | unreachable hp | unbuildable hp | opened hp | flush hp _ | flushed hp _
  | drainAudio hp _ | drainFinish hp _ | drainShutdown hp _ | drained hp _ | orphaned hp _ _
  | takeShutdown hp _ | takeFinish hp _ _ | finishAgain hp _ _ | upload hp _ _ | tooLate hp _ _
  | lost hp _ | ignored hp _ | unexpected hp _ | answered hp _ _ | dismissed hp _ _
  | rejected hp _ _ | failed hp _ _ | pings hp | gaveUp hp _ =>
      exact absurd (hat _ hp rfl Point.noConfusion fun _ => Point.noConfusion) id

/-- A bound on what is left that looks at the queues alone. -/
theorem left_le (t : Task) : t.left ≤ 43 + 3 * t.queues.out.length + 2 * t.queues.pending.length := by
  cases hp : t.phase with
  | spawned | waiting delay =>
      have hr := remaining_le t.attempt false
      simp only [left, hp, Queues.load]
      omega
  | connected c =>
      have hr := remaining_le t.attempt c.progressed
      have hrank : c.point.rank ≤ 6 := by cases c.point <;> simp only [Point.rank] <;> omega
      simp only [left, hp, Conn.left, Queues.load]
      omega
  | returned | gone =>
      simp only [left, hp]
      omega

end Task

/-! ## The client -/

/-- A move of the task. -/
def UploadMove.own : UploadMove → Bool
  | .task _ => true
  | _ => false

/-- A frame from the server. -/
def UploadMove.heard : UploadMove → Bool
  | .task e => e.heard
  | _ => false

/-- A keepalive. -/
def UploadMove.pinged : UploadMove → Bool
  | .task e => e.pinged
  | _ => false

/-- No other party has to make it. -/
def UploadMove.prompt : UploadMove → Bool
  | .task e => e.prompt
  | .subtract => true
  | _ => false

namespace Upload

variable {u u' : Upload} {seen : List Seen}

/-- What holds of a client, and of its task once it is dropped. -/
structure Dismissed (u : Upload) : Prop where
  balanced : Balanced u
  closes : u.task.Closes
  idle : u.dropped = true → u.call = .idle
  told : u.dropped = true → u.task.Told

theorem Dismissed.new : Dismissed {} where
  balanced := .new
  closes _ _ hp := nomatch hp
  idle hd := nomatch hd
  told hd := nomatch hd

/-- A client that can be called is not dropped yet. -/
theorem Dismissed.called (h : Balanced u') (hc : u'.task.Closes) (hd : u'.dropped = false) :
    Dismissed u' where
  balanced := h
  closes := hc
  idle htrue := absurd (hd.symm.trans htrue) Bool.noConfusion
  told htrue := absurd (hd.symm.trans htrue) Bool.noConfusion

/-- Neither is one that is inside a call. -/
theorem Dismissed.calling (h : Dismissed u) (hc : u.call ≠ .idle) : u.dropped = false :=
  Bool.eq_false_iff.mpr fun hd => hc (h.idle hd)

/-- The word is in the channel, or there is nobody left to tell. -/
theorem told_of_post (hj : u.task.queues.senderGone = false) : (u.post .shutdown).task.Told := by
  rcases Classical.em (u.task.phase = .gone) with hgone | halive
  · simp only [post, Task.sender, hgone, true_or, if_true, Option.getD_none, Task.Told]
  · refine Task.told_of_mem ?_
    simp [post, Task.sender, halive, hj]

theorem Dismissed.step {m : UploadMove} (h : Dismissed u) (hs : Upload.step u m = some (u', seen)) :
    Dismissed u' := by
  have hb := h.balanced.step hs
  cases moves_of_step hs with
  | @task e task acts hsub hown =>
      have htold (hd : u.dropped = true) : task.Told := Task.own_told hown h.closes (h.told hd)
      exact ⟨hb, (Task.own_moves hown).closes h.closes, h.idle, htold⟩
  | subtract hsub => exact ⟨hb, h.closes, h.idle, h.told⟩
  | refused | finished => exact h
  | called hcall => exact .called hb h.closes hcall.2
  | full hc | fits hc | counted hc | sent hc | closed hc | undone hc =>
      refine .called hb h.closes (h.calling ?_)
      rw [hc]
      exact SendCall.noConfusion
  | finish hcall =>
      rcases post_cases { u with finishSent := true } .finish with he | he <;>
        rw [he] at hb ⊢ <;> exact .called hb h.closes hcall.2
  | drop hcall =>
      refine ⟨hb, ?_, fun _ => hcall.1, fun _ => told_of_post h.balanced.joined⟩
      rcases post_cases { u with dropped := true } .shutdown with he | he <;>
        rw [he] <;> exact h.closes

/-! ## After the drop -/

theorem countP_snoc (p : UploadMove → Bool) (ms : List UploadMove) (m : UploadMove) :
    (ms ++ [m]).countP p = ms.countP p + (p m).toNat := by
  rw [List.countP_append, List.countP_singleton]
  cases p m <;> rfl

/-- A dropped client after some steps: what the task did it had left. -/
structure Leaving (u : Upload) (ms : List UploadMove) (u' : Upload) : Prop where
  dismissed : Dismissed u'
  dropped : u'.dropped = true
  paid : ms.countP UploadMove.own + u'.task.left ≤
    u.task.left + 37 * ms.countP UploadMove.heard + 2 * ms.countP UploadMove.pinged

theorem Leaving.new (h : Dismissed u) (hdrop : u.dropped = true) : Leaving u [] u :=
  ⟨h, hdrop, by simp⟩

theorem Leaving.step {u₀ : Upload} {ms : List UploadMove} {m : UploadMove} (h : Leaving u₀ ms u)
    (hs : Upload.step u m = some (u', seen)) : Leaving u₀ (ms ++ [m]) u' := by
  have hd := h.dismissed.step hs
  have hcalled : ¬ u.Callable := fun hc => absurd (hc.2.symm.trans h.dropped) Bool.noConfusion
  have hidle := h.dismissed.idle h.dropped
  have hpaid := h.paid
  cases moves_of_step hs with
  | @task e task acts hsub hown =>
      refine ⟨hd, h.dropped, ?_⟩
      have hleft : 1 + task.left ≤ u.task.left + e.credit := Task.own_left hown h.dismissed.closes
      simp only [countP_snoc]
      show ms.countP UploadMove.own + 1 + task.left
        ≤ u₀.task.left + 37 * (ms.countP UploadMove.heard + e.heard.toNat)
          + 2 * (ms.countP UploadMove.pinged + e.pinged.toNat)
      rw [Event.credit] at hleft
      omega
  | subtract hsub =>
      refine ⟨hd, h.dropped, ?_⟩
      simp only [countP_snoc]
      exact hpaid
  | refused hc | called hc | finished hc | finish hc | drop hc => exact absurd hc hcalled
  | full hc | fits hc | counted hc | sent hc | closed hc | undone hc =>
      exact nomatch hidle.symm.trans hc

/-- What a dropped client waits for. -/
theorem Leaving.waits {u₀ : Upload} {ms : List UploadMove} (h : Leaving u₀ ms u) :
    u.task.phase = .gone ∨ (∃ m, m.prompt = true ∧ (Upload.step u m).isSome = true) ∨
      u.task.Writing ∧ ∀ e r, u.task.own e = some r → e.ends = true := by
  rcases Classical.em (u.task.phase = .gone) with hgone | halive
  · exact .inl hgone
  rcases Classical.em u.task.Writing with hw | hw
  · exact .inr (.inr ⟨hw, fun e r hown => hw.own hown⟩)
  refine .inr (.inl ?_)
  cases hsub : u.subtracting with
  | some n => exact ⟨.subtract, rfl, by simp [Upload.step, hsub]⟩
  | none =>
      obtain ⟨e, he, hown⟩ := (h.dismissed.told h.dropped).moves halive hw
      exact ⟨.task e, he, by simpa [Upload.step, hsub] using hown⟩

/-- **Dropping the client ends its task**: however the connection fares, the task has so many moves
left, and so many more for each frame from the server.  Meanwhile it waits for nobody, unless it is
inside a write, and then for the end of that alone. -/
theorem shutdown_bounded {u u' : Upload} {ms₀ ms : List UploadMove} {seen₀ seen : List Seen}
    (hclient : Mealy.run step {} ms₀ = some (u, seen₀)) (hdrop : u.dropped = true)
    (h : Mealy.run step u ms = some (u', seen)) :
    ms.countP UploadMove.own + u'.task.left ≤
        43 + 3 * u.task.queues.out.length + 2 * u.task.queues.pending.length
          + 37 * ms.countP UploadMove.heard + 2 * ms.countP UploadMove.pinged ∧
      (u'.task.phase = .gone ∨
        (∃ m, m.prompt = true ∧ (step u' m).isSome = true) ∨
        u'.task.Writing ∧ ∀ e r, u'.task.own e = some r → e.ends = true) := by
  have hd : Dismissed u :=
    Mealy.run_sound (P := fun _ u _ => Dismissed u) (fun _ _ _ _ _ _ hd hs => hd.step hs) .new hclient
  have hrun : Leaving u ms u' :=
    Mealy.run_sound (P := fun ms u' _ => Leaving u ms u')
      (fun _ _ _ _ _ _ hl hs => hl.step hs) (.new hd hdrop) h
  refine ⟨?_, hrun.waits⟩
  have hleft := u.task.left_le
  have hpaid := hrun.paid
  omega

/-- Dropped while the service cannot be reached: the wait before the second attempt takes the word. -/
theorem shutdown_bounded_outage :
    ∃ u u' seen, Mealy.run step {} [.drop] = some (u, []) ∧
      Mealy.run step u [.task (.runtime (.ok ())), .task .connectTimedOut, .task .recv,
        .task .dropped] = some (u', seen) ∧
      u'.task.phase = .gone ∧ 4 + u'.task.left ≤ 43 + 3 * u.task.queues.out.length :=
  ⟨_, _, _, rfl, rfl, rfl,
    (shutdown_bounded (show Mealy.run step {} [.drop] = some (_, []) from rfl) rfl
      (show Mealy.run step _ [.task (.runtime (.ok ())), .task .connectTimedOut, .task .recv,
        .task .dropped] = some (_, _) from rfl)).1⟩

end Upload

end Larmindon.Soniox
