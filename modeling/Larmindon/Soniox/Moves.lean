/-
# `Soniox.Moves` — everything a connection can do, one case a move

`Conn.Moves` lists the moves of `Conn.step` with their guards and their effect;
`Conn.step_moves` is the inversion, and the invariants of the socket task go by
cases on it and never unfold the step function.  The wording of a reason is left
open, and so is which write of the select loop and its loops has ended: what
matters is the point the connection goes on from (`Point.afterWrite`).
-/
import Larmindon.Soniox.Client

namespace Larmindon.Soniox

/-- Where a connection goes on once the write it awaits has succeeded; `none` where it awaits none,
or the end-of-stream frame. -/
def Point.afterWrite : Point → Option Point
  | .starting | .flushWriting => some .flushing
  | .uploading | .pinging => some .selecting
  | .drainWriting => some .draining
  | _ => none

/-- The response in a frame from the server, if it is one that parses. -/
def Incoming.response : Incoming → Option SonioxResponse
  | .text (.ok r) => some r
  | _ => none

inductive Conn.Moves (c : Conn) (q : Queues) : Event → Verdict → Queues → List Act → Prop
  | timedOut {reason : String} : c.point = .connecting →
      Moves c q .connectTimedOut (.ended (.retry reason false)) q []
  | unreachable {e reason : String} : c.point = .connecting →
      Moves c q (.connectFailed e) (.ended (.retry reason false)) q []
  | unbuildable {e message : String} : c.point = .connecting →
      Moves c q (.opened (.error e)) (.ended (.fatal message)) q []
  | opened {u : Unit} : c.point = .connecting →
      Moves c q (.opened (.ok u)) (.stay { c with point := .starting }) q [.write .start]
  | flush {frame : AudioFrame} {pending : List AudioFrame} :
      c.point = .flushing → q.pending = frame :: pending →
      Moves c q .turn (.stay { c with point := .flushWriting })
        ({ q with pending }.release frame.samples) [.write (.binary frame.pcm)]
  | flushed : c.point = .flushing → q.pending = [] →
      Moves c q .turn (.stay { c with point := .selecting }) q []
  | drainAudio {frame : AudioFrame} {out : List Outbound} :
      c.point = .draining → q.out = .audio frame :: out →
      Moves c q .turn (.stay { c with point := .drainWriting })
        ({ q with out }.release frame.samples) [.took (.audio frame), .write (.binary frame.pcm)]
  | drainFinish {out : List Outbound} : c.point = .draining → q.out = .finish :: out →
      Moves c q .turn (.stay c) { q with out } [.took .finish]
  | drainShutdown {out : List Outbound} : c.point = .draining → q.out = .shutdown :: out →
      Moves c q .turn (.stay { c with point := .closing .shutdown }) { q with out } [.took .shutdown]
  | drained : c.point = .draining → q.out = [] →
      Moves c q .turn (.stay { c with point := .endingStream }) q [.write (.binary [])]
  | wrote {u : Unit} {point : Point} : c.point.afterWrite = some point →
      Moves c q (.written (.ok u)) (.stay { c with point }) q [.wrote true]
  | writeFailed {e reason : String} {p : Bool} {point : Point} :
      c.point.afterWrite = some point → (p = true → c.progressed = true) →
      Moves c q (.written (.error e)) (.ended (.retry reason p)) q [.wrote false]
  | endedStream {u : Unit} : c.point = .endingStream →
      Moves c q (.written (.ok u))
        (.stay { c with point := .selecting, finishing := true, watchdogArmed := true }) q
        [.wrote true]
  | streamLost {e : String} : c.point = .endingStream →
      Moves c q (.written (.error e)) (.ended .finished) q [.wrote false]
  | closed {o : Outcome} : c.point = .closing o → Moves c q .closed (.ended o) q []
  | orphaned : c.point = .selecting → q.out = [] → q.senderGone = true →
      Moves c q .recv (.ended .shutdown) q []
  | takeShutdown {out : List Outbound} : c.point = .selecting → q.out = .shutdown :: out →
      Moves c q .recv (.stay { c with point := .closing .shutdown }) { q with out } [.took .shutdown]
  | takeFinish {out : List Outbound} : c.point = .selecting → q.out = .finish :: out →
      c.finishing = false →
      Moves c q .recv (.stay { c with point := .draining }) { q with out } [.took .finish]
  | finishAgain {out : List Outbound} : c.point = .selecting → q.out = .finish :: out →
      c.finishing = true → Moves c q .recv (.stay c) { q with out } [.took .finish]
  | upload {frame : AudioFrame} {out : List Outbound} :
      c.point = .selecting → q.out = .audio frame :: out → c.finishing = false →
      Moves c q .recv (.stay { c with point := .uploading })
        ({ q with out }.release frame.samples) [.took (.audio frame), .write (.binary frame.pcm)]
  | tooLate {frame : AudioFrame} {out : List Outbound} :
      c.point = .selecting → q.out = .audio frame :: out → c.finishing = true →
      Moves c q .recv (.stay c) ({ q with out }.release frame.samples) [.took (.audio frame)]
  | lost {m : Incoming} {reason : String} : c.point = .selecting → m.response = none →
      Moves c q (.incoming m) (.ended (c.lost reason)) q []
  | ignored {m : Incoming} : c.point = .selecting → m.response = none →
      Moves c q (.incoming m) (.stay c) q []
  | unexpected {m : Incoming} {message : String} : c.point = .selecting → m.response = none →
      Moves c q (.incoming m) (.ended (.fatal message)) q []
  | answered {r : SonioxResponse} : c.point = .selecting → r.error = none → r.finished = false →
      Moves c q (.incoming (.text (.ok r))) (.stay { c with progressed := true }) q
        (.received r :: (forward r).map fun r => .message (.response r))
  | dismissed {r : SonioxResponse} : c.point = .selecting → r.error = none → r.finished = true →
      Moves c q (.incoming (.text (.ok r)))
        (.stay { c with point := .closing .finished, progressed := true }) q
        (.received r :: (forward r).map fun r => .message (.response r))
  | rejected {r : SonioxResponse} {error : SonioxError} {message : String} : c.point = .selecting →
      r.error = some error → error.retryable = false →
      Moves c q (.incoming (.text (.ok r))) (.ended (.fatal message)) q [.received r]
  | failed {r : SonioxResponse} {error : SonioxError} {reason : String} : c.point = .selecting →
      r.error = some error → error.retryable = true →
      Moves c q (.incoming (.text (.ok r))) (.ended (.retry reason true)) q [.received r]
  | pings : c.point = .selecting →
      Moves c q .pingTick (.stay { c with point := .pinging }) q [.write .ping]
  | gaveUp : c.point = .selecting → c.watchdogArmed = true →
      Moves c q .watchdogFired (.stay { c with point := .closing .finished }) q []

namespace Conn

variable {c : Conn} {q q' : Queues} {v : Verdict} {acts : List Act}

theorem turn_moves (h : c.step q .turn = some (v, q', acts)) : Moves c q .turn v q' acts := by
  cases hp : c.point with
  | flushing =>
      cases hpend : q.pending with
      | nil =>
          simp only [step, hp, hpend, Option.some.injEq, Prod.mk.injEq] at h
          obtain ⟨rfl, rfl, rfl⟩ := h
          exact .flushed hp hpend
      | cons frame pending =>
          simp only [step, hp, hpend, sendFrame, Option.some.injEq, Prod.mk.injEq] at h
          obtain ⟨rfl, rfl, rfl⟩ := h
          exact .flush hp hpend
  | draining =>
      cases hout : q.out with
      | nil =>
          simp only [step, hp, hout, Option.some.injEq, Prod.mk.injEq] at h
          obtain ⟨rfl, rfl, rfl⟩ := h
          exact .drained hp hout
      | cons m out =>
          cases m <;> simp only [step, hp, hout, onDrained, sendFrame, Option.some.injEq,
            Prod.mk.injEq] at h <;> obtain ⟨rfl, rfl, rfl⟩ := h
          · exact .drainAudio hp hout
          · exact .drainFinish hp hout
          · exact .drainShutdown hp hout
  | _ => simp [step, hp] at h

theorem written_moves {result : Except String Unit}
    (h : c.step q (.written result) = some (v, q', acts)) :
    Moves c q (.written result) v q' acts := by
  cases hp : c.point with
  | starting | flushWriting | uploading | drainWriting | pinging =>
      cases result <;> simp only [step, hp, onWritten, Option.some.injEq, Prod.mk.injEq] at h <;>
        obtain ⟨rfl, rfl, rfl⟩ := h
      · exact .writeFailed (by rw [hp]; rfl) (by simp)
      · exact .wrote (by rw [hp]; rfl)
  | endingStream =>
      cases result <;> simp only [step, hp, Option.some.injEq, Prod.mk.injEq] at h <;>
        obtain ⟨rfl, rfl, rfl⟩ := h
      · exact .streamLost hp
      · exact .endedStream hp
  | _ => simp [step, hp] at h

theorem recv_moves (h : c.step q .recv = some (v, q', acts)) : Moves c q .recv v q' acts := by
  simp only [step, Option.ite_none_right_eq_some] at h
  obtain ⟨hp, h⟩ := h
  cases hout : q.out with
  | nil =>
      simp only [hout, Option.ite_none_right_eq_some, Option.some.injEq, Prod.mk.injEq] at h
      obtain ⟨hg, rfl, rfl, rfl⟩ := h
      exact .orphaned hp hout hg
  | cons m out =>
      cases m with
      | shutdown =>
          simp only [hout, onOutgoing, Option.some.injEq, Prod.mk.injEq] at h
          obtain ⟨rfl, rfl, rfl⟩ := h
          exact .takeShutdown hp hout
      | finish =>
          cases hf : c.finishing with
          | true =>
              simp only [hout, onOutgoing, hf, if_true, Option.some.injEq, Prod.mk.injEq] at h
              obtain ⟨rfl, rfl, rfl⟩ := h
              exact .finishAgain hp hout hf
          | false =>
              simp only [hout, onOutgoing, if_neg (Bool.eq_false_iff.mp hf), Option.some.injEq,
                Prod.mk.injEq] at h
              obtain ⟨rfl, rfl, rfl⟩ := h
              exact .takeFinish hp hout hf
      | audio frame =>
          cases hf : c.finishing with
          | true =>
              simp only [hout, onOutgoing, hf, if_true, Option.some.injEq, Prod.mk.injEq] at h
              obtain ⟨rfl, rfl, rfl⟩ := h
              exact .tooLate hp hout hf
          | false =>
              simp only [hout, onOutgoing, if_neg (Bool.eq_false_iff.mp hf), sendFrame,
                Option.some.injEq, Prod.mk.injEq] at h
              obtain ⟨rfl, rfl, rfl⟩ := h
              exact .upload hp hout hf

theorem response_moves {r : SonioxResponse}
    (h : c.step q (.incoming (.text (.ok r))) = some (v, q', acts)) :
    Moves c q (.incoming (.text (.ok r))) v q' acts := by
  simp only [step, Option.ite_none_right_eq_some] at h
  obtain ⟨hp, h⟩ := h
  cases he : r.error with
  | some error =>
      cases hr : error.retryable with
      | false =>
          simp only [onIncoming, he, hr, Bool.false_eq_true, if_false, Option.some.injEq,
            Prod.mk.injEq] at h
          obtain ⟨rfl, rfl, rfl⟩ := h
          exact .rejected hp he hr
      | true =>
          simp only [onIncoming, he, hr, if_true, Option.some.injEq, Prod.mk.injEq] at h
          obtain ⟨rfl, rfl, rfl⟩ := h
          exact .failed hp he hr
  | none =>
      cases hf : r.finished with
      | false =>
          simp only [onIncoming, he, hf, Bool.false_eq_true, if_false, Option.some.injEq,
            Prod.mk.injEq] at h
          obtain ⟨rfl, rfl, rfl⟩ := h
          exact .answered hp he hf
      | true =>
          simp only [onIncoming, he, hf, if_true, Option.some.injEq, Prod.mk.injEq] at h
          obtain ⟨rfl, rfl, rfl⟩ := h
          exact .dismissed hp he hf

theorem incoming_moves {m : Incoming} (h : c.step q (.incoming m) = some (v, q', acts)) :
    Moves c q (.incoming m) v q' acts := by
  cases m with
  | text parsed =>
      cases parsed with
      | ok r => exact response_moves h
      | error e =>
          simp only [step, Option.ite_none_right_eq_some, onIncoming, Option.some.injEq,
            Prod.mk.injEq] at h
          obtain ⟨hp, rfl, rfl, rfl⟩ := h
          exact .ignored hp rfl
  | _ =>
      simp only [step, Option.ite_none_right_eq_some, onIncoming, Option.some.injEq,
        Prod.mk.injEq] at h
      obtain ⟨hp, rfl, rfl, rfl⟩ := h
      first | exact .lost hp rfl | exact .unexpected hp rfl | exact .ignored hp rfl

/-- **Everything a connection can do.** -/
theorem step_moves {e : Event} (h : c.step q e = some (v, q', acts)) : Moves c q e v q' acts := by
  cases e with
  | turn => exact turn_moves h
  | written result => exact written_moves h
  | recv => exact recv_moves h
  | incoming m => exact incoming_moves h
  | closed =>
      cases hp : c.point with
      | closing o =>
          simp only [step, hp, Option.some.injEq, Prod.mk.injEq] at h
          obtain ⟨rfl, rfl, rfl⟩ := h
          exact .closed hp
      | _ => simp [step, hp] at h
  | opened startJson =>
      simp only [step, Option.ite_none_right_eq_some] at h
      obtain ⟨hp, h⟩ := h
      cases startJson with
      | error e =>
          simp only [Option.some.injEq, Prod.mk.injEq] at h
          obtain ⟨rfl, rfl, rfl⟩ := h
          exact .unbuildable hp
      | ok _ =>
          simp only [Option.some.injEq, Prod.mk.injEq] at h
          obtain ⟨rfl, rfl, rfl⟩ := h
          exact .opened hp
  | connectTimedOut =>
      simp only [step, Option.ite_none_right_eq_some, Option.some.injEq, Prod.mk.injEq] at h
      obtain ⟨hp, rfl, rfl, rfl⟩ := h
      exact .timedOut hp
  | connectFailed e =>
      simp only [step, Option.ite_none_right_eq_some, Option.some.injEq, Prod.mk.injEq] at h
      obtain ⟨hp, rfl, rfl, rfl⟩ := h
      exact .unreachable hp
  | pingTick =>
      simp only [step, Option.ite_none_right_eq_some, Option.some.injEq, Prod.mk.injEq] at h
      obtain ⟨hp, rfl, rfl, rfl⟩ := h
      exact .pings hp
  | watchdogFired =>
      simp only [step, Option.ite_none_right_eq_some, Option.some.injEq, Prod.mk.injEq] at h
      obtain ⟨⟨hp, harmed⟩, rfl, rfl, rfl⟩ := h
      exact .gaveUp hp harmed
  | _ => simp [step] at h

end Conn

/-! ## The session around it -/

inductive Task.Moves (t : Task) (e : Event) : Task → List Act → Prop
  | started : t.phase = .spawned → Moves t e { t with phase := .connected {} } [.connect]
  | unstarted {message : String} : t.phase = .spawned →
      Moves t e { t with phase := .returned } [.message (.fatal message)]
  | goes {c c' : Conn} {q : Queues} {acts : List Act} : t.phase = .connected c →
      c.Moves t.queues e (.stay c') q acts →
      Moves t e { t with phase := .connected c', queues := q } acts
  | ends {c : Conn} {o : Outcome} {q : Queues} {acts : List Act} : t.phase = .connected c →
      c.Moves t.queues e (.ended o) q acts →
      Moves t e (t.onOutcome q o).1 (acts ++ .outcome o :: (t.onOutcome q o).2)
  | slept {delay : ℕ} : t.phase = .waiting delay →
      Moves t e { t with phase := .connected {} } [.connect]
  | orphaned {delay : ℕ} : t.phase = .waiting delay → t.queues.senderGone = true →
      Moves t e { t with phase := .returned } []
  | buffers {delay : ℕ} {frame : AudioFrame} {out : List Outbound} {q : Queues} :
      t.phase = .waiting delay → t.queues.out = .audio frame :: out → q.out = out →
      q.senderGone = t.queues.senderGone →
      Moves t e { t with queues := q } [.took (.audio frame)]
  | stopped {delay : ℕ} {out : List Outbound} : t.phase = .waiting delay →
      t.queues.out = .shutdown :: out →
      Moves t e { t with phase := .returned, queues := { t.queues with out } } [.took .shutdown]
  | finished {delay : ℕ} {out : List Outbound} : t.phase = .waiting delay →
      t.queues.out = .finish :: out →
      Moves t e { t with phase := .returned, queues := { t.queues with out } }
        [.took .finish, .message .finished]
  | dropped : t.phase = .returned → Moves t e { t with phase := .gone } []

namespace Task

variable {t t' : Task} {e : Event} {acts : List Act}

theorem onOutcome_over (t : Task) (q : Queues) (reason : String) {p : Bool}
    (h : nextAttempt t.attempt p > MAX_RECONNECT_ATTEMPTS) :
    ∃ message, t.onOutcome q (.retry reason p)
      = ({ phase := .returned, queues := q, attempt := nextAttempt t.attempt p },
          [.message (.fatal message)]) := by
  simp only [onOutcome, if_pos h]
  exact ⟨_, rfl⟩

theorem onOutcome_again (t : Task) (q : Queues) (reason : String) {p : Bool}
    (h : ¬ nextAttempt t.attempt p > MAX_RECONNECT_ATTEMPTS) :
    t.onOutcome q (.retry reason p)
      = ({ phase := .waiting (backoff (nextAttempt t.attempt p)), queues := q,
           attempt := nextAttempt t.attempt p }, [.message (.reconnecting reason)]) := by
  simp only [onOutcome, if_neg h]

/-- After an outcome `session` sends at most one message. -/
theorem onOutcome_messages (t : Task) (q : Queues) (o : Outcome) :
    ∀ a ∈ (t.onOutcome q o).2, ∃ m, a = .message m := by
  intro a ha
  cases o with
  | retry reason p =>
      by_cases h : nextAttempt t.attempt p > MAX_RECONNECT_ATTEMPTS
      · obtain ⟨message, hover⟩ := onOutcome_over t q reason h
        rw [hover] at ha
        exact ⟨_, List.mem_singleton.mp ha⟩
      · rw [onOutcome_again t q reason h] at ha
        exact ⟨_, List.mem_singleton.mp ha⟩
  | shutdown => simp [onOutcome] at ha
  | finished | fatal message => exact ⟨_, List.mem_singleton.mp ha⟩

theorem sender_phase (h : t.sender e = some t') :
    ∃ q, t' = { t with queues := q } := by
  cases e with
  | count n => simp only [sender, Option.some.injEq] at h; exact ⟨_, h.symm⟩
  | uncount n => simp only [sender, Option.some.injEq] at h; exact ⟨_, h.symm⟩
  | hangUp => simp only [sender, Option.some.injEq] at h; exact ⟨_, h.symm⟩
  | enqueue m =>
      simp only [sender] at h
      split at h
      · cases h
      · exact ⟨_, (Option.some.inj h).symm⟩
  | _ => cases h

theorem waiting_moves {delay : ℕ} (hp : t.phase = .waiting delay) (h : t.own e = some (t', acts)) :
    Moves t e t' acts := by
  simp only [own, hp] at h
  cases e with
  | slept =>
      simp only [Queues.waitStep, onBackoff, Option.some.injEq, Prod.mk.injEq] at h
      obtain ⟨rfl, rfl⟩ := h
      exact .slept hp
  | recv =>
      cases hout : t.queues.out with
      | nil =>
          cases hg : t.queues.senderGone with
          | true =>
              simp only [Queues.waitStep, hout, hg, if_true, onBackoff, Option.some.injEq,
                Prod.mk.injEq] at h
              obtain ⟨rfl, rfl⟩ := h
              exact .orphaned hp hg
          | false => simp [Queues.waitStep, hout, hg] at h
      | cons m out =>
          cases m with
          | shutdown =>
              simp only [Queues.waitStep, hout, Queues.onBackoff, onBackoff, Option.some.injEq,
                Prod.mk.injEq] at h
              obtain ⟨rfl, rfl⟩ := h
              exact .stopped hp hout
          | finish =>
              simp only [Queues.waitStep, hout, Queues.onBackoff, onBackoff, Option.some.injEq,
                Prod.mk.injEq] at h
              obtain ⟨rfl, rfl⟩ := h
              exact .finished hp hout
          | audio frame =>
              -- kept or dropped, the frame leaves the channel
              simp only [Queues.waitStep, hout, Queues.onBackoff] at h
              split at h
              · simp only [onBackoff, Option.some.injEq, Prod.mk.injEq] at h
                obtain ⟨rfl, rfl⟩ := h
                exact .buffers hp hout rfl rfl
              · simp only [onBackoff, Option.some.injEq, Prod.mk.injEq] at h
                obtain ⟨rfl, rfl⟩ := h
                exact .buffers hp hout rfl rfl
  | _ => simp [Queues.waitStep] at h

theorem own_moves (h : t.own e = some (t', acts)) : Moves t e t' acts := by
  cases hp : t.phase with
  | spawned =>
      simp only [own, hp] at h
      cases e with
      | runtime built =>
          cases built <;> simp only [Option.some.injEq, Prod.mk.injEq] at h <;>
            obtain ⟨rfl, rfl⟩ := h
          · exact .unstarted hp
          · exact .started hp
      | _ => simp at h
  | connected c =>
      simp only [own, hp] at h
      cases hs : c.step t.queues e with
      | none => simp [hs] at h
      | some res =>
          obtain ⟨v, q, as⟩ := res
          have hm := Conn.step_moves hs
          cases v with
          | stay c' =>
              simp only [hs, Option.some.injEq, Prod.mk.injEq] at h
              obtain ⟨rfl, rfl⟩ := h
              exact .goes hp hm
          | ended o =>
              simp only [hs, Option.some.injEq, Prod.mk.injEq] at h
              obtain ⟨rfl, rfl⟩ := h
              exact .ends hp hm
  | waiting delay => exact waiting_moves hp h
  | returned =>
      simp only [own, hp] at h
      cases e with
      | dropped =>
          simp only [Option.some.injEq, Prod.mk.injEq] at h
          obtain ⟨rfl, rfl⟩ := h
          exact .dropped hp
      | _ => simp at h
  | gone => simp [own, hp] at h

/-- **Everything that can happen to the socket task**: the sender changes its queues, or it moves. -/
theorem step_moves (h : t.step e = some (t', acts)) :
    (∃ q, t.sender e = some { t with queues := q } ∧ t' = { t with queues := q } ∧ acts = []) ∨
      Moves t e t' acts := by
  simp only [step] at h
  cases hs : t.sender e with
  | some t₁ =>
      simp only [hs, Option.some.injEq, Prod.mk.injEq] at h
      obtain ⟨rfl, rfl⟩ := h
      obtain ⟨q, rfl⟩ := sender_phase hs
      exact .inl ⟨q, rfl, rfl, rfl⟩
  | none =>
      simp only [hs] at h
      exact .inr (own_moves h)

end Task

end Larmindon.Soniox
