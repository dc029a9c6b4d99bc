/-
# `Soniox.Session` — when the session reconnects

Two promises of the reconnect loop, over runs of the socket task.

*A stop is final.*  Once `Finish` has been taken no further connection should be
opened.  Three exits of the select loop do not look at `finishing` and forget it
(`Task.forgets`): a write that fails while the channel is being emptied, a
keepalive that fails, and a retryable error from the server.  From the moment
`Finish` is taken a run reconnects exactly if it takes one of these.

*The budget.*  `MAX_RECONNECT_ATTEMPTS` caps the connections that fail in a row.
`Score` counts, from what the task is seen to do, the `Reconnecting` messages and
the fruitless connections since a response that was no error.  `progressed` is
set before a response is known to be an error, so an error frame that is the only
answer of a connection forgives all failures before it (`Task.forgives`); runs
without such a step keep the budget.
-/
import Larmindon.Soniox.Moves

namespace Larmindon.Soniox

def Outcome.isRetry : Outcome → Bool
  | .retry _ _ => true
  | _ => false

/-! ## A stop is final, unless it is forgotten -/

/-- The task opens a connection, or has lost one and means to. -/
def Act.reconnects : Act → Bool
  | .connect => true
  | .outcome o => o.isRetry
  | _ => false

/-- The error frame is one to reconnect through. -/
def SonioxResponse.retryable (r : SonioxResponse) : Bool := r.error.any SonioxError.retryable

/-- `Finish` was taken, and this exit does not look. -/
def Conn.forgets (c : Conn) : Event → Bool
  | .written (.error _) => c.point == .drainWriting || (c.point == .pinging && c.finishing)
  | .incoming m => c.point == .selecting && c.finishing && m.response.any SonioxResponse.retryable
  | _ => false

def Task.forgets (t : Task) (e : Event) : Bool :=
  match t.phase with
  | .connected c => c.forgets e
  | _ => false

/-- Where a connection can stand after `Finish` was taken. -/
def Conn.Final (c : Conn) : Prop :=
  match c.point with
  | .selecting | .pinging => c.finishing = true
  | .draining | .drainWriting | .endingStream => True
  | .closing o => o.isRetry = false
  | _ => False

def Task.Final (t : Task) : Prop :=
  match t.phase with
  | .connected c => c.Final
  | .returned | .gone => True
  | _ => False

/-- What one move does to a connection that is to be the last: it is still so, unless the move
forgets, and that is a retry. -/
def Conn.FinalMove (c : Conn) (e : Event) (acts : List Act) : Verdict → Prop
  | .stay c' => (∀ a ∈ acts, a.reconnects = false) ∧ c.forgets e = false ∧ c'.Final
  | .ended o => (∀ a ∈ acts, a.reconnects = false) ∧ o.isRetry = c.forgets e

theorem response_quiet (r : SonioxResponse) :
    ∀ a ∈ Act.received r :: (forward r).map (fun r => Act.message (.response r)),
      a.reconnects = false := by
  intro a ha
  rcases List.mem_cons.mp ha with rfl | ha
  · rfl
  · obtain ⟨_, -, rfl⟩ := List.mem_map.mp ha
    rfl

theorem Conn.Final.moves {c : Conn} {q q' : Queues} {e : Event} {v : Verdict} {acts : List Act}
    (h : c.Final) (hm : c.Moves q e v q' acts) : c.FinalMove e acts v := by
  cases hm with
  | timedOut hp | unreachable hp | unbuildable hp | opened hp => simp [Final, hp] at h
  | flush hp _ | flushed hp _ => simp [Final, hp] at h
  | drainAudio hp _ => exact ⟨by simp [Act.reconnects], rfl, by simp [Final]⟩
  | drainFinish hp _ => exact ⟨by simp [Act.reconnects], rfl, h⟩
  | drainShutdown hp _ => exact ⟨by simp [Act.reconnects], rfl, by simp [Final, Outcome.isRetry]⟩
  | drained hp _ => exact ⟨by simp [Act.reconnects], rfl, by simp [Final]⟩
  | wrote hp =>
      refine ⟨by simp [Act.reconnects], rfl, ?_⟩
      cases hq : c.point <;> simp only [hq, Point.afterWrite, Option.some.injEq, reduceCtorEq] at hp
      case drainWriting => rw [← hp]; trivial
      case pinging =>
          have hf : c.finishing = true := by simpa [Final, hq] using h
          rw [← hp]; simpa [Final] using hf
      all_goals simp [Final, hq] at h
  | writeFailed hp _ =>
      refine ⟨by simp [Act.reconnects], ?_⟩
      cases hq : c.point <;> simp_all [Final, Point.afterWrite, Outcome.isRetry, forgets]
  | endedStream hp => exact ⟨by simp [Act.reconnects], rfl, by simp [Final]⟩
  | streamLost hp => exact ⟨by simp [Act.reconnects], by simp [Outcome.isRetry, forgets, hp]⟩
  | closed hp =>
      refine ⟨by simp, ?_⟩
      simpa [Final, hp, forgets] using h
  | orphaned hp _ _ => exact ⟨by simp, rfl⟩
  | takeShutdown hp _ => exact ⟨by simp [Act.reconnects], rfl, by simp [Final, Outcome.isRetry]⟩
  | takeFinish hp _ hf => simp [Final, hp, hf] at h
  | finishAgain hp _ _ => exact ⟨by simp [Act.reconnects], rfl, h⟩
  | upload hp _ hf => simp [Final, hp, hf] at h
  | tooLate hp _ _ => exact ⟨by simp [Act.reconnects], rfl, h⟩
  | lost hp hr =>
      have hf : c.finishing = true := by simpa [Final, hp] using h
      exact ⟨by simp, by simp [lost, hf, Outcome.isRetry, forgets, hr]⟩
  | ignored hp hr => exact ⟨by simp, by simp [forgets, hr], h⟩
  | unexpected hp hr => exact ⟨by simp, by simp [forgets, hr, Outcome.isRetry]⟩
  | answered hp he _ =>
      have hf : c.finishing = true := by simpa [Final, hp] using h
      exact ⟨response_quiet _, by simp [forgets, Incoming.response, SonioxResponse.retryable, he],
        by simpa [Final, hp] using hf⟩
  | dismissed hp he _ =>
      exact ⟨response_quiet _, by simp [forgets, Incoming.response, SonioxResponse.retryable, he],
        by simp [Final, Outcome.isRetry]⟩
  | rejected hp he hr =>
      exact ⟨by simp [Act.reconnects],
        by simp [forgets, Incoming.response, SonioxResponse.retryable, he, hr, Outcome.isRetry]⟩
  | failed hp he hr =>
      have hf : c.finishing = true := by simpa [Final, hp] using h
      exact ⟨by simp [Act.reconnects],
        by simp [forgets, Incoming.response, SonioxResponse.retryable, he, hr, Outcome.isRetry, hp, hf]⟩
  | pings hp =>
      have hf : c.finishing = true := by simpa [Final, hp] using h
      exact ⟨by simp [Act.reconnects], rfl, by simpa [Final] using hf⟩
  | gaveUp hp _ => exact ⟨by simp, rfl, by simp [Final, Outcome.isRetry]⟩

/-- One step of a task that has been told to stop: it stays so and does not reconnect, or forgets
and means to. -/
theorem Task.Final.step {t t' : Task} {e : Event} {acts : List Act} (h : t.Final)
    (hs : t.step e = some (t', acts)) :
    (t.forgets e = false ∧ t'.Final ∧ ∀ a ∈ acts, a.reconnects = false) ∨
      (t.forgets e = true ∧ ∃ a ∈ acts, a.reconnects = true) := by
  rcases Task.step_moves hs with ⟨q, hq, rfl, rfl⟩ | hmove
  · refine .inl ⟨?_, h, by simp⟩
    cases e with
    | count _ | uncount _ | enqueue _ | hangUp => simp [forgets, Conn.forgets]; split <;> rfl
    | _ => cases hq
  cases hmove with
  | started hp | unstarted hp | slept hp | orphaned hp _ | buffers hp _ _ _ | stopped hp _
  | finished hp _ => simp [Final, hp] at h
  | @goes c c' q acts hp hm =>
      have hc : c.Final := by simpa [Final, hp] using h
      obtain ⟨hq, hf, hc'⟩ := hc.moves hm
      exact .inl ⟨by simp [forgets, hp, hf], hc', hq⟩
  | @ends c o q acts hp hm =>
      have hc : c.Final := by simpa [Final, hp] using h
      obtain ⟨hq, ho⟩ := hc.moves hm
      have hfg : t.forgets e = o.isRetry := by simp [forgets, hp, ho]
      cases hr : o.isRetry with
      | true => exact .inr ⟨hfg.trans hr, .outcome o, by simp, hr⟩
      | false =>
          refine .inl ⟨hfg.trans hr, ?_, ?_⟩
          · cases o with
            | retry _ _ => cases hr
            | _ => trivial
          · intro a ha
            rcases List.mem_append.mp ha with ha | ha
            · exact hq a ha
            rcases List.mem_cons.mp ha with rfl | ha
            · exact hr
            · obtain ⟨m, rfl⟩ := t.onOutcome_messages q o a ha
              rfl
  | dropped hp => exact .inl ⟨by simp [forgets, hp], trivial, by simp⟩

/-- However it stood before, a task that takes `Finish` has been told to stop. -/
theorem Task.final_of_took {t t' : Task} {e : Event} {acts : List Act}
    (hs : t.step e = some (t', acts)) (hf : .took .finish ∈ acts) :
    t'.Final ∧ ∀ a ∈ acts, a.reconnects = false := by
  rcases Task.step_moves hs with ⟨q, -, rfl, rfl⟩ | hmove
  · cases hf
  cases hmove with
  | goes hp hm =>
      cases hm with
      | drainFinish hp _ => exact ⟨by simp [Final, Conn.Final, hp], by simp [Act.reconnects]⟩
      | takeFinish _ _ _ => exact ⟨trivial, by simp [Act.reconnects]⟩
      | finishAgain hp _ hg => exact ⟨by simp [Final, Conn.Final, hp, hg], by simp [Act.reconnects]⟩
      | answered _ _ _ | dismissed _ _ _ => simp at hf
      | _ => simp at hf
  | @ends c o q acts hp hm =>
      -- the moves that end a connection take nothing, nor does `session` after one
      have hno : .took .finish ∉ acts := by cases hm <;> simp
      rcases List.mem_append.mp hf with hf | hf
      · exact absurd hf hno
      rcases List.mem_cons.mp hf with hf | hf
      · cases hf
      · obtain ⟨m, hm⟩ := t.onOutcome_messages q o _ hf
        cases hm
  | finished _ _ => exact ⟨trivial, by simp [Act.reconnects]⟩
  | _ => simp at hf

theorem Task.Final.run {t t' : Task} {evs : List Event} {acts : List Act} (h : t.Final)
    (hr : Mealy.run Task.step t evs = some (t', acts)) :
    (∀ a ∈ acts, a.reconnects = false) ↔
      Mealy.Along Task.step (fun t e => t.forgets e = false) t evs := by
  induction evs generalizing t acts with
  | nil =>
      obtain ⟨rfl, rfl⟩ : t = t' ∧ ([] : List Act) = acts := by simpa using hr
      simp [Mealy.Along]
  | cons e evs ih =>
      obtain ⟨t₁, as, bs, hs, hr', rfl⟩ := Mealy.run_cons_inv hr
      rw [Mealy.along_cons_iff hs]
      rcases h.step hs with ⟨hf, h₁, hq⟩ | ⟨hf, a, ha, hrec⟩
      · constructor
        · intro hall
          exact ⟨hf, (ih h₁ hr').mp fun a ha => hall a (List.mem_append_right _ ha)⟩
        · rintro ⟨-, hrest⟩ a ha
          rcases List.mem_append.mp ha with ha | ha
          · exact hq a ha
          · exact (ih h₁ hr').mpr hrest a ha
      · constructor
        · intro hall
          rw [hall a (List.mem_append_left _ ha)] at hrec
          cases hrec
        · rintro ⟨hnf, -⟩
          rw [hf] at hnf
          cases hnf

/-- **A stop is final exactly when it is not forgotten.**  After a step that takes `Finish`, in
whatever state, the task neither opens a connection nor retries one if and only if no later step is
one of the three that forget. -/
theorem finish_final_iff {t t₁ t₂ : Task} {e : Event} {evs : List Event} {as acts : List Act}
    (hs : t.step e = some (t₁, as)) (hf : .took .finish ∈ as)
    (hr : Mealy.run Task.step t₁ evs = some (t₂, acts)) :
    (∀ a ∈ as ++ acts, a.reconnects = false) ↔
      Mealy.Along Task.step (fun t e => t.forgets e = false) t₁ evs := by
  obtain ⟨h₁, hq⟩ := Task.final_of_took hs hf
  rw [← h₁.run hr]
  constructor
  · exact fun hall a ha => hall a (List.mem_append_right _ ha)
  · intro hall a ha
    rcases List.mem_append.mp ha with ha | ha
    · exact hq a ha
    · exact hall a ha

/-- The server stays silent after end-of-stream, and the watchdog ends the session. -/
theorem finish_final_silent_server :
    ∃ t acts,
      Mealy.run Task.step
        { phase := .connected { point := .draining }, queues := {}, attempt := 0 }
        [.turn, .written (.ok ()), .watchdogFired, .closed] = some (t, acts) ∧
      ∀ a ∈ acts, a.reconnects = false := by
  have htake : Task.step
      { phase := .connected { point := .selecting }, queues := { out := [.finish] }, attempt := 0 }
      .recv = some ({ phase := .connected { point := .draining }, queues := {}, attempt := 0 },
        [.took .finish]) := rfl
  obtain ⟨t, acts, hr⟩ : ∃ t acts, Mealy.run Task.step
      { phase := .connected { point := .draining }, queues := {}, attempt := 0 }
      [.turn, .written (.ok ()), .watchdogFired, .closed] = some (t, acts) := ⟨_, _, rfl⟩
  refine ⟨t, acts, hr, ?_⟩
  intro a ha
  exact (finish_final_iff htake List.mem_cons_self hr).mpr (by decide) a (List.mem_append_right _ ha)

/-- A server that answers the end of the stream with a retryable error is reconnected to, and the
stop is forgotten. -/
theorem finish_forgotten :
    ¬ ∀ (evs evs' : List Event) (e : Event) (t t₁ t₂ : Task) (acts as acts' : List Act),
      Mealy.run Task.step Task.new evs = some (t, acts) → t.step e = some (t₁, as) →
      .took .finish ∈ as → Mealy.run Task.step t₁ evs' = some (t₂, acts') →
      ∀ a ∈ as ++ acts', a.reconnects = false := by
  intro h
  have := h [.runtime (.ok ()), .opened (.ok ()), .written (.ok ()), .turn, .enqueue .finish]
    [.turn, .written (.ok ()), .incoming (.text (.ok { errorType := some "service_unavailable" })),
      .slept] .recv _ _ _ _ _ _ rfl rfl List.mem_cons_self rfl .connect (by simp)
  cases this

/-! ## The reconnect budget -/

/-- What the acts say about the failures since a response that was no error. -/
structure Score where
  /-- The connection in progress has received such a response. -/
  heard : Bool
  /-- Connections that ended in a retry without one, in a row. -/
  dry : ℕ
  /-- `Reconnecting` messages sent. -/
  since : ℕ

def Score.act (s : Score) : Act → Score
  | .connect => { s with heard := false }
  | .received r => if r.error.isNone then ⟨true, 0, 0⟩ else s
  | .outcome o =>
      if o.isRetry then { s with dry := if s.heard then 0 else s.dry + 1 } else s
  | .message (.reconnecting _) => { s with since := s.since + 1 }
  | _ => s

def score (acts : List Act) : Score := acts.foldl Score.act ⟨false, 0, 0⟩

theorem score_append (acts acts' : List Act) :
    score (acts ++ acts') = acts'.foldl Score.act (score acts) := by
  rw [score, List.foldl_append]; rfl

/-- A retryable error frame is the connection's first answer, and failures before it are counted. -/
def Task.forgives (t : Task) (e : Event) : Bool :=
  match t.phase, e with
  | .connected c, .incoming m =>
      c.point == .selecting && !c.progressed && m.response.any SonioxResponse.retryable &&
        t.attempt != 0
  | _, _ => false

/-- `session` has told the processing thread that it cannot go on. -/
def sentFatal (acts : List Act) : Prop := ∃ message, .message (.fatal message) ∈ acts

/-- The counter of the task against the score. -/
structure Counted (attempt : ℕ) (s : Score) : Prop where
  since : s.since ≤ attempt
  dry : s.dry ≤ attempt
  fresh : s.heard = true → s.since = 0 ∧ s.dry = 0

/-- What every state of a run that never forgives satisfies. -/
def Budget (t : Task) (acts : List Act) : Prop :=
  match t.phase with
  | .spawned => t.attempt = 0 ∧ score acts = ⟨false, 0, 0⟩
  | .connected c =>
      t.attempt ≤ MAX_RECONNECT_ATTEMPTS ∧ Counted t.attempt (score acts) ∧
        (score acts).heard = c.progressed ∧ ∀ o, c.point = .closing o → o.isRetry = false
  | .waiting _ =>
      t.attempt ≤ MAX_RECONNECT_ATTEMPTS ∧ (score acts).since ≤ t.attempt ∧
        (score acts).dry ≤ t.attempt
  | .returned | .gone =>
      (score acts).since ≤ MAX_RECONNECT_ATTEMPTS ∧
        ((score acts).dry ≤ MAX_RECONNECT_ATTEMPTS ∨ sentFatal acts)

theorem foldl_forward (s : Score) (r : SonioxResponse) :
    ((forward r).map fun r => Act.message (.response r)).foldl Score.act s = s := by
  simp only [forward]
  split <;> rfl

/-- What one move of a connection does to the score: nothing, unless it was answered. -/
def Conn.ScoreMove (c : Conn) (e : Event) (acts : List Act) (s : Score) : Verdict → Prop
  | .stay c' =>
      (acts.foldl Score.act s = s ∧ c'.progressed = c.progressed ∨
        acts.foldl Score.act s = ⟨true, 0, 0⟩ ∧ c'.progressed = true) ∧
      ((∀ o, c.point = .closing o → o.isRetry = false) →
        ∀ o, c'.point = .closing o → o.isRetry = false)
  | .ended o =>
      acts.foldl Score.act s = s ∧
      ∀ reason p, o = .retry reason p → c.point = .closing o ∨ (p = true → c.progressed = true ∨
        ∃ m, e = .incoming m ∧ c.point = .selecting ∧ m.response.any SonioxResponse.retryable = true)

theorem Conn.Moves.score {c : Conn} {q q' : Queues} {e : Event} {v : Verdict} {acts : List Act}
    (hm : c.Moves q e v q' acts) (s : Score) : c.ScoreMove e acts s v := by
  cases hm with
  | timedOut _ | unreachable _ =>
      refine ⟨rfl, ?_⟩
      rintro reason p ⟨⟩
      exact .inr Bool.noConfusion
  | unbuildable _ | orphaned _ _ _ | unexpected _ _ | streamLost _ =>
      exact ⟨rfl, fun reason p ho => by cases ho⟩
  | opened _ | flush _ _ | flushed _ _ | drainAudio _ _ | drained _ _ | takeFinish _ _ _
  | upload _ _ _ | endedStream _ | pings _ =>
      exact ⟨.inl ⟨rfl, rfl⟩, fun _ o ho => by cases ho⟩
  | drainFinish _ _ | finishAgain _ _ _ | tooLate _ _ _ | ignored _ _ =>
      exact ⟨.inl ⟨rfl, rfl⟩, fun h => h⟩
  | drainShutdown _ _ | takeShutdown _ _ | gaveUp _ _ =>
      exact ⟨.inl ⟨rfl, rfl⟩, fun _ o ho => by cases ho; rfl⟩
  | @wrote u point hp =>
      refine ⟨.inl ⟨rfl, rfl⟩, ?_⟩
      intro _ o ho
      cases hq : c.point <;> simp only [hq, Point.afterWrite, Option.some.injEq, reduceCtorEq] at hp <;>
        rw [← hp] at ho <;> cases ho
  | writeFailed _ hpr =>
      refine ⟨rfl, ?_⟩
      rintro reason p ⟨⟩
      exact .inr fun hp => .inl (hpr hp)
  | closed hp => exact ⟨rfl, fun reason p ho => .inl hp⟩
  | lost _ _ =>
      refine ⟨rfl, ?_⟩
      intro reason p ho
      refine .inr fun hp => .inl ?_
      simp only [Conn.lost] at ho
      split at ho
      · cases ho
      · cases ho; exact hp
  | answered hp he _ =>
      refine ⟨.inr ⟨?_, rfl⟩, fun h => h⟩
      rw [List.foldl_cons, foldl_forward]
      simp [Score.act, he]
  | dismissed hp he _ =>
      refine ⟨.inr ⟨?_, rfl⟩, fun _ o ho => by cases ho; rfl⟩
      rw [List.foldl_cons, foldl_forward]
      simp [Score.act, he]
  | rejected _ he _ => exact ⟨by simp [Score.act, he], fun reason p ho => by cases ho⟩
  | failed hp he hr =>
      refine ⟨by simp [Score.act, he], ?_⟩
      intro reason p _
      refine .inr fun _ => .inr ⟨_, rfl, hp, ?_⟩
      simp [Incoming.response, SonioxResponse.retryable, he, hr]

/-- The end of a connection against the budget. -/
theorem Budget.outcome {t : Task} {acts as : List Act} {q : Queues} {o : Outcome}
    (hle : t.attempt ≤ MAX_RECONNECT_ATTEMPTS) (hc : Counted t.attempt (score acts))
    (hs : as.foldl Score.act (score acts) = score acts)
    (hp : ∀ reason, o = .retry reason true → (score acts).heard = true ∨ t.attempt = 0) :
    Budget (t.onOutcome q o).1 (acts ++ (as ++ .outcome o :: (t.onOutcome q o).2)) := by
  have hscore : ∀ after, score (acts ++ (as ++ .outcome o :: after))
      = after.foldl Score.act ((score acts).act (.outcome o)) := by
    intro after
    rw [score_append, List.foldl_append, hs, List.foldl_cons]
  cases o with
  | finished | shutdown | fatal message =>
      simp only [Budget, Task.onOutcome, hscore]
      exact ⟨hc.since.trans hle, .inl (hc.dry.trans hle)⟩
  | retry reason p =>
      have hnext : (score acts).since + 1 ≤ Task.nextAttempt t.attempt p ∧
          (if (score acts).heard then 0 else (score acts).dry + 1)
            ≤ Task.nextAttempt t.attempt p := by
        have hsince := hc.since
        have hdry := hc.dry
        have hif : (if (score acts).heard then 0 else (score acts).dry + 1) ≤ (score acts).dry + 1 := by
          split <;> omega
        cases p with
        | false =>
            have hn : Task.nextAttempt t.attempt false = t.attempt + 1 := rfl
            exact ⟨by omega, by omega⟩
        | true =>
            have hn : Task.nextAttempt t.attempt true = 1 := rfl
            rcases hp reason rfl with hh | h0
            · obtain ⟨h1, h2⟩ := hc.fresh hh
              exact ⟨by omega, by omega⟩
            · exact ⟨by omega, by omega⟩
      have hact : (score acts).act (.outcome (.retry reason p))
          = { score acts with dry := if (score acts).heard then 0 else (score acts).dry + 1 } := rfl
      by_cases hmax : Task.nextAttempt t.attempt p > MAX_RECONNECT_ATTEMPTS
      · obtain ⟨message, hover⟩ := t.onOutcome_over q reason hmax
        rw [hover]
        simp only [Budget, hscore, hact]
        exact ⟨hc.since.trans hle, .inr ⟨message, by simp⟩⟩
      · rw [t.onOutcome_again q reason hmax]
        simp only [Budget, hscore, hact]
        exact ⟨Nat.le_of_not_lt hmax, hnext.1, hnext.2⟩

/-- One step that does not forgive keeps the budget. -/
theorem Budget.step {t t' : Task} {e : Event} {acts as : List Act} (h : Budget t acts)
    (hf : t.forgives e = false) (hs : t.step e = some (t', as)) : Budget t' (acts ++ as) := by
  rcases Task.step_moves hs with ⟨q, -, rfl, rfl⟩ | hmove
  · simpa [Budget] using h
  cases hmove with
  | started hp =>
      simp only [Budget, hp] at h
      obtain ⟨h0, hsc⟩ := h
      simp only [Budget, score_append, hsc, h0]
      exact ⟨Nat.zero_le _, ⟨Nat.le_refl _, Nat.le_refl _, fun hh => by cases hh⟩, rfl,
        fun o ho => by cases ho⟩
  | unstarted hp =>
      simp only [Budget, hp] at h
      simp only [Budget, score_append, h.2]
      exact ⟨Nat.zero_le _, .inl (Nat.zero_le _)⟩
  | slept hp =>
      simp only [Budget, hp] at h
      simp only [Budget, score_append]
      exact ⟨h.1, ⟨h.2.1, h.2.2, fun hh => by cases hh⟩, rfl, fun o ho => by cases ho⟩
  | orphaned hp _ =>
      simp only [Budget, hp] at h
      simp only [Budget, List.append_nil]
      exact ⟨h.2.1.trans h.1, .inl (h.2.2.trans h.1)⟩
  | buffers hp _ _ _ =>
      simp only [Budget, hp] at h
      simp only [Budget, hp, score_append]
      exact h
  | stopped hp _ | finished hp _ =>
      simp only [Budget, hp] at h
      simp only [Budget, score_append]
      exact ⟨h.2.1.trans h.1, .inl (h.2.2.trans h.1)⟩
  | dropped hp =>
      simp only [Budget, hp] at h
      simpa [Budget] using h
  | @goes c c' q as hp hm =>
      simp only [Budget, hp] at h
      obtain ⟨hle, hc, hheard, hcl⟩ := h
      obtain ⟨hmove, hcl'⟩ := hm.score (score acts)
      simp only [Budget, score_append]
      rcases hmove with ⟨hsc, hpr⟩ | ⟨hsc, hpr⟩
      · rw [hsc, hpr]
        exact ⟨hle, hc, hheard, hcl' hcl⟩
      · rw [hsc, hpr]
        exact ⟨hle, ⟨Nat.zero_le _, Nat.zero_le _, fun _ => ⟨rfl, rfl⟩⟩, rfl, hcl' hcl⟩
  | @ends c o q as hp hm =>
      simp only [Budget, hp] at h
      obtain ⟨hle, hc, hheard, hcl⟩ := h
      obtain ⟨hsc, hretry⟩ := hm.score (score acts)
      refine Budget.outcome hle hc hsc ?_
      intro reason ho
      rcases hretry reason true ho with hclose | hpr
      · have := hcl o hclose
        rw [ho] at this
        cases this
      rcases hpr rfl with hpr | ⟨m, rfl, hsel, hr⟩
      · exact .inl (hheard.trans hpr)
      · -- an error frame: either something was heard before it, or nothing is there to forgive
        cases hprog : c.progressed with
        | true => exact .inl (hheard.trans hprog)
        | false => exact .inr (by simpa [Task.forgives, hp, hsel, hprog, hr] using hf)

theorem budget_run {t : Task} {evs : List Event} {acts : List Act}
    (hr : Mealy.run Task.step Task.new evs = some (t, acts))
    (hf : Mealy.Along Task.step (fun t e => t.forgives e = false) Task.new evs) : Budget t acts :=
  Mealy.run_along (P := fun _ t acts => Budget t acts)
    (fun _ _ _ _ _ _ h hc hs => h.step hc hs) (show Budget Task.new [] from ⟨rfl, rfl⟩) hf hr

/-- **The budget is kept by every run that never forgives.**  At most `MAX_RECONNECT_ATTEMPTS`
`Reconnecting` messages are sent between responses that are no errors, and after one more fruitless
connection in a row `Fatal` has been sent and the session is over. -/
theorem reconnect_budget {t : Task} {evs : List Event} {acts : List Act}
    (hr : Mealy.run Task.step Task.new evs = some (t, acts))
    (hf : Mealy.Along Task.step (fun t e => t.forgives e = false) Task.new evs) :
    (score acts).since ≤ MAX_RECONNECT_ATTEMPTS ∧
      (MAX_RECONNECT_ATTEMPTS + 1 ≤ (score acts).dry → t.ended = true ∧ sentFatal acts) := by
  have h := budget_run hr hf
  unfold Budget at h
  cases hp : t.phase with
  | spawned => simp [hp] at h; simp [h.2, MAX_RECONNECT_ATTEMPTS]
  | connected c =>
      simp only [hp] at h
      obtain ⟨hle, hc, -, -⟩ := h
      refine ⟨hc.since.trans hle, ?_⟩
      intro hd
      have := hc.dry
      omega
  | waiting delay =>
      simp only [hp] at h
      refine ⟨h.2.1.trans h.1, ?_⟩
      intro hd
      omega
  | returned | gone =>
      simp only [hp] at h
      exact ⟨h.1, fun hd => ⟨by simp [Task.ended, hp], h.2.resolve_left (by omega)⟩⟩

/-- The network is down: five attempts, then the end. -/
theorem reconnect_budget_outage :
    ∃ t acts, Mealy.run Task.step Task.new (.runtime (.ok ()) ::
        (List.replicate 5 [.connectTimedOut, .slept]).flatten ++ [.connectTimedOut]) = some (t, acts) ∧
      t.ended = true ∧ sentFatal acts := by
  obtain ⟨t, acts, hr, hdry⟩ : ∃ t acts, Mealy.run Task.step Task.new (.runtime (.ok ()) ::
      (List.replicate 5 [.connectTimedOut, .slept]).flatten ++ [.connectTimedOut]) = some (t, acts) ∧
      MAX_RECONNECT_ATTEMPTS + 1 ≤ (score acts).dry := ⟨_, _, rfl, by decide⟩
  exact ⟨t, acts, hr, (reconnect_budget hr (by decide)).2 hdry⟩

/-- A server that answers every connection with a retryable error is reconnected to without end:
six times in a row here. -/
theorem reconnect_budget_overrun :
    ¬ ∀ (evs : List Event) (t : Task) (acts : List Act),
      Mealy.run Task.step Task.new evs = some (t, acts) →
      (score acts).since ≤ MAX_RECONNECT_ATTEMPTS ∧
        (MAX_RECONNECT_ATTEMPTS + 1 ≤ (score acts).dry → t.ended = true ∧ sentFatal acts) := by
  intro h
  have hrun := h (.runtime (.ok ()) :: (List.replicate 6 [.opened (.ok ()), .written (.ok ()), .turn,
    .incoming (.text (.ok { errorType := some "service_unavailable" })), .slept]).flatten) _ _ rfl
  exact absurd hrun.1 (by decide)

end Larmindon.Soniox
