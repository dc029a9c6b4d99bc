/-
# `Soniox.Serving` — what the socket task sends while it is only fed audio

Until `end_session` the processing thread sends nothing but audio and keeps its
end of the channel (`Task.Serving`).  Then the task never ends in silence: what
it has sent holds no last message while it runs, and exactly one, at the end,
once it is over (`Sent`, `Task.Serving.own`).
-/
import Larmindon.Soniox.Moves

namespace Larmindon.Soniox

/-- The last message a task sends. -/
def Inbound.terminal : Inbound → Bool
  | .finished | .fatal _ => true
  | _ => false

/-- Nothing but audio was ever sent to the task, and its channel is open. -/
def Queues.Serving (q : Queues) : Prop :=
  q.senderGone = false ∧ ∀ m ∈ q.out, ∃ frame, m = .audio frame

def Task.Serving (t : Task) : Prop :=
  t.queues.Serving ∧ ∀ c, t.phase = .connected c → c.point ≠ .closing .shutdown

/-- What a move of a connection does to a serving task: no last message, no shutdown. -/
def Conn.ServingMove (acts : List Act) : Verdict → Prop
  | .stay c => (∀ m ∈ messages acts, m.terminal = false) ∧ c.point ≠ .closing .shutdown
  | .ended o => (∀ m ∈ messages acts, m.terminal = false) ∧ o ≠ .shutdown

@[simp] theorem messages_nil : messages [] = [] := rfl

@[simp] theorem messages_append (as bs : List Act) : messages (as ++ bs) = messages as ++ messages bs := by
  simp [messages]

theorem messages_response (r : SonioxResponse) :
    ∀ m ∈ messages (.received r :: (forward r).map fun r => .message (.response r)),
      m.terminal = false := by
  intro m hm
  simp only [forward] at hm
  split at hm
  · simp [messages] at hm
  · simp only [messages, List.map_cons, List.map_nil, List.filterMap_cons, List.filterMap_nil,
      List.mem_singleton] at hm
    rw [hm]; rfl

theorem Queues.Serving.tail {q : Queues} {m : Outbound} {out : List Outbound} (h : q.Serving)
    (ho : q.out = m :: out) : Queues.Serving { q with out } :=
  ⟨h.1, fun m' hm' => h.2 m' (ho ▸ List.mem_cons_of_mem m hm')⟩

theorem Queues.Serving.head {q : Queues} {m : Outbound} {out : List Outbound} (h : q.Serving)
    (ho : q.out = m :: out) : ∃ frame, m = .audio frame :=
  h.2 m (ho ▸ List.mem_cons_self)

theorem Queues.Serving.release {q : Queues} (h : q.Serving) (n : ℕ) : (q.release n).Serving := h

theorem Conn.Moves.serving {c : Conn} {q q' : Queues} {e : Event} {v : Verdict} {acts : List Act}
    (hm : c.Moves q e v q' acts) (hq : q.Serving) (hc : c.point ≠ .closing .shutdown) :
    q'.Serving ∧ Conn.ServingMove acts v := by
  cases hm with
  | timedOut _ | unreachable _ | unbuildable _ | unexpected _ _ | streamLost _ | rejected _ _ _
  | failed _ _ _ => exact ⟨hq, by simp [messages], by simp⟩
  | writeFailed _ _ => exact ⟨hq, by simp [messages], by simp⟩
  | opened _ | flushed _ _ | drained _ _ | endedStream _ | pings _ | gaveUp _ _ =>
      exact ⟨hq, by simp [messages], by simp⟩
  | flush _ _ => exact ⟨hq, by simp [messages], by simp⟩
  | drainAudio _ ho | upload _ ho _ => exact ⟨(hq.tail ho).release _, by simp [messages], by simp⟩
  | drainFinish _ ho | drainShutdown _ ho | takeShutdown _ ho | takeFinish _ ho _
  | finishAgain _ ho _ =>
      obtain ⟨frame, hf⟩ := hq.head ho
      cases hf
  | tooLate _ ho _ => exact ⟨(hq.tail ho).release _, by simp [messages], hc⟩
  | @wrote u point hp =>
      refine ⟨hq, by simp [messages], ?_⟩
      cases hpt : c.point <;> simp only [hpt, Point.afterWrite, Option.some.injEq, reduceCtorEq] at hp <;>
        rw [← hp] <;> simp
  | @closed o hp =>
      refine ⟨hq, by simp, ?_⟩
      rintro rfl
      exact hc hp
  | orphaned _ _ hg =>
      rw [hq.1] at hg
      cases hg
  | lost _ _ =>
      refine ⟨hq, by simp, ?_⟩
      simp only [Conn.lost]
      split <;> simp
  | ignored _ _ => exact ⟨hq, by simp, hc⟩
  | answered _ _ _ => exact ⟨hq, messages_response _, hc⟩
  | dismissed _ _ _ => exact ⟨hq, messages_response _, by simp⟩

/-- What a task has sent: nothing final while it runs, and one last message once it is over. -/
def Sent (ended : Bool) (ms : List Inbound) : Prop :=
  match ended with
  | false => ∀ m ∈ ms, m.terminal = false
  | true => ∃ before last, ms = before ++ [last] ∧ last.terminal = true ∧
      ∀ m ∈ before, m.terminal = false

/-- Whatever comes before another message is not the last one. -/
theorem Sent.not_terminal {ended : Bool} {xs ys : List Inbound} {m : Inbound}
    (h : Sent ended (xs ++ m :: ys)) : ∀ x ∈ xs, x.terminal = false := by
  intro x hx
  cases ended with
  | false => exact h x (List.mem_append_left _ hx)
  | true =>
      obtain ⟨before, last, heq, -, hb⟩ := h
      refine hb x ?_
      have hlast : xs ++ (m :: ys).dropLast = before := by
        have := congrArg List.dropLast heq
        rwa [List.dropLast_concat, List.dropLast_append_of_ne_nil (List.cons_ne_nil m ys)] at this
      exact hlast ▸ List.mem_append_left _ hx

theorem Sent.append {ended : Bool} {ms ns : List Inbound} (h : Sent false ms) (h' : Sent ended ns) :
    Sent ended (ms ++ ns) := by
  cases ended with
  | false =>
      intro m hm
      rcases List.mem_append.mp hm with hm | hm
      · exact h m hm
      · exact h' m hm
  | true =>
      obtain ⟨before, last, rfl, hl, hb⟩ := h'
      refine ⟨ms ++ before, last, by rw [List.append_assoc], hl, ?_⟩
      intro m hm
      rcases List.mem_append.mp hm with hm | hm
      · exact h m hm
      · exact hb m hm

/-- One move of a serving task that is not over: it serves on, and what it sends ends with a last
message exactly when it is over now. -/
theorem Task.Serving.own {t t' : Task} {e : Event} {acts : List Act} (h : t.Serving)
    (ho : t.ended = false) (hs : t.own e = some (t', acts)) :
    t'.Serving ∧ Sent t'.ended (messages acts) := by
  obtain ⟨hq, hc⟩ := h
  cases Task.own_moves hs with
  | started _ | slept _ =>
      exact ⟨⟨hq, fun c hc => by cases hc; simp⟩, by simp [Sent, ended, messages]⟩
  | unstarted _ =>
      refine ⟨⟨hq, fun c hc => by cases hc⟩, [], _, rfl, rfl, by simp⟩
  | orphaned _ hg =>
      rw [hq.1] at hg
      cases hg
  | @buffers delay frame out q hp ho' hout hgone =>
      have hq' := hq.tail ho'
      have hover : ended { t with queues := q } = false := ho
      refine ⟨⟨⟨hgone ▸ hq'.1, hout ▸ hq'.2⟩, fun c hc' => hc c hc'⟩, ?_⟩
      rw [hover]
      simp [Sent, messages]
  | stopped _ ho' | finished _ ho' =>
      obtain ⟨frame, hf⟩ := hq.head ho'
      cases hf
  | goes hp hm =>
      obtain ⟨hq', hmsg, hpoint⟩ := hm.serving hq (hc _ hp)
      refine ⟨⟨hq', fun c hc' => by cases hc'; exact hpoint⟩, ?_⟩
      simpa [ended, Sent] using hmsg
  | @ends c o q acts hp hm =>
      obtain ⟨hq', hmsg, hno⟩ := hm.serving hq (hc _ hp)
      have hsplit : messages (acts ++ .outcome o :: (t.onOutcome q o).2)
          = messages acts ++ messages (t.onOutcome q o).2 := by
        rw [messages_append]; rfl
      rw [hsplit]
      suffices hout : (t.onOutcome q o).1.Serving ∧
          Sent (t.onOutcome q o).1.ended (messages (t.onOutcome q o).2) from
        ⟨hout.1, Sent.append hmsg hout.2⟩
      cases o with
      | shutdown => exact absurd rfl hno
      | finished => exact ⟨⟨hq', fun c hc => by cases hc⟩, [], _, rfl, rfl, by simp⟩
      | fatal message => exact ⟨⟨hq', fun c hc => by cases hc⟩, [], _, rfl, rfl, by simp⟩
      | retry reason p =>
          by_cases hmax : nextAttempt t.attempt p > MAX_RECONNECT_ATTEMPTS
          · obtain ⟨message, hover⟩ := t.onOutcome_over q reason hmax
            rw [hover]
            exact ⟨⟨hq', fun c hc => by cases hc⟩, [], _, rfl, rfl, by simp⟩
          · rw [t.onOutcome_again q reason hmax]
            exact ⟨⟨hq', fun c hc => by cases hc⟩, by simp [ended, Sent, messages, Inbound.terminal]⟩
  | dropped hp => simp [ended, hp] at ho

end Larmindon.Soniox
