/-
# `Soniox.FatalEnd` — when a fatal end strands text

A call returns `Fatal` for three reasons.  A message of the socket task says so:
it is folded with a `finish`, so nothing is open.  The client is missing: it
cannot be, only `end_session` takes it.  Or a send has failed because the task is
gone, and no better reason is queued.  Then the last thing the task has said was
`Finished`, and `fold` does nothing on that: whatever was open or pending stays.

`Served` is the invariant of the two threads.  Runs in which every `Finished` is
folded on an accumulator that is `Flushed` lose nothing (`fatal_flushed`); in one
that does not, the segment shown is never made final (`fatal_strands`).
-/
import Larmindon.Soniox.Serving
import Larmindon.Soniox.World

namespace Larmindon.Soniox

open Journal

/-- Nothing is open and nothing is pending. -/
def Accumulator.Flushed (a : Accumulator) : Prop := a.openIds = [] ∧ a.pending = ""

instance (a : Accumulator) : Decidable a.Flushed := inferInstanceAs (Decidable (_ ∧ _))

/-- An unsolicited `Finished` is about to be folded, and something is open or pending. -/
def World.strands {Sample : Type} (w : World) (m : Move Sample) : Bool :=
  match w.call, m with
  | .folding (.finished :: _) _ _, .turn _ => !decide w.backend.accumulator.Flushed
  | _, _ => false

namespace Call

def rest : Call → List Inbound
  | .folding rest _ _ => rest
  | _ => []

def updates : Call → List TranscriptUpdate
  | .folding _ updates _ => updates
  | _ => []

/-- The send of this call failed because the task is gone. -/
def failed : Call → Bool
  | .undoing _ => true
  | .draining sendError | .folding _ _ sendError => sendError.any AsrError.isFatal
  | _ => false

end Call

/-- Some call returned `Fatal`. -/
def Failed (results : List (Except AsrError (List TranscriptUpdate))) : Prop :=
  ∃ message, .error (.fatal message) ∈ results

/-- Every run without a stranding step keeps this; `folded` are the messages folded so far. -/
structure Served (n₀ : SegmentIds) (w : World)
    (results : List (Except AsrError (List TranscriptUpdate))) (folded : List Inbound) : Prop where
  serving : w.task.Serving
  client : w.backend.client.isSome = true
  screen : Screen n₀ (w.backend.accumulator, w.ids) (delivered results ++ w.call.updates)
  sent : Sent w.task.ended (folded ++ (w.call.rest ++ w.inbox))
  flushed : (∃ m ∈ folded, m.terminal = true) → w.backend.accumulator.Flushed
  owed : w.backend.pendingFatal.isSome = true → ∃ m ∈ folded, m.terminal = true
  /-- A send fails only when the task is gone, so after the drain nothing more can arrive. -/
  failed : w.call.failed = true → w.task.phase = .gone
  drained : ∀ rest updates message,
    w.call = .folding rest updates (some (.fatal message)) → w.inbox = []
  fatal : Failed results → w.call = .ended ∧ w.backend.accumulator.Flushed

/-- What the invariant reads of a world, beside the call in progress and where the task stands. -/
def World.lasting (w : World) :
    Bool × Option SonioxClient × Accumulator × Option String × SegmentIds × List Inbound :=
  (w.task.ended, w.backend.client, w.backend.accumulator, w.backend.pendingFatal, w.ids, w.inbox)

namespace Call

/-- Nothing drained is waiting to be folded or returned. -/
def Empty : Call → Prop
  | .folding _ _ _ | .ended => False
  | _ => True

theorem Empty.rest {c : Call} (h : c.Empty) : c.rest = [] := by
  cases c with
  | folding _ _ _ => cases h
  | _ => rfl

theorem Empty.updates {c : Call} (h : c.Empty) : c.updates = [] := by
  cases c with
  | folding _ _ _ => cases h
  | _ => rfl

end Call

namespace Served

variable {n₀ : SegmentIds} {w : World} {results : List (Except AsrError (List TranscriptUpdate))}
  {folded : List Inbound}

theorem not_failed (h : Served n₀ w results folded) (hc : w.call ≠ .ended) : ¬ Failed results := by
  intro hf
  exact hc (h.fatal hf).1

/-- The call goes on, and of what the invariant reads only the task and the call may change. -/
theorem goOn {w' : World} (h : Served n₀ w results folded) (he : w.call.Empty) (he' : w'.call.Empty)
    (htask : w'.task.Serving) (hlasting : w'.lasting = w.lasting)
    (hfail : w'.call.failed = true → w'.task.phase = .gone) : Served n₀ w' results folded := by
  simp only [World.lasting, Prod.mk.injEq] at hlasting
  obtain ⟨hended, hclient, hacc, howed, hids, hinbox⟩ := hlasting
  have hscreen := h.screen
  have hsent := h.sent
  rw [he.updates] at hscreen
  rw [he.rest] at hsent
  refine ⟨htask, hclient ▸ h.client, ?_, ?_, ?_, ?_, hfail, ?_, ?_⟩
  · rw [hacc, hids, he'.updates]
    exact hscreen
  · rw [hended, he'.rest, hinbox]
    exact hsent
  · intro ht
    rw [hacc]
    exact h.flushed ht
  · intro ho
    rw [howed] at ho
    exact h.owed ho
  · intro rest updates message hc
    rw [hc] at he'
    cases he'
  · intro hf
    have hc := (h.fatal hf).1
    rw [hc] at he
    cases he

/-- The socket task moves.  It cannot when a send has just failed: it is gone. -/
theorem task_move (h : Served n₀ w results folded) {e : Event} {t : Task} {acts : List Act}
    (hs : w.task.own e = some (t, acts)) :
    Served n₀ { w with task := t, inbox := w.inbox ++ messages acts } results folded := by
  have hgone : w.task.phase ≠ .gone := by
    intro hp
    simp [Task.own, hp] at hs
  have hfail : w.call.failed ≠ true := by
    intro hf
    exact hgone (h.failed hf)
  cases ho : w.task.ended with
  | false =>
      obtain ⟨hserving, hsent⟩ := h.serving.own ho hs
      have hold : Sent false (folded ++ (w.call.rest ++ w.inbox)) := ho ▸ h.sent
      refine ⟨hserving, h.client, h.screen, ?_, h.flushed, h.owed, ?_, ?_, h.fatal⟩
      · show Sent t.ended (folded ++ (w.call.rest ++ (w.inbox ++ messages acts)))
        rw [← List.append_assoc, ← List.append_assoc, List.append_assoc folded]
        exact hold.append hsent
      · intro hf
        exact absurd hf hfail
      · intro rest updates message hc
        exact absurd (show w.call.failed = true by rw [hc]; rfl) hfail
  | true =>
      -- all that is left is to drop the channels
      have hret : w.task.phase = .returned := by
        have : w.task.phase = .returned ∨ w.task.phase = .gone := by simpa [Task.ended] using ho
        exact this.resolve_right hgone
      have hm := Task.own_moves hs
      cases hm with
      | dropped _ =>
          refine ⟨⟨h.serving.1, ?_⟩, h.client, h.screen, ?_, h.flushed, h.owed, ?_, ?_, h.fatal⟩
          · intro c hc
            cases hc
          · show Sent true (folded ++ (w.call.rest ++ (w.inbox ++ [])))
            rw [List.append_nil]
            exact ho ▸ h.sent
          · intro hf
            exact absurd hf hfail
          · intro rest updates message hc
            exact absurd (show w.call.failed = true by rw [hc]; rfl) hfail
      | started hp | unstarted hp | slept hp | orphaned hp _ | buffers hp _ _ _ | stopped hp _
      | finished hp _ | goes hp _ | ends hp _ =>
          rw [hret] at hp
          cases hp

/-- One message is folded. -/
theorem fold_one (h : Served n₀ w results folded) {m : Inbound} {rest : List Inbound}
    {updates : List TranscriptUpdate} {sendError : Option AsrError}
    (hcall : w.call = .folding (m :: rest) updates sendError)
    (hstrands : m = .finished → w.backend.accumulator.Flushed) (now : Instant) :
    ∃ b' ids' us, SonioxBackend.foldMessage (w.backend, w.ids) (now, m) = some ((b', ids'), us) ∧
      Served n₀ { w with
        backend := b', ids := ids', call := .folding rest (updates ++ us) sendError }
        results (folded ++ [m]) := by
  have hscreen := h.screen
  rw [hcall] at hscreen
  obtain ⟨b', ids', us, hf, hm, hs⟩ := foldMessage_spec hscreen now m
  have hsent := h.sent
  rw [hcall] at hsent
  -- something comes after what was folded before, so no last message is in it
  have hnone : ¬ ∃ x ∈ folded, x.terminal = true := by
    rintro ⟨x, hx, ht⟩
    rw [Sent.not_terminal hsent x hx] at ht
    cases ht
  have hlast : (∃ x ∈ folded ++ [m], x.terminal = true) → m.terminal = true := by
    rintro ⟨x, hx, ht⟩
    rcases List.mem_append.mp hx with hx | hx
    · exact absurd ⟨x, hx, ht⟩ hnone
    · exact List.mem_singleton.mp hx ▸ ht
  have hnew : Accumulator.new.Flushed := ⟨rfl, rfl⟩
  have hclient : b'.client = w.backend.client := by
    cases hm with
    | response _ _ hc _ | closes _ _ hc _ => exact hc
    | finished => rfl
  refine ⟨b', ids', us, hf, h.serving, hclient ▸ h.client, ?_, ?_, ?_, ?_, ?_, ?_, ?_⟩
  · show Screen n₀ _ (delivered results ++ (updates ++ us))
    rw [← List.append_assoc]
    exact hs
  · show Sent _ (folded ++ [m] ++ (rest ++ w.inbox))
    rw [List.append_assoc]
    exact hsent
  · intro ht
    have hmt := hlast ht
    cases hm with
    | response _ _ _ _ => cases hmt
    | finished => exact hstrands rfl
    | closes _ ha _ _ => exact ha ▸ hnew
  · intro ho
    cases hm with
    | response _ _ _ hp => exact absurd (h.owed (hp ▸ ho)) hnone
    | finished => exact absurd (h.owed ho) hnone
    | closes _ _ _ hp =>
        rcases hp with hp | ⟨message, rfl⟩
        · exact absurd (h.owed (hp ▸ ho)) hnone
        · exact ⟨.fatal message, by simp, rfl⟩
  · intro hfl
    refine h.failed ?_
    rw [hcall]
    exact hfl
  · intro rest' updates' message hc
    cases hc
    exact h.drained (m :: rest) updates message hcall
  · intro hfat
    exact absurd hfat (h.not_failed (by rw [hcall]; simp))

/-- A call that returns text or a transient status goes back to idle. -/
theorem to_idle (h : Served n₀ w results folded) {updates : List TranscriptUpdate}
    {sendError : Option AsrError} (hcall : w.call = .folding [] updates sendError)
    {b : SonioxBackend} {r : Except AsrError (List TranscriptUpdate)}
    (hc : b.client = w.backend.client) (ha : b.accumulator = w.backend.accumulator)
    (hp : b.pendingFatal.isSome = true → w.backend.pendingFatal.isSome = true)
    (hr : ∀ message, r ≠ .error (.fatal message)) (hd : delivered [r] = updates) :
    Served n₀ { w with backend := b, call := .idle } (results ++ [r]) folded := by
  have hnf : ¬ Failed results := h.not_failed (by rw [hcall]; simp)
  have hscreen := h.screen
  have hsent := h.sent
  rw [hcall] at hscreen hsent
  refine ⟨h.serving, hc ▸ h.client, ?_, hsent, ?_, ?_, by simp [Call.failed], by simp, ?_⟩
  · show Screen n₀ (b.accumulator, w.ids) (delivered (results ++ [r]) ++ [])
    rw [delivered_append, hd, List.append_nil, ha]
    exact hscreen
  · intro ht
    exact ha ▸ h.flushed ht
  · intro ho
    exact h.owed (hp ho)
  · rintro ⟨message, hmem⟩
    rcases List.mem_append.mp hmem with hmem | hmem
    · exact absurd ⟨message, hmem⟩ hnf
    · exact absurd (List.mem_singleton.mp hmem).symm (hr message)

/-- One that returns `Fatal` is the last, and finds the accumulator flushed: a last message was folded
before it. -/
theorem to_ended (h : Served n₀ w results folded) {sendError : Option AsrError}
    (hcall : w.call = .folding [] [] sendError) {b : SonioxBackend} (message : String)
    (hc : b.client = w.backend.client) (ha : b.accumulator = w.backend.accumulator)
    (hp : b.pendingFatal.isSome = true → w.backend.pendingFatal.isSome = true)
    (ht : ∃ m ∈ folded, m.terminal = true) :
    Served n₀ { w with backend := b, call := .ended } (results ++ [.error (.fatal message)])
      folded := by
  have hscreen := h.screen
  have hsent := h.sent
  rw [hcall] at hscreen hsent
  have hflushed : b.accumulator.Flushed := ha ▸ h.flushed ht
  refine ⟨h.serving, hc ▸ h.client, ?_, hsent, ?_, ?_, by simp [Call.failed], by simp, ?_⟩
  · show Screen n₀ (b.accumulator, w.ids) (delivered (results ++ [.error (.fatal message)]) ++ [])
    rw [delivered_append, List.append_nil, ha]
    exact hscreen
  · intro _
    exact hflushed
  · intro ho
    exact h.owed (hp ho)
  · intro _
    exact ⟨rfl, hflushed⟩

/-- When a send has failed the task is gone, and once all is folded so is its last message. -/
theorem last_folded (h : Served n₀ w results folded) {updates : List TranscriptUpdate}
    {message : String} (hcall : w.call = .folding [] updates (some (.fatal message))) :
    ∃ m ∈ folded, m.terminal = true := by
  have hgone : w.task.phase = .gone := h.failed (by rw [hcall]; rfl)
  have hended : w.task.ended = true := by simp [Task.ended, hgone]
  have hsent := h.sent
  rw [hcall, hended, h.drained [] updates message hcall, Call.rest, List.append_nil,
    List.append_nil] at hsent
  obtain ⟨before, last, heq, hl, -⟩ := hsent
  refine ⟨last, ?_, hl⟩
  rw [heq]
  exact List.mem_append_right _ List.mem_cons_self

/-- Everything drained has been folded, and the call returns. -/
theorem return_call (h : Served n₀ w results folded) {updates : List TranscriptUpdate}
    {sendError : Option AsrError} (hcall : w.call = .folding [] updates sendError) :
    Served n₀ (w.finishCall (w.backend.deliver updates sendError)).1
      (results ++ (w.finishCall (w.backend.deliver updates sendError)).2) folded := by
  cases updates with
  | cons u us =>
      have hd : w.backend.deliver (u :: us) sendError = (w.backend, .ok (u :: us)) := by
        simp [SonioxBackend.deliver]
      rw [hd]
      exact h.to_idle hcall rfl rfl id (by simp) (by simp [delivered])
  | nil =>
      cases hpf : w.backend.pendingFatal with
      | some message =>
          have hd : w.backend.deliver [] sendError
              = ({ w.backend with pendingFatal := none }, .error (.fatal message)) := by
            simp [SonioxBackend.deliver, hpf]
          rw [hd]
          exact h.to_ended hcall message rfl rfl (by simp) (h.owed (by rw [hpf]; rfl))
      | none =>
          cases hpt : w.backend.pendingTransient with
          | some message =>
              have hd : w.backend.deliver [] sendError
                  = ({ w.backend with pendingTransient := none }, .error (.transient message)) := by
                simp [SonioxBackend.deliver, hpf, hpt]
              rw [hd]
              exact h.to_idle hcall rfl rfl id (by simp) rfl
          | none =>
              cases sendError with
              | none =>
                  have hd : w.backend.deliver [] none = (w.backend, .ok []) := by
                    simp [SonioxBackend.deliver, hpf, hpt]
                  rw [hd]
                  exact h.to_idle hcall rfl rfl id (by simp) rfl
              | some error =>
                  have hd : w.backend.deliver [] (some error) = (w.backend, .error error) := by
                    simp [SonioxBackend.deliver, hpf, hpt]
                  rw [hd]
                  cases error with
                  | transient message =>
                      exact h.to_idle hcall rfl rfl id (by simp) rfl
                  | fatal message =>
                      exact h.to_ended hcall message rfl rfl id (h.last_folded hcall)

/-- What `drain_inbound` takes waits to be folded. -/
theorem drain (h : Served n₀ w results folded) {sendError : Option AsrError}
    (hcall : w.call = .draining sendError) :
    Served n₀ { w with inbox := [], call := .folding w.inbox [] sendError } results folded := by
  have hscreen := h.screen
  have hsent := h.sent
  have hfail := h.failed
  rw [hcall] at hscreen hsent hfail
  refine ⟨h.serving, h.client, hscreen, ?_, h.flushed, h.owed, hfail, ?_, ?_⟩
  · show Sent _ (folded ++ (w.inbox ++ []))
    rw [List.append_nil]
    exact hsent
  · intro rest updates message _
    rfl
  · intro hf
    exact absurd hf (h.not_failed (by rw [hcall]; simp))

theorem begin_process (h : Served n₀ w results folded) (hcall : w.call = .idle) :
    ∃ w', w.beginProcess = (w', []) ∧ Served n₀ w' results folded := by
  have he : w.call.Empty := by rw [hcall]; trivial
  unfold World.beginProcess
  split
  · exact ⟨_, rfl, h.goOn he trivial h.serving rfl (by simp [Call.failed])⟩
  · obtain ⟨c, hc⟩ := Option.isSome_iff_exists.mp h.client
    dsimp only
    rw [hc]
    dsimp only
    split
    · exact ⟨_, rfl, h.goOn he trivial h.serving (by simp [World.lasting, hc])
        (by simp [Call.failed, AsrError.isFatal])⟩
    · exact ⟨_, rfl, h.goOn he trivial h.serving (by simp [World.lasting, hc])
        (by simp [Call.failed])⟩

/-- One step of a call that does not strand. -/
theorem turn (h : Served n₀ w results folded) {now : Instant} {w' : World}
    {rs : List (Except AsrError (List TranscriptUpdate))} (hs : w.turn now = some (w', rs))
    (hstrands : ∀ rest updates sendError, w.call = .folding (.finished :: rest) updates sendError →
      w.backend.accumulator.Flushed) :
    ∃ folded', Served n₀ w' (results ++ rs) folded' := by
  cases hcall : w.call with
  | idle | ended => simp [World.turn, hcall] at hs
  | loading frame =>
      have he : w.call.Empty := by rw [hcall]; trivial
      simp only [World.turn, hcall] at hs
      split at hs
      · simp only [Option.some.injEq, Prod.mk.injEq] at hs
        obtain ⟨rfl, rfl⟩ := hs
        rw [List.append_nil]
        exact ⟨folded, h.goOn he trivial h.serving rfl
          (by simp [Call.failed, AsrError.isFatal])⟩
      · simp only [Option.some.injEq, Prod.mk.injEq] at hs
        obtain ⟨rfl, rfl⟩ := hs
        rw [List.append_nil]
        exact ⟨folded, h.goOn he trivial h.serving rfl (by simp [Call.failed])⟩
  | counting frame =>
      have he : w.call.Empty := by rw [hcall]; trivial
      simp only [World.turn, hcall, Task.sender, Option.map_some, Option.some.injEq,
        Prod.mk.injEq] at hs
      obtain ⟨rfl, rfl⟩ := hs
      rw [List.append_nil]
      exact ⟨folded, h.goOn he trivial h.serving rfl (by simp [Call.failed])⟩
  | sending frame =>
      have he : w.call.Empty := by rw [hcall]; trivial
      rcases Decidable.em (w.task.phase = .gone ∨ w.task.queues.senderGone = true) with hg | hg
      · simp only [World.turn, hcall, Task.sender, if_pos hg, Option.some.injEq, Prod.mk.injEq] at hs
        obtain ⟨rfl, rfl⟩ := hs
        rw [List.append_nil]
        refine ⟨folded, h.goOn he trivial h.serving rfl ?_⟩
        intro _
        rcases hg with hg | hg
        · exact hg
        · rw [h.serving.1.1] at hg
          cases hg
      · simp only [World.turn, hcall, Task.sender, if_neg hg, Option.some.injEq, Prod.mk.injEq] at hs
        obtain ⟨rfl, rfl⟩ := hs
        rw [List.append_nil]
        refine ⟨folded, h.goOn he trivial ⟨⟨h.serving.1.1, ?_⟩, h.serving.2⟩ rfl
          (by simp [Call.failed])⟩
        intro m hm
        rcases List.mem_append.mp hm with hm | hm
        · exact h.serving.1.2 m hm
        · exact ⟨frame, List.mem_singleton.mp hm⟩
  | undoing frame =>
      have he : w.call.Empty := by rw [hcall]; trivial
      have hgone : w.task.phase = .gone := h.failed (by rw [hcall]; rfl)
      simp only [World.turn, hcall, Task.sender, Option.map_some, Option.some.injEq,
        Prod.mk.injEq] at hs
      obtain ⟨rfl, rfl⟩ := hs
      rw [List.append_nil]
      refine ⟨folded, h.goOn he trivial h.serving rfl ?_⟩
      intro _
      exact hgone
  | draining sendError =>
      obtain ⟨c, hc⟩ := Option.isSome_iff_exists.mp h.client
      simp only [World.turn, hcall, hc, Option.some.injEq, Prod.mk.injEq] at hs
      obtain ⟨rfl, rfl⟩ := hs
      rw [List.append_nil]
      exact ⟨folded, h.drain hcall⟩
  | folding rest updates sendError =>
      cases rest with
      | nil =>
          simp only [World.turn, hcall, Option.some.injEq] at hs
          have hr := h.return_call hcall
          rw [hs] at hr
          exact ⟨folded, hr⟩
      | cons m rest =>
          obtain ⟨b', ids', us, hf, hserved⟩ := h.fold_one hcall
            (fun hm => hstrands rest updates sendError (hm ▸ hcall)) now
          simp only [World.turn, hcall, hf, Option.map_some, Option.some.injEq, Prod.mk.injEq] at hs
          obtain ⟨rfl, rfl⟩ := hs
          rw [List.append_nil]
          exact ⟨folded ++ [m], hserved⟩

/-- One step of either thread that does not strand. -/
theorem step {Sample : Type} {quantize : Sample → Int16} (h : Served n₀ w results folded)
    {m : Move Sample} {w' : World} {rs : List (Except AsrError (List TranscriptUpdate))}
    (hc : w.strands m = false) (hs : w.step quantize m = some (w', rs)) :
    ∃ folded', Served n₀ w' (results ++ rs) folded' := by
  cases m with
  | task e =>
      cases ho : w.task.own e with
      | none => simp [World.step, ho] at hs
      | some res =>
          simp only [World.step, ho, Option.map_some, Option.some.injEq, Prod.mk.injEq] at hs
          obtain ⟨rfl, rfl⟩ := hs
          rw [List.append_nil]
          exact ⟨folded, h.task_move ho⟩
  | push samples =>
      cases hcall : w.call with
      | idle =>
          have he : w.call.Empty := by rw [hcall]; trivial
          simp only [World.step, hcall, Option.some.injEq, Prod.mk.injEq] at hs
          obtain ⟨rfl, rfl⟩ := hs
          rw [List.append_nil]
          exact ⟨folded, h.goOn he trivial h.serving rfl (by simp [Call.failed])⟩
      | _ => simp [World.step, hcall] at hs
  | process =>
      cases hcall : w.call with
      | idle =>
          obtain ⟨w₁, hb, hserved⟩ := h.begin_process hcall
          simp only [World.step, hcall, hb, Option.some.injEq, Prod.mk.injEq] at hs
          obtain ⟨rfl, rfl⟩ := hs
          rw [List.append_nil]
          exact ⟨folded, hserved⟩
      | _ => simp [World.step, hcall] at hs
  | poll =>
      cases hcall : w.call with
      | idle =>
          have he : w.call.Empty := by rw [hcall]; trivial
          simp only [World.step, hcall, Option.some.injEq, Prod.mk.injEq] at hs
          obtain ⟨rfl, rfl⟩ := hs
          rw [List.append_nil]
          exact ⟨folded, h.goOn he trivial h.serving rfl (by simp [Call.failed])⟩
      | _ => simp [World.step, hcall] at hs
  | turn now =>
      refine h.turn hs ?_
      intro rest updates sendError hcall
      simpa [World.strands, hcall] using hc

end Served

theorem served_new (b : SonioxBackend) (n₀ : SegmentIds) : Served n₀ (World.new b n₀) [] [] where
  serving := ⟨⟨rfl, fun _ hm => absurd hm List.not_mem_nil⟩, fun _ hc => by cases hc⟩
  client := rfl
  screen := screen_new n₀
  sent := fun _ hm => absurd hm List.not_mem_nil
  flushed := fun ⟨_, hm, _⟩ => absurd hm List.not_mem_nil
  owed := fun ho => by cases ho
  failed := fun hf => by cases hf
  drained := fun _ _ _ hc => by cases hc
  fatal := fun ⟨_, hm⟩ => absurd hm List.not_mem_nil

theorem served_run {Sample : Type} {quantize : Sample → Int16} {b : SonioxBackend} {n₀ : SegmentIds}
    {moves : List (Move Sample)} {w : World}
    {results : List (Except AsrError (List TranscriptUpdate))}
    (hr : Mealy.run (World.step quantize) (World.new b n₀) moves = some (w, results))
    (hc : Mealy.Along (World.step quantize) (fun w m => w.strands m = false) (World.new b n₀) moves) :
    ∃ folded, Served n₀ w results folded := by
  apply Mealy.run_along (P := fun _ w results => ∃ folded, Served n₀ w results folded) ?_
    ⟨[], served_new b n₀⟩ hc hr
  rintro is w₁ results₁ m w₂ rs ⟨folded, h⟩ hcond hs
  exact h.step hcond hs

/-- **Nothing is lost on a fatal end** of a run in which every `Finished` is folded on a flushed
accumulator: when a call has returned `Fatal`, every segment delivered has been delivered final, and
nothing is pending. -/
theorem fatal_flushed {Sample : Type} {quantize : Sample → Int16} {b : SonioxBackend}
    {n₀ : SegmentIds} {moves : List (Move Sample)} {w : World} {message : String}
    {results : List (Except AsrError (List TranscriptUpdate))}
    (hr : Mealy.run (World.step quantize) (World.new b n₀) moves = some (w, results))
    (hc : Mealy.Along (World.step quantize) (fun w m => w.strands m = false) (World.new b n₀) moves)
    (hf : .error (.fatal message) ∈ results) :
    (∀ u ∈ delivered results, ∃ u' ∈ delivered results,
      u'.segmentId = u.segmentId ∧ u'.isFinal = true) ∧
    w.backend.accumulator.pending = "" := by
  obtain ⟨folded, h⟩ := served_run hr hc
  obtain ⟨hended, hopen, hpending⟩ := h.fatal ⟨message, hf⟩
  refine ⟨?_, hpending⟩
  intro u hu
  have hw := h.screen.written
  rw [hended, show Call.ended.updates = [] from rfl, List.append_nil] at hw
  have hkey : u.segmentId ∈ keys (journal (delivered results)) :=
    List.mem_map_of_mem (f := Entry.key) (List.mem_map_of_mem (f := TranscriptUpdate.entry) hu)
  have hlive : u.segmentId ∉ ((w.backend.accumulator, w.ids).1.board w.ids).live := by
    show u.segmentId ∉ w.backend.accumulator.openIds
    rw [hopen]; exact List.not_mem_nil
  have hone := hw.closed_once hkey hlive List.not_mem_nil
  have hpos : 0 < closings u.segmentId (journal (delivered results)) := by rw [hone]; exact Nat.one_pos
  obtain ⟨e, he, hclosed⟩ := List.countP_pos_iff.mp hpos
  obtain ⟨u', hu', rfl⟩ := List.mem_map.mp he
  simp only [Bool.and_eq_true, beq_iff_eq] at hclosed
  exact ⟨u', hu', hclosed.2, hclosed.1⟩

/-- The key is rejected after some text: the text is delivered final before the end is reported. -/
theorem fatal_flushed_rejected :
    ∃ w results, Mealy.run (World.step (id : Int16 → Int16)) (World.new .new 1)
        [.task (.runtime (.ok ())), .task (.opened (.ok ())), .task (.written (.ok ())), .task .turn,
          .task (.incoming (.text (.ok { tokens := [⟨"Hi", true, none⟩] }))),
          .task (.incoming (.text (.ok { errorType := some "unauthenticated" }))),
          .poll, .turn 0, .turn 0, .turn 0, .turn 0, .poll, .turn 0, .turn 0] = some (w, results) ∧
      (∀ u ∈ delivered results, ∃ u' ∈ delivered results,
        u'.segmentId = u.segmentId ∧ u'.isFinal = true) ∧
      w.backend.accumulator.pending = "" := by
  let moves : List (Move Int16) :=
    [.task (.runtime (.ok ())), .task (.opened (.ok ())), .task (.written (.ok ())), .task .turn,
      .task (.incoming (.text (.ok { tokens := [⟨"Hi", true, none⟩] }))),
      .task (.incoming (.text (.ok { errorType := some "unauthenticated" }))),
      .poll, .turn 0, .turn 0, .turn 0, .turn 0, .poll, .turn 0, .turn 0]
  have hresults : (Mealy.run (World.step id) (World.new .new 1) moves).map Prod.snd
      = some [.ok [⟨1, false, "Hi", none⟩, ⟨1, true, "Hi", none⟩],
          .error (.fatal "Soniox rejected the session: unauthenticated (unauthenticated)")] := by
    decide +kernel
  have halong : Mealy.Along (World.step id) (fun w m => w.strands m = false) (World.new .new 1)
      moves := by
    decide +kernel
  obtain ⟨⟨w, results⟩, hrun, rfl⟩ := Option.map_eq_some_iff.mp hresults
  exact ⟨w, _, hrun, fatal_flushed hrun halong
    (List.mem_cons_of_mem _ List.mem_cons_self)⟩

/-- The server ends the session by itself with a guess on screen.  The next frame cannot be sent, the
engine gives up, and segment 1 was never made final. -/
theorem fatal_strands :
    ¬ ∀ (moves : List (Move Int16)) (w : World) (message : String)
      (results : List (Except AsrError (List TranscriptUpdate))),
      Mealy.run (World.step id) (World.new .new 1) moves = some (w, results) →
      .error (.fatal message) ∈ results →
      (∀ u ∈ delivered results, ∃ u' ∈ delivered results,
        u'.segmentId = u.segmentId ∧ u'.isFinal = true) ∧
      w.backend.accumulator.pending = "" := by
  intro h
  let moves : List (Move Int16) :=
    [.task (.runtime (.ok ())), .task (.opened (.ok ())), .task (.written (.ok ())), .task .turn,
      .task (.incoming (.text (.ok { tokens := [⟨"hello", false, none⟩], finished := true }))),
      .task .closed, .task .dropped,
      .push [1], .process, .turn 0, .turn 0, .turn 0, .turn 0, .turn 0, .turn 0, .turn 0, .turn 0,
      .push [1], .process, .turn 0, .turn 0, .turn 0, .turn 0, .turn 0, .turn 0]
  have hresults : (Mealy.run (World.step id) (World.new .new 1) moves).map Prod.snd
      = some [.ok [⟨1, false, "hello", none⟩], .error (.fatal "The Soniox connection has ended")] := by
    decide +kernel
  obtain ⟨⟨w, results⟩, hrun, rfl⟩ := Option.map_eq_some_iff.mp hresults
  obtain ⟨hfinal, -⟩ := h moves w "The Soniox connection has ended" _ hrun (by simp)
  obtain ⟨u', hu', -, hf⟩ := hfinal ⟨1, false, "hello", none⟩ (by simp [delivered])
  have hu : u' = ⟨1, false, "hello", none⟩ := by simpa [delivered] using hu'
  rw [hu] at hf
  cases hf

end Larmindon.Soniox
