/-
# `Soniox.Calls` — what the calls of a session return

`process` and `poll` drain what the socket task has sent, fold it, and return
either text or one status.  Here a call is taken as a whole: what is drained and
what `send_audio` answers come from outside, anything is possible.

    hear        what a message makes of the accumulator alone; every fold is a
                run of it, whatever else the backend holds   (`fold_hear`)
    Owes        a status at least as bad is kept for a later call
    Answered    what a call does, for all that follows

Text is never lost: what the calls return is what the folds emit.  A status that
was drained is kept until a call has no text to return.  The failure of a send
is kept nowhere: a call that has text to return, or another status owed, drops
it, and it comes out only where neither is the case (`statuses_returned`).
-/
import Larmindon.Soniox.Segments
import Larmindon.Soniox.World

namespace Larmindon.Soniox

/-! ## A call as a whole -/

/-- What one call drained, how its send failed, what was folded, and what it returned. -/
structure Report where
  drained : List Inbound
  sendError : Option AsrError
  updates : List TranscriptUpdate
  result : Except AsrError (List TranscriptUpdate)

namespace SonioxBackend

/-- `drain_inbound`: without a client there is nothing to drain. -/
def drainInbound (b : SonioxBackend) (messages : List (Instant × Inbound)) (ids : SegmentIds) :
    Option ((SonioxBackend × SegmentIds) × List TranscriptUpdate) :=
  match b.client with
  | none => some ((b, ids), [])
  | some _ => b.fold messages ids

/-- `results`, and the end of `process`, which has a fallback. -/
def results (b : SonioxBackend) (messages : List (Instant × Inbound)) (ids : SegmentIds)
    (fallback : Option AsrError) : Option ((SonioxBackend × SegmentIds) × Report) :=
  (b.drainInbound messages ids).map fun ((b', ids'), updates) =>
    let (b'', result) := b'.deliver updates fallback
    let drained := match b.client with
      | none => []
      | some _ => messages.map Prod.snd
    ((b'', ids'), ⟨drained, fallback, updates, result⟩)

def poll (b : SonioxBackend) (messages : List (Instant × Inbound)) (ids : SegmentIds) :
    Option ((SonioxBackend × SegmentIds) × Report) :=
  b.results messages ids none

/-- `process`, where `send_audio` answers `sent`.  Without a client the call is over at once. -/
def process (b : SonioxBackend) (sent : Except AsrError Unit) (messages : List (Instant × Inbound))
    (ids : SegmentIds) : Option ((SonioxBackend × SegmentIds) × Report) :=
  if b.staged.isEmpty then b.results messages ids none
  else
    let b := { b with staged := [], stagedSamples := 0 }
    match b.client with
    | none => some ((b, ids), ⟨[], none, [], .error (.fatal "The Soniox session is not open")⟩)
    | some _ =>
        match sent with
        | .ok () => { b with framesSent := b.framesSent + 1 }.results messages ids none
        | .error e => b.results messages ids (some e)

end SonioxBackend

/-- A call of the processing thread while a session is open, with what comes from outside. -/
inductive Round (Sample : Type) where
  | push (samples : List Sample)
  | process (sent : Except AsrError Unit) (messages : List (Instant × Inbound))
  | poll (messages : List (Instant × Inbound))

/-- A call, and the report of it where it returns anything. -/
def roundStep {Sample : Type} (quantize : Sample → Int16) :
    Mealy.Step (SonioxBackend × SegmentIds) (Round Sample) Report
  | (b, ids), .push samples => some ((b.pushAudio quantize samples, ids), [])
  | (b, ids), .process sent messages => (b.process sent messages ids).map fun r => (r.1, [r.2])
  | (b, ids), .poll messages => (b.poll messages ids).map fun r => (r.1, [r.2])

/-! ## What is heard -/

/-- What a message makes of the accumulator: that is all `fold` emits. -/
def hear : Mealy.Step (Accumulator × SegmentIds) Inbound TranscriptUpdate
  | s, .response r => ingestStep s r
  | s, .reconnecting _ | s, .fatal _ =>
      let w := s.1.finish s.2
      some ((w.acc.reset, w.ids), w.out)
  | s, .finished => some (s, [])

/-- The part of the state that emits. -/
def speaking (s : SonioxBackend × SegmentIds) : Accumulator × SegmentIds := (s.1.accumulator, s.2)

theorem foldMessage_hear (s : SonioxBackend × SegmentIds) (i : Instant × Inbound) :
    (SonioxBackend.foldMessage s i).map (fun r => (speaking r.1, r.2)) = hear (speaking s) i.2 := by
  obtain ⟨b, ids⟩ := s
  obtain ⟨now, m⟩ := i
  cases m with
  | response r =>
      cases hsp : r.tokens.any Accumulator.isSpeechToken with
      | true =>
          simp only [SonioxBackend.foldMessage, hsp, if_true, hear, ingestStep, Option.map_map]
          rfl
      | false =>
          simp only [SonioxBackend.foldMessage, hsp, Bool.false_eq_true, if_false, hear, ingestStep,
            Option.map_map]
          rfl
  | reconnecting reason => rfl
  | finished => rfl
  | fatal message => rfl

/-- Every fold is a run of `hear`: neither the clock nor the rest of the backend matters. -/
theorem fold_hear (b : SonioxBackend) (messages : List (Instant × Inbound)) (ids : SegmentIds) :
    (b.fold messages ids).map (fun r => (speaking r.1, r.2)) =
      Mealy.run hear (b.accumulator, ids) (messages.map Prod.snd) :=
  Mealy.run_project (fun s i _ => foldMessage_hear s i) (b, ids)

/-- Hearing a message does not panic while the screen is in order, and keeps it so. -/
theorem Screen.hear {n₀ : SegmentIds} {s : Accumulator × SegmentIds} {us : List TranscriptUpdate}
    (h : Screen n₀ s us) (m : Inbound) :
    ∃ s' vs, Soniox.hear s m = some (s', vs) ∧ Screen n₀ s' (us ++ vs) := by
  cases m with
  | response r =>
      obtain ⟨w, hw, hs⟩ := h.ingest_spec r
      exact ⟨(w.acc, w.ids), w.out, by simp [Soniox.hear, ingestStep, hw.eq], hs⟩
  | reconnecting reason => exact ⟨_, _, rfl, h.finish⟩
  | finished => exact ⟨s, [], rfl, by simpa using h⟩
  | fatal message => exact ⟨_, _, rfl, h.finish⟩

theorem Screen.hears {n₀ : SegmentIds} {s : Accumulator × SegmentIds} {us : List TranscriptUpdate}
    (h : Screen n₀ s us) (ms : List Inbound) :
    ∃ s' vs, Mealy.run Soniox.hear s ms = some (s', vs) ∧ Screen n₀ s' (us ++ vs) := by
  refine Mealy.run_total (P := fun _ s' vs => Screen n₀ s' (us ++ vs)) ?_ (by simpa using h) ms
  intro _ s₁ vs m h₁
  obtain ⟨s₂, ws, hs, h₂⟩ := h₁.hear m
  exact ⟨s₂, ws, hs, by rw [← List.append_assoc]; exact h₂⟩

/-- A whole fold exists, and is what its messages make heard. -/
theorem Screen.folds {n₀ : SegmentIds} {b : SonioxBackend} {ids : SegmentIds}
    {us : List TranscriptUpdate} (h : Screen n₀ (b.accumulator, ids) us)
    (messages : List (Instant × Inbound)) :
    ∃ s' vs, b.fold messages ids = some (s', vs) ∧
      Mealy.run Soniox.hear (b.accumulator, ids) (messages.map Prod.snd) = some (speaking s', vs) ∧
      Screen n₀ (speaking s') (us ++ vs) := by
  obtain ⟨a', vs, hr, hs⟩ := h.hears (messages.map Prod.snd)
  have hproj := fold_hear b messages ids
  rw [hr] at hproj
  obtain ⟨⟨s', ws⟩, hf, heq⟩ := Option.map_eq_some_iff.mp hproj
  obtain ⟨rfl, rfl⟩ := Prod.mk.inj heq
  exact ⟨s', ws, hf, hr, hs⟩

/-! ## What is owed -/

/-- The first error is at least as severe as the second. -/
def Covers : AsrError → AsrError → Prop
  | .fatal _, _ => True
  | .transient _, .transient _ => True
  | .transient _, .fatal _ => False

instance : ∀ e e', Decidable (Covers e e')
  | .fatal _, _ => isTrue trivial
  | .transient _, .transient _ => isTrue trivial
  | .transient _, .fatal _ => isFalse id

/-- The status a message brings. -/
def Inbound.status : Inbound → Option AsrError
  | .reconnecting reason => some (.transient ("Reconnecting to Soniox: " ++ reason))
  | .fatal message => some (.fatal message)
  | .response _ | .finished => none

/-- A message brings a status at least as severe. -/
def Brings (ms : List Inbound) (e : AsrError) : Prop := ∃ m ∈ ms, ∃ st ∈ m.status, Covers st e

/-- A status at least as severe is owed on a later call. -/
def SonioxBackend.Owes (b : SonioxBackend) : AsrError → Prop
  | .fatal _ => b.pendingFatal ≠ none
  | .transient _ => b.pendingFatal ≠ none ∨ b.pendingTransient ≠ none

/-- The call returned a status at least as severe. -/
def Report.Returns (o : Report) (e : AsrError) : Prop := ∃ e', o.result = .error e' ∧ Covers e' e

theorem brings_nil (e : AsrError) : ¬ Brings [] e := by
  rintro ⟨m, hm, -⟩
  cases hm

theorem brings_cons {m : Inbound} {ms : List Inbound} {e : AsrError} :
    Brings (m :: ms) e ↔ (∃ st ∈ m.status, Covers st e) ∨ Brings ms e := by
  simp [Brings]

/-- What is owed for one message. -/
theorem foldMessage_owes {s s' : SonioxBackend × SegmentIds} {i : Instant × Inbound}
    {us : List TranscriptUpdate} (h : SonioxBackend.foldMessage s i = some (s', us)) :
    s'.1.client = s.1.client ∧
      ∀ e, s'.1.Owes e ↔ s.1.Owes e ∨ ∃ st ∈ i.2.status, Covers st e := by
  obtain ⟨b, ids⟩ := s
  obtain ⟨now, m⟩ := i
  cases m with
  | response r =>
      simp only [SonioxBackend.foldMessage, Option.map_eq_some_iff, Prod.mk.injEq] at h
      obtain ⟨w, -, rfl, -⟩ := h
      refine ⟨by dsimp only; split <;> rfl, ?_⟩
      intro e
      cases e <;> simp [SonioxBackend.Owes, Inbound.status] <;> split <;> rfl
  | reconnecting reason =>
      cases h
      refine ⟨rfl, ?_⟩
      intro e
      cases e <;> simp [SonioxBackend.Owes, Inbound.status, Covers]
  | finished =>
      cases h
      exact ⟨rfl, fun e => by simp [Inbound.status]⟩
  | fatal message =>
      cases h
      refine ⟨rfl, ?_⟩
      intro e
      cases e <;> simp [SonioxBackend.Owes, Inbound.status, Covers]

/-- What is owed for all messages of a batch. -/
theorem fold_owes {b : SonioxBackend} {messages : List (Instant × Inbound)} {ids : SegmentIds}
    {s' : SonioxBackend × SegmentIds} {us : List TranscriptUpdate}
    (h : b.fold messages ids = some (s', us)) :
    s'.1.client = b.client ∧ ∀ e, s'.1.Owes e ↔ b.Owes e ∨ Brings (messages.map Prod.snd) e := by
  unfold SonioxBackend.fold at h
  induction messages generalizing b ids us with
  | nil =>
      obtain ⟨rfl, -⟩ : (b, ids) = s' ∧ ([] : List TranscriptUpdate) = us := by simpa using h
      exact ⟨rfl, fun e => by simp [brings_nil]⟩
  | cons i messages ih =>
      obtain ⟨⟨b₁, ids₁⟩, o₁, o₂, hs, hr, -⟩ := Mealy.run_cons_inv h
      obtain ⟨hc₁, ho₁⟩ := foldMessage_owes hs
      obtain ⟨hc, ho⟩ := ih hr
      refine ⟨hc.trans hc₁, ?_⟩
      intro e
      rw [ho, ho₁, List.map_cons, brings_cons, or_assoc]

namespace SonioxBackend

/-- Text goes out as it is. -/
theorem deliver_text {b : SonioxBackend} {us : List TranscriptUpdate} (h : us ≠ [])
    (fallback : Option AsrError) : b.deliver us fallback = (b, .ok us) := by
  simp [deliver, h]

/-- Without text the status owed goes out. -/
theorem deliver_owed {b : SonioxBackend} {e : AsrError} (h : b.Owes e) (fallback : Option AsrError) :
    ∃ e', (b.deliver [] fallback).2 = .error e' ∧ Covers e' e := by
  cases hf : b.pendingFatal with
  | some message => exact ⟨.fatal message, by simp [deliver, hf], trivial⟩
  | none =>
      cases e with
      | fatal message => exact absurd hf h
      | transient message =>
          cases ht : b.pendingTransient with
          | none => exact absurd h (by simp [Owes, hf, ht])
          | some reason => exact ⟨.transient reason, by simp [deliver, hf, ht], trivial⟩

/-- Without text and with nothing owed, the fallback goes out. -/
theorem deliver_fallback {b : SonioxBackend} (h : ¬ b.Owes (.transient "")) (e : AsrError) :
    b.deliver [] (some e) = (b, .error e) := by
  simp only [Owes, not_or, not_not] at h
  simp [deliver, h.1, h.2]

theorem deliver_client (b : SonioxBackend) (us : List TranscriptUpdate) (fallback : Option AsrError) :
    (b.deliver us fallback).1.client = b.client ∧
      (b.deliver us fallback).1.accumulator = b.accumulator := by
  unfold deliver
  repeat' split
  all_goals exact ⟨rfl, rfl⟩

theorem deliver_delivered (b : SonioxBackend) (us : List TranscriptUpdate)
    (fallback : Option AsrError) : delivered [(b.deliver us fallback).2] = us := by
  cases us with
  | cons u us =>
      rw [deliver_text (by simp)]
      simp [delivered]
  | nil =>
      unfold deliver
      repeat' split
      all_goals rfl

end SonioxBackend

/-! ## One call -/

/-- What a call in an open session does. -/
structure Answered (s s' : SonioxBackend × SegmentIds) (o : Report) : Prop where
  client : s'.1.client = s.1.client
  heard : Mealy.run hear (speaking s) o.drained = some (speaking s', o.updates)
  text : delivered [o.result] = o.updates
  /-- A status owed before, or drained: it is owed still and there was text, or it is returned. -/
  owed : ∀ e, s.1.Owes e ∨ Brings o.drained e → s'.1.Owes e ∧ o.updates ≠ [] ∨ o.Returns e
  /-- A failure to send is returned where there is neither text nor another status. -/
  fallback : ∀ e, o.sendError = some e → o.updates = [] → ¬ s.1.Owes (.transient "") →
    ¬ Brings o.drained (.transient "") → o.Returns e

/-- Draining and delivering, over an accumulator whose board is in order. -/
theorem results_answered {n₀ : SegmentIds} {b : SonioxBackend} {ids : SegmentIds}
    {us : List TranscriptUpdate} (hscreen : Screen n₀ (b.accumulator, ids) us)
    (hclient : b.client ≠ none) (messages : List (Instant × Inbound)) (sendError : Option AsrError) :
    ∃ s' o, b.results messages ids sendError = some (s', o) ∧ Answered (b, ids) s' o ∧
      o.drained = messages.map Prod.snd ∧ o.sendError = sendError ∧
      Screen n₀ (s'.1.accumulator, s'.2) (us ++ o.updates) := by
  obtain ⟨client, hc⟩ := Option.ne_none_iff_exists'.mp hclient
  obtain ⟨s₁, vs, hf, hr, hs⟩ := hscreen.folds messages
  obtain ⟨hc₁, howes⟩ := fold_owes hf
  obtain ⟨hc₂, ha₂⟩ := s₁.1.deliver_client vs sendError
  refine ⟨((s₁.1.deliver vs sendError).1, s₁.2),
    ⟨messages.map Prod.snd, sendError, vs, (s₁.1.deliver vs sendError).2⟩, ?_, ?_, rfl, rfl, ?_⟩
  · simp only [SonioxBackend.results, SonioxBackend.drainInbound, hc, hf, Option.map_some]
  · refine ⟨hc₂.trans hc₁, ?_, s₁.1.deliver_delivered vs sendError, ?_, ?_⟩
    · show Mealy.run hear (b.accumulator, ids) _ = some ((_, s₁.2), vs)
      rw [hr, ha₂]
      rfl
    · intro e he
      have howed : s₁.1.Owes e := (howes e).mpr he
      cases vs with
      | nil => exact Or.inr (SonioxBackend.deliver_owed howed sendError)
      | cons v vs =>
          refine Or.inl ⟨?_, by simp⟩
          rw [SonioxBackend.deliver_text (by simp)]
          exact howed
    · rintro e rfl hempty hnot hbrings
      have hvs : vs = [] := hempty
      subst hvs
      have hnone : ¬ s₁.1.Owes (.transient "") := by
        rw [howes]
        rintro (hold | hnew)
        · exact hnot hold
        · exact hbrings hnew
      refine ⟨e, ?_, by cases e <;> trivial⟩
      exact congrArg Prod.snd (SonioxBackend.deliver_fallback hnone e)
  · show Screen n₀ ((s₁.1.deliver vs sendError).1.accumulator, s₁.2) (us ++ vs)
    rw [ha₂]
    exact hs

/-- What `process` and `poll` answer in an open session, whatever was staged. -/
theorem process_answered {n₀ : SegmentIds} {b : SonioxBackend} {ids : SegmentIds}
    {us : List TranscriptUpdate} (hscreen : Screen n₀ (b.accumulator, ids) us)
    (hclient : b.client ≠ none) (sent : Except AsrError Unit)
    (messages : List (Instant × Inbound)) :
    ∃ s' o, b.process sent messages ids = some (s', o) ∧ Answered (b, ids) s' o ∧
      o.drained = messages.map Prod.snd ∧
      (∀ e, o.sendError = some e → b.staged ≠ [] ∧ sent = .error e) ∧
      Screen n₀ (s'.1.accumulator, s'.2) (us ++ o.updates) := by
  obtain ⟨client, hc⟩ := Option.ne_none_iff_exists'.mp hclient
  unfold SonioxBackend.process
  cases hstaged : b.staged with
  | nil =>
      obtain ⟨s', o, hr, ha, hd, he, hs⟩ := results_answered hscreen hclient messages none
      refine ⟨s', o, hr, ha, hd, ?_, hs⟩
      intro e hsome
      rw [he] at hsome
      cases hsome
  | cons byte staged =>
      simp only [List.isEmpty_cons, Bool.false_eq_true, if_false, hc]
      -- what is staged and how many frames went out has no part in the answer
      have hanswer (b' : SonioxBackend) (hacc : b'.accumulator = b.accumulator)
          (hclient' : b'.client = b.client) (howes : ∀ e, b'.Owes e ↔ b.Owes e)
          (sendError : Option AsrError) (hsent : ∀ e, sendError = some e → sent = .error e) :
          ∃ s' o, b'.results messages ids sendError = some (s', o) ∧ Answered (b, ids) s' o ∧
            o.drained = messages.map Prod.snd ∧
            (∀ e, o.sendError = some e → byte :: staged ≠ [] ∧ sent = .error e) ∧
            Screen n₀ (s'.1.accumulator, s'.2) (us ++ o.updates) := by
        obtain ⟨s', o, hr, ha, hd, he, hs⟩ := results_answered (by rw [hacc]; exact hscreen)
          (by rw [hclient']; exact hclient) messages sendError
        refine ⟨s', o, hr, ?_, hd, ?_, hs⟩
        · refine ⟨ha.client.trans hclient', ?_, ha.text, ?_, ?_⟩
          · have hheard := ha.heard
            rw [speaking, hacc] at hheard
            exact hheard
          · intro e howed
            exact ha.owed e (howed.imp_left (howes e).mpr)
          · intro e hsome hempty hnot
            exact ha.fallback e hsome hempty fun howed => hnot ((howes _).mp howed)
        · intro e hsome
          exact ⟨by simp, hsent e (by rw [← he]; exact hsome)⟩
      cases sent with
      | ok _ =>
          refine hanswer _ ?_ ?_ ?_ none ?_
          · rfl
          · exact hc.symm
          · intro e
            cases e <;> rfl
          · intro e hsome
            cases hsome
      | error e =>
          refine hanswer _ ?_ ?_ ?_ (some e) ?_
          · rfl
          · exact hc.symm
          · intro e'
            cases e' <;> rfl
          · intro e' hsome
            rw [Option.some.inj hsome]

/-! ## Many calls -/

/-- What a call was given to drain. -/
def Round.messages {Sample : Type} : Round Sample → List Inbound
  | .push _ => []
  | .process _ messages | .poll messages => messages.map Prod.snd

/-- The answer `process` was to get for what was staged. -/
def Round.Refused {Sample : Type} (s : SonioxBackend × SegmentIds) (e : AsrError) :
    Round Sample → Prop
  | .process sent _ => s.1.staged ≠ [] ∧ sent = .error e
  | .push _ | .poll _ => False

/-- What a call does to what is owed, and reports. -/
inductive Rounded {Sample : Type} (s s' : SonioxBackend × SegmentIds) (c : Round Sample) :
    List Report → Prop
  | push (howes : ∀ e, s'.1.Owes e ↔ s.1.Owes e) : Rounded s s' c []
  | answer {o : Report} (ha : Answered s s' o) (hd : o.drained = c.messages)
      (he : ∀ e, o.sendError = some e → c.Refused s e) : Rounded s s' c [o]

/-- A session after the calls reported: everything drained was heard, and returned. -/
structure InSession (n₀ : SegmentIds) (s : SonioxBackend × SegmentIds) (os : List Report) :
    Prop where
  client : s.1.client ≠ none
  screen : Screen n₀ (speaking s) (os.flatMap Report.updates)
  heard : Mealy.run hear (Accumulator.new, n₀) (os.flatMap Report.drained) =
    some (speaking s, os.flatMap Report.updates)
  text : delivered (os.map Report.result) = os.flatMap Report.updates

theorem InSession.begin (b : SonioxBackend) (n₀ : SegmentIds) : InSession n₀ (b.beginSession, n₀) [] where
  client := by simp [SonioxBackend.beginSession]
  screen := screen_new n₀
  heard := rfl
  text := rfl

theorem InSession.answer {n₀ : SegmentIds} {s s' : SonioxBackend × SegmentIds} {os : List Report}
    {o : Report} (h : InSession n₀ s os) (ha : Answered s s' o)
    (hs : Screen n₀ (speaking s') (os.flatMap Report.updates ++ o.updates)) :
    InSession n₀ s' (os ++ [o]) where
  client := by
    rw [ha.client]
    exact h.client
  screen := by simpa using hs
  heard := by
    rw [List.flatMap_append, List.flatMap_append, Mealy.run_append h.heard (by simpa using ha.heard)]
    simp
  text := by
    rw [List.map_append, delivered_append, h.text, List.flatMap_append]
    exact congrArg _ (by simpa using ha.text)

variable {Sample : Type} {quantize : Sample → Int16}

/-- Every call of a session exists. -/
theorem InSession.round {n₀ : SegmentIds} {s : SonioxBackend × SegmentIds} {os : List Report}
    (h : InSession n₀ s os) (quantize : Sample → Int16) (c : Round Sample) :
    ∃ s' os', roundStep quantize s c = some (s', os') ∧ Rounded s s' c os' ∧
      InSession n₀ s' (os ++ os') ∧ os'.flatMap Report.drained = c.messages := by
  obtain ⟨b, ids⟩ := s
  cases c with
  | push samples =>
      refine ⟨_, [], rfl, .push fun e => by cases e <;> rfl, ?_, rfl⟩
      rw [List.append_nil]
      exact ⟨h.client, h.screen, h.heard, h.text⟩
  | process sent messages =>
      obtain ⟨s', o, hp, ha, hd, he, hs⟩ := process_answered h.screen h.client sent messages
      refine ⟨s', [o], by simp only [roundStep, hp, Option.map_some], .answer ha hd he,
        h.answer ha hs, ?_⟩
      rw [List.flatMap_singleton]
      exact hd
  | poll messages =>
      obtain ⟨s', o, hp, ha, hd, he, hs⟩ := results_answered h.screen h.client messages none
      refine ⟨s', [o], ?_, .answer ha hd ?_, h.answer ha hs, ?_⟩
      · simp only [roundStep, SonioxBackend.poll, hp, Option.map_some]
      · intro e hsome
        rw [he] at hsome
        cases hsome
      · rw [List.flatMap_singleton]
        exact hd

theorem session_run (quantize : Sample → Int16) (b : SonioxBackend) (n₀ : SegmentIds)
    (rounds : List (Round Sample)) :
    ∃ s os, Mealy.run (roundStep quantize) (b.beginSession, n₀) rounds = some (s, os) ∧
      InSession n₀ s os ∧ os.flatMap Report.drained = rounds.flatMap Round.messages := by
  refine Mealy.run_total (P := fun (rounds : List (Round Sample)) (s : SonioxBackend × SegmentIds)
    (os : List Report) =>
      InSession n₀ s os ∧ os.flatMap Report.drained = rounds.flatMap Round.messages)
    ?_ ⟨.begin b n₀, rfl⟩ rounds
  rintro rounds s os c ⟨h, hd⟩
  obtain ⟨s', os', hstep, -, h', hd'⟩ := h.round quantize c
  refine ⟨s', os', hstep, h', ?_⟩
  rw [List.flatMap_append, hd, hd', List.flatMap_append]
  simp

/-! ## The same calls, one step at a time -/

/-- The turns that fold what was drained, and the one that returns. -/
theorem World.run_folding (quantize : Sample → Int16) {messages : List (Instant × Inbound)} {w : World}
    {updates us : List TranscriptUpdate} {sendError : Option AsrError} {b' : SonioxBackend}
    {ids' : SegmentIds} (hcall : w.call = .folding (messages.map Prod.snd) updates sendError)
    (hfold : w.backend.fold messages w.ids = some ((b', ids'), us)) (now : Instant) :
    Mealy.run (World.step quantize) w (messages.map (fun i => .turn i.1) ++ [.turn now]) =
      some ({ w with backend := b', ids := ids', call := .folding [] (updates ++ us) sendError }.finishCall
        (b'.deliver (updates ++ us) sendError)) := by
  unfold SonioxBackend.fold at hfold
  induction messages generalizing w updates us with
  | nil =>
      obtain ⟨heq, rfl⟩ : (w.backend, w.ids) = (b', ids') ∧ ([] : List TranscriptUpdate) = us := by
        simpa using hfold
      obtain ⟨rfl, rfl⟩ := Prod.mk.inj heq
      obtain ⟨task, inbox, backend, ids, call⟩ := w
      have hcall' : call = .folding [] updates sendError := hcall
      subst hcall'
      rw [List.append_nil]
      exact Mealy.run_singleton rfl
  | cons i messages ih =>
      obtain ⟨now₁, m⟩ := i
      obtain ⟨⟨b₁, ids₁⟩, o₁, o₂, hs, hr, rfl⟩ := Mealy.run_cons_inv hfold
      have hturn : World.step quantize w (.turn now₁) = some ({ w with
          backend := b₁, ids := ids₁,
          call := .folding (messages.map Prod.snd) (updates ++ o₁) sendError }, []) := by
        show World.turn w now₁ = _
        simp only [World.turn, hcall, List.map_cons, hs, Option.map_some]
      rw [List.map_cons, List.cons_append, Mealy.run_cons hturn, ih rfl hr, List.append_assoc]
      rfl

/-- A `poll` of the world, run to its return, is `poll` on what the queue held when it was drained;
every message has its reading of the clock. -/
theorem World.poll_eq {messages : List (Instant × Inbound)} {w : World} {s' : SonioxBackend × SegmentIds}
    {o : Report} (hidle : w.call = .idle) (hclient : w.backend.client ≠ none)
    (hinbox : w.inbox = messages.map Prod.snd) (h : w.backend.poll messages w.ids = some (s', o))
    (now₀ now : Instant) :
    ∃ w', Mealy.run (World.step quantize) w
        (.poll :: .turn now₀ :: (messages.map (fun i => .turn i.1) ++ [.turn now])) =
          some (w', [o.result]) ∧
      w'.backend = s'.1 ∧ w'.ids = s'.2 ∧ w'.inbox = [] ∧ w'.task = w.task := by
  obtain ⟨client, hc⟩ := Option.ne_none_iff_exists'.mp hclient
  simp only [SonioxBackend.poll, SonioxBackend.results, SonioxBackend.drainInbound, hc] at h
  obtain ⟨⟨⟨b', ids'⟩, us⟩, hf, heq⟩ := Option.map_eq_some_iff.mp h
  obtain ⟨rfl, rfl⟩ := Prod.mk.inj heq
  have hbegin : World.step quantize w .poll = some ({ w with call := .draining none }, []) := by
    simp only [World.step, hidle]
  have hdrain : World.step quantize { w with call := .draining none } (.turn now₀) =
      some ({ w with inbox := [], call := .folding (messages.map Prod.snd) [] none }, []) := by
    show World.turn { w with call := .draining none } now₀ = _
    simp only [World.turn, hc, hinbox]
  let w₁ : World := { w with inbox := [], call := .folding (messages.map Prod.snd) [] none }
  have hfold := World.run_folding quantize (w := w₁) rfl hf now
  rw [Mealy.run_cons hbegin, Mealy.run_cons hdrain, hfold, List.nil_append]
  unfold World.finishCall
  split
  · exact ⟨_, rfl, rfl, rfl, rfl, rfl⟩
  · exact ⟨_, rfl, rfl, rfl, rfl, rfl⟩

end Larmindon.Soniox
