/-
# `Soniox.Backlog` — the counter is what is on its way to the socket

`queued_samples` is written by two threads, on each side by more than one access.
`Balanced` is what every access keeps: while the task lives the counter is the
sum of the samples in the channel, in `pending`, counted by a send in progress
and about to be subtracted.  The rest follows from that sum.  A frame the task
can free is one of its terms, so the minimum in `send_frame` is the frame's own
count; and the counter never exceeds the ceiling, so `wait_backoff` never
discards.

Once the task is gone its queues are dropped and the counter only grows, by at
most one frame, which `send_audio` takes back.
-/
import Larmindon.Soniox.Upload

namespace Larmindon.Soniox

/-! ## The counter -/

theorem fetchAdd_eq {q n : ℕ} (h : q + n < 2 ^ 64) : fetchAdd q n = q + n := Nat.mod_eq_of_lt h

theorem fetchSub_eq {q n : ℕ} (h : n ≤ q) (hq : q < 2 ^ 64) : fetchSub q n = q - n := by
  have hn : n % 2 ^ 64 = n := Nat.mod_eq_of_lt (by omega)
  rw [fetchSub, hn]
  omega

theorem ceiling_lt {n : ℕ} (h : n ≤ MAX_QUEUED_SAMPLES) : n < 2 ^ 64 :=
  Nat.lt_of_le_of_lt h (by decide)

/-! ## What the counter stands for -/

/-- The samples `send_audio` has counted and not yet put in the channel or taken back. -/
def SendCall.counted : SendCall → ℕ
  | .sending frame | .undoing frame => frame.samples
  | _ => 0

/-- The samples in the queues of the task. -/
def Queues.held (q : Queues) : ℕ := samplesOf q.pending + samplesOf q.channel

structure Balanced (u : Upload) : Prop where
  ledger : u.task.phase ≠ .gone →
    u.task.queues.queued = u.task.queues.held + u.call.counted + u.subtracting.getD 0
  ceiling : u.task.queues.queued ≤ MAX_QUEUED_SAMPLES
  room : ∀ frame, u.call = .counting frame →
    u.task.queues.queued + frame.samples ≤ MAX_QUEUED_SAMPLES
  counted : u.call.counted ≤ u.task.queues.queued
  undone : ∀ frame, u.call = .undoing frame → u.task.phase = .gone
  settled : u.task.phase = .gone → u.subtracting = none
  joined : u.task.queues.senderGone = false

/-! ## A move of the task -/

/-- A frame the move frees was in the queues, and every other stays there. -/
theorem Task.Flow.held {t : Task} {e : Event} {q : Queues} (h : t.Flow e q) :
    q.held + ((t.frees e).map AudioFrame.samples).getD 0 = t.queues.held := by
  cases h with
  | still hf => simp [hf]
  | control hf hout hm => simp [hf, Queues.held, Queues.channel, hout, hm]
  | flush hp hpt hf hpend =>
      simp only [hf, Queues.held, Queues.release, Queues.channel, hpend, samplesOf_cons,
        Option.map_some, Option.getD_some]
      omega
  | take hp hpt hf hout =>
      simp only [hf, Queues.held, Queues.release, Queues.channel, hout, Outbound.frame,
        List.filterMap_cons, samplesOf_cons, Option.map_some, Option.getD_some]
      omega
  | buffer hp hf hout hq =>
      simp only [hf, Queues.held, Queues.channel, hout, Outbound.frame, List.filterMap_cons,
        samplesOf_cons, samplesOf_append, samplesOf_nil, Option.map_none, Option.getD_none]
      omega
  | discard hp hf hout hq =>
      simp only [hf, Queues.held, Queues.channel, hout, Outbound.frame, List.filterMap_cons,
        samplesOf_cons, Option.map_some, Option.getD_some]
      omega

theorem Task.Flow.senderGone {t : Task} {e : Event} {q : Queues} (h : t.Flow e q) :
    q.senderGone = t.queues.senderGone := by
  cases h <;> rfl

theorem Task.own_alive {t t' : Task} {e : Event} {acts : List Act} (h : t.own e = some (t', acts)) :
    t.phase ≠ .gone := by
  intro hp
  simp [own, hp] at h

/-- Where the counter covers the queues, what is subtracted is the share of the frame. -/
theorem Task.operand_eq {t : Task} {e : Event} {frame : AudioFrame} (hf : t.frees e = some frame)
    (hq : frame.samples ≤ t.queues.queued) : t.operand e = some frame.samples := by
  cases hp : t.phase with
  | waiting delay => simp [operand, hf, hp]
  | _ => simp [operand, hf, hp, Nat.min_eq_left hq]

/-- Only a task that has returned is dropped, and that frees nothing. -/
theorem Task.own_gone {t t' : Task} {e : Event} {acts : List Act} (h : t.own e = some (t', acts))
    (hgone : t'.phase = .gone) : t.frees e = none := by
  cases own_moves h with
  | dropped hp => simp [frees, hp]
  | buffers hp => simp [hp] at hgone
  | ends hp hm =>
      rename_i o q acts
      cases o with
      | retry reason p =>
          rcases Nat.lt_or_ge MAX_RECONNECT_ATTEMPTS (nextAttempt t.attempt p) with hl | hl
          · obtain ⟨message, he⟩ := onOutcome_over t q reason hl
            rw [he] at hgone
            cases hgone
          · rw [onOutcome_again t q reason (Nat.not_lt.mpr hl)] at hgone
            cases hgone
      | _ => cases hgone
  | _ => cases hgone

namespace Balanced

variable {u u' : Upload} {os : List Seen}

theorem new : Balanced {} where
  ledger := fun _ => rfl
  ceiling := Nat.zero_le _
  room := by simp
  counted := Nat.le_refl _
  undone := by simp
  settled := fun _ => rfl
  joined := rfl

/-- A frame the task can free is covered by the counter. -/
theorem covers (h : Balanced u) {e : Event} {t' : Task} {acts : List Act}
    (ho : u.task.own e = some (t', acts)) {frame : AudioFrame} (hf : u.task.frees e = some frame) :
    frame.samples ≤ u.task.queues.queued := by
  have hheld := (Task.own_flow ho).held
  have hledger := h.ledger (Task.own_alive ho)
  simp only [hf, Option.map_some, Option.getD_some] at hheld
  omega

theorem operand (h : Balanced u) {e : Event} {t' : Task} {acts : List Act}
    (ho : u.task.own e = some (t', acts)) :
    u.task.operand e = (u.task.frees e).map AudioFrame.samples := by
  cases hf : u.task.frees e with
  | none => simp [Task.operand, hf]
  | some frame => exact Task.operand_eq hf (h.covers ho hf)

/-- The task moves: what leaves its queues is what it will subtract. -/
theorem task (h : Balanced u) (hsub : u.subtracting = none) {e : Event} {t' : Task} {acts : List Act}
    (ho : u.task.own e = some (t', acts)) :
    Balanced { u with
      task := { t' with queues.queued := u.task.queues.queued }
      subtracting := u.task.operand e } := by
  have hheld := (Task.own_flow ho).held
  have hledger := h.ledger (Task.own_alive ho)
  refine ⟨?_, h.ceiling, h.room, h.counted, ?_, ?_, ?_⟩
  · intro _
    show u.task.queues.queued = t'.queues.held + u.call.counted + (u.task.operand e).getD 0
    rw [h.operand ho, hledger, hsub, ← hheld, Option.getD_none]
    omega
  · intro frame hc
    exact absurd (h.undone frame hc) (Task.own_alive ho)
  · intro hgone
    show u.task.operand e = none
    rw [h.operand ho, Task.own_gone ho hgone]
    rfl
  · exact (Task.own_flow ho).senderGone.trans h.joined

/-- The `fetch_sub` of the task. -/
theorem subtract (h : Balanced u) {n : ℕ} (hsub : u.subtracting = some n) :
    Balanced { u with
      task.queues.queued := fetchSub u.task.queues.queued n
      subtracting := none } := by
  have halive : u.task.phase ≠ .gone := by
    intro hg
    simp [h.settled hg] at hsub
  have hledger := h.ledger halive
  rw [hsub, Option.getD_some] at hledger
  have heq := fetchSub_eq (q := u.task.queues.queued) (n := n) (by omega) (ceiling_lt h.ceiling)
  refine ⟨?_, ?_, ?_, ?_, h.undone, fun _ => rfl, h.joined⟩
  · intro _
    show fetchSub u.task.queues.queued n = u.task.queues.held + u.call.counted + 0
    omega
  · show fetchSub u.task.queues.queued n ≤ _
    have := h.ceiling
    omega
  · intro frame hc
    show fetchSub u.task.queues.queued n + _ ≤ _
    have := h.room frame hc
    omega
  · show u.call.counted ≤ fetchSub u.task.queues.queued n
    omega

/-! ## An access of the sender -/

/-- A message that is not audio changes nothing the counter stands for. -/
theorem post (h : Balanced u) {m : Outbound} (hm : m.frame = none) : Balanced (u.post m) := by
  rcases u.post_cases m with hp | hp
  · rw [hp]
    exact h
  · rw [hp]
    refine ⟨?_, h.ceiling, h.room, h.counted, h.undone, h.settled, h.joined⟩
    intro halive
    have := h.ledger halive
    simpa [Queues.held, Queues.channel, hm] using this

/-- The `fetch_add`: there is room for the frame. -/
theorem count (h : Balanced u) {frame : AudioFrame} (hc : u.call = .counting frame) :
    Balanced { u with
      task.queues.queued := fetchAdd u.task.queues.queued frame.samples
      call := .sending frame } := by
  have hroom := h.room frame hc
  have heq := fetchAdd_eq (ceiling_lt hroom)
  refine ⟨?_, ?_, by simp, ?_, by simp, h.settled, h.joined⟩
  · intro halive
    have hledger := h.ledger halive
    simp only [hc, SendCall.counted] at hledger
    show fetchAdd u.task.queues.queued frame.samples
        = u.task.queues.held + frame.samples + u.subtracting.getD 0
    omega
  · show fetchAdd u.task.queues.queued frame.samples ≤ MAX_QUEUED_SAMPLES
    omega
  · show frame.samples ≤ fetchAdd u.task.queues.queued frame.samples
    omega

/-- The send: what was counted is in the channel. -/
theorem enqueue (h : Balanced u) {frame : AudioFrame} (hc : u.call = .sending frame) :
    Balanced { u with
      task.queues.out := u.task.queues.out ++ [.audio frame]
      call := .idle } := by
  refine ⟨?_, h.ceiling, by simp, Nat.zero_le _, by simp, h.settled, h.joined⟩
  intro halive
  have hledger := h.ledger halive
  show u.task.queues.queued
      = samplesOf u.task.queues.pending
        + samplesOf ((u.task.queues.out ++ [Outbound.audio frame]).filterMap Outbound.frame) + 0
        + u.subtracting.getD 0
  simp only [hc, SendCall.counted, Queues.held, Queues.channel] at hledger
  simp only [List.filterMap_append, List.filterMap_cons, Outbound.frame, List.filterMap_nil,
    samplesOf_append, samplesOf_cons, samplesOf_nil]
  omega

/-- The `fetch_sub` of the sender, when nobody else counts any more. -/
theorem undo (h : Balanced u) {frame : AudioFrame} (hc : u.call = .undoing frame) :
    Balanced { u with
      task.queues.queued := fetchSub u.task.queues.queued frame.samples
      call := .idle } := by
  have hgone := h.undone frame hc
  have hcounted := h.counted
  simp only [hc, SendCall.counted] at hcounted
  have heq := fetchSub_eq hcounted (ceiling_lt h.ceiling)
  refine ⟨fun halive => absurd hgone halive, ?_, by simp, Nat.zero_le _, by simp, h.settled, h.joined⟩
  show fetchSub u.task.queues.queued frame.samples ≤ MAX_QUEUED_SAMPLES
  have := h.ceiling
  omega

/-- Every step keeps the balance. -/
theorem step {m : UploadMove} (h : Balanced u) (hs : Upload.step u m = some (u', os)) :
    Balanced u' := by
  cases Upload.moves_of_step hs with
  | task hsub ho => exact h.task hsub ho
  | subtract hsub => exact h.subtract hsub
  | refused | finished => exact h
  | called hcall =>
      refine ⟨?_, h.ceiling, by simp, Nat.zero_le _, by simp, h.settled, h.joined⟩
      simpa [hcall.1, SendCall.counted] using h.ledger
  | full hc =>
      refine ⟨?_, h.ceiling, by simp, Nat.zero_le _, by simp, h.settled, h.joined⟩
      simpa [hc, SendCall.counted] using h.ledger
  | @fits frame hc hroom =>
      refine ⟨?_, h.ceiling, ?_, Nat.zero_le _, by simp, h.settled, h.joined⟩
      · simpa [hc, SendCall.counted] using h.ledger
      · intro frame' hf
        obtain rfl : frame = frame' := by simpa using hf
        exact hroom
  | counted hc => exact h.count hc
  | sent hc => exact h.enqueue hc
  | closed hc hclosed =>
      -- the channel outlives the client, so it is the task that is gone
      have hgone : u.task.phase = .gone := by simpa [h.joined] using hclosed
      refine ⟨fun halive => absurd hgone halive, h.ceiling, by simp, ?_, fun _ _ => hgone,
        h.settled, h.joined⟩
      simpa [hc, SendCall.counted] using h.counted
  | undone hc => exact h.undo hc
  | finish =>
      have h' : Balanced { u with finishSent := true } :=
        ⟨h.ledger, h.ceiling, h.room, h.counted, h.undone, h.settled, h.joined⟩
      exact h'.post rfl
  | drop =>
      have h' : Balanced { u with dropped := true } :=
        ⟨h.ledger, h.ceiling, h.room, h.counted, h.undone, h.settled, h.joined⟩
      exact h'.post rfl

/-- Every run keeps the balance. -/
theorem run {ms : List UploadMove} (h : Mealy.run Upload.step {} ms = some (u, os)) : Balanced u :=
  Mealy.run_sound (P := fun _ u _ => Balanced u)
    (fun _ _ _ _ _ _ hb hs => hb.step hs) new h

end Balanced

/-! ## The backlog -/

/-- What the counter says while the task lives. -/
structure Accounted (u : Upload) : Prop where
  /-- Accepted and not given back: in `pending`, in the channel, counted by `send_audio` and about
  to be sent, taken by the task and about to be subtracted. -/
  sum : u.task.queues.queued = samplesOf u.task.queues.pending + samplesOf u.task.queues.channel
    + u.call.counted + u.subtracting.getD 0
  ceiling : u.task.queues.queued ≤ MAX_QUEUED_SAMPLES
  /-- The `fetch_sub` to come does not wrap. -/
  subtracts : ∀ n, u.subtracting = some n → n ≤ u.task.queues.queued
  /-- A move that frees a frame is going to subtract its samples, all of them. -/
  whole : ∀ e t' acts frame, u.task.own e = some (t', acts) → u.task.frees e = some frame →
    u.task.operand e = some frame.samples
  /-- `wait_backoff` keeps every frame. -/
  kept : ∀ frame, u.task.queues.onBackoff (.audio frame)
    = (none, { u.task.queues with pending := u.task.queues.pending ++ [frame] })

theorem Balanced.accounted {u : Upload} (h : Balanced u) (halive : u.task.phase ≠ .gone) :
    Accounted u where
  sum := h.ledger halive
  ceiling := h.ceiling
  subtracts := by
    intro n hn
    have := h.ledger halive
    rw [hn, Option.getD_some] at this
    omega
  whole := by
    intro e t' acts frame ho hf
    rw [h.operand ho, hf, Option.map_some]
  kept := by
    intro frame
    simp only [Queues.onBackoff, if_neg (Nat.not_lt.mpr h.ceiling)]

/-- **Backlog accounting.**  In every state the two threads can reach while the task lives, the
counter is what is accepted and not given back, within the ceiling; nothing subtracted from it
wraps, no minimum truncates and no backoff discards.  Nor does the sender's own undo wrap, which
comes once the task is gone. -/
theorem backlog_accounted {ms : List UploadMove} {u : Upload} {os : List Seen}
    (h : Mealy.run Upload.step {} ms = some (u, os)) :
    (u.task.phase ≠ .gone → Accounted u) ∧
      ∀ frame, u.call = .undoing frame → frame.samples ≤ u.task.queues.queued := by
  have hb := Balanced.run h
  refine ⟨hb.accounted, ?_⟩
  intro frame hc
  have hcounted := hb.counted
  rwa [hc] at hcounted

/-- A frame waits in `pending`, another is counted but not sent, over an outage. -/
theorem backlog_accounted_outage :
    ∃ u os, Mealy.run Upload.step {}
        [.task (.runtime (.ok ())), .sendAudio ⟨[1, 0], 1⟩, .turn, .turn, .turn,
          .task .connectTimedOut, .task .recv, .sendAudio ⟨[2, 0, 3, 0], 2⟩, .turn, .turn]
          = some (u, os) ∧ u.task.queues.queued = 3 ∧ Accounted u := by
  refine ⟨_, _, rfl, rfl, ?_⟩
  refine (backlog_accounted (show Mealy.run Upload.step {}
    [.task (.runtime (.ok ())), .sendAudio ⟨[1, 0], 1⟩, .turn, .turn, .turn,
      .task .connectTimedOut, .task .recv, .sendAudio ⟨[2, 0, 3, 0], 2⟩, .turn, .turn]
      = some (_, _) from rfl)).1 ?_
  decide

end Larmindon.Soniox
