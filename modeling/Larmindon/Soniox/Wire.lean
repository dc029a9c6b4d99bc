/-
# `Soniox.Wire` — what goes over the wire, and in what order

Three facts carry the protocol.

    form      the data frames of a connection are a start, binary frames that are
              not empty, and at most one that is                    (`Conn.Wire`)
    line      `pending` and then the channel are the accepted frames not taken
              yet, in order: a move takes from the front, and hands what it takes
              to a write unless end-of-stream is out already        (`Conn.Moves.line`)
    finish    one `Finish` is ever queued; while it has not been taken, and while
              the queue is drained behind it, nothing taken was let go
                                                                    (`Upload.Early`)

The select loop takes from the channel only, so the second needs `pending` to be
empty there: it is flushed first, and only the backoff refills it.  That the
backoff lets nothing go is the balance of the backlog.
-/
import Larmindon.Soniox.Backlog
import Larmindon.Soniox.Connections

namespace Larmindon.Soniox

/-! ## The frames of one connection -/

/-- The data frames among what the task does; pings are control frames. -/
def dataFrames (acts : List Act) : List Frame :=
  acts.filterMap fun a => match a with
    | .write .ping => none
    | .write f => some f
    | _ => none

/-- The audio handed to a socket write: the empty frame is end-of-stream and not audio. -/
def handed (acts : List Act) : List (List UInt8) :=
  acts.filterMap fun a => match a with
    | .write (.binary []) => none
    | .write (.binary pcm) => some pcm
    | _ => none

@[simp] theorem dataFrames_append (xs ys : List Act) :
    dataFrames (xs ++ ys) = dataFrames xs ++ dataFrames ys := by simp [dataFrames]

@[simp] theorem handed_append (xs ys : List Act) : handed (xs ++ ys) = handed xs ++ handed ys := by
  simp [handed]

@[simp] theorem dataFrames_messages (rs : List SonioxResponse) :
    dataFrames (rs.map fun r => .message (.response r)) = [] := by
  induction rs with
  | nil => rfl
  | cons r rs ih => exact ih

@[simp] theorem handed_messages (rs : List SonioxResponse) :
    handed (rs.map fun r => .message (.response r)) = [] := by
  induction rs with
  | nil => rfl
  | cons r rs ih => exact ih

theorem handed_binary {pcm : List UInt8} (h : pcm ≠ []) : handed [.write (.binary pcm)] = [pcm] := by
  cases pcm with
  | nil => exact absurd rfl h
  | cons b bs => rfl

/-- A stream that goes on: a start request, then frames that are not empty. -/
def Streaming (frames : List Frame) : Prop :=
  ∃ pcms : List (List UInt8), (∀ pcm ∈ pcms, pcm ≠ []) ∧ frames = .start :: pcms.map .binary

/-- A stream that has ended: one empty frame more. -/
def Ended (frames : List Frame) : Prop :=
  ∃ pcms : List (List UInt8), (∀ pcm ∈ pcms, pcm ≠ []) ∧
    frames = .start :: (pcms.map .binary ++ [.binary []])

/-- What the data frames of a connection may be. -/
def WireForm (frames : List Frame) : Prop := frames = [] ∨ Streaming frames ∨ Ended frames

theorem Streaming.snoc {frames : List Frame} (h : Streaming frames) {pcm : List UInt8}
    (hp : pcm ≠ []) : Streaming (frames ++ [.binary pcm]) := by
  obtain ⟨pcms, hne, rfl⟩ := h
  refine ⟨pcms ++ [pcm], ?_, by simp⟩
  intro p hmem
  rcases List.mem_append.mp hmem with hmem | hmem
  · exact hne p hmem
  · rw [List.mem_singleton.mp hmem]
    exact hp

theorem Streaming.finish {frames : List Frame} (h : Streaming frames) :
    Ended (frames ++ [.binary []]) := by
  obtain ⟨pcms, hne, rfl⟩ := h
  exact ⟨pcms, hne, by simp⟩

/-- What has been written on a connection, by where it stands. -/
def Conn.Wire (c : Conn) (frames : List Frame) : Prop :=
  match c.point with
  | .connecting => c.finishing = false ∧ frames = []
  | .endingStream => c.finishing = false ∧ Ended frames
  | .selecting | .pinging => if c.finishing = true then Ended frames else Streaming frames
  | .closing _ => Streaming frames ∨ Ended frames
  | _ => c.finishing = false ∧ Streaming frames

theorem Conn.Wire.form {c : Conn} {frames : List Frame} (h : c.Wire frames) : WireForm frames := by
  cases hp : c.point with
  | connecting => simp only [Wire, hp] at h; exact .inl h.2
  | endingStream => simp only [Wire, hp] at h; exact .inr (.inr h.2)
  | selecting | pinging =>
      simp only [Wire, hp] at h
      split at h
      · exact .inr (.inr h)
      · exact .inr (.inl h)
  | closing o => simp only [Wire, hp] at h; exact .inr h
  | _ => simp only [Wire, hp] at h; exact .inr (.inl h.2)

/-- In the select loop, with end-of-stream not out. -/
theorem Conn.Wire.streaming {c : Conn} {frames : List Frame} (h : c.Wire frames)
    (hp : c.point = .selecting) (hf : c.finishing = false) : Streaming frames := by
  simpa [Wire, hp, hf] using h

/-- In the select loop the stream goes on or has ended. -/
theorem Conn.Wire.selecting {c : Conn} {frames : List Frame} (h : c.Wire frames)
    (hp : c.point = .selecting) : Streaming frames ∨ Ended frames := by
  simp only [Wire, hp] at h
  split at h
  · exact .inr h
  · exact .inl h

/-- What has been written once the connection goes on, or has ended. -/
def Verdict.Wire (v : Verdict) (frames : List Frame) : Prop :=
  match v with
  | .stay c => c.Wire frames
  | .ended _ => WireForm frames

theorem Conn.Moves.wire {c : Conn} {q q' : Queues} {e : Event} {v : Verdict} {acts : List Act}
    {frames : List Frame} (h : c.Moves q e v q' acts)
    (hpcm : ∀ frame ∈ q.pending ++ q.channel, frame.pcm ≠ []) (hw : c.Wire frames) :
    v.Wire (frames ++ dataFrames acts) := by
  cases h with
  | opened hp =>
      simp only [Conn.Wire, hp] at hw
      obtain ⟨hf, rfl⟩ := hw
      exact ⟨hf, [], by simp, rfl⟩
  | flush hp hpend =>
      simp only [Conn.Wire, hp] at hw
      exact ⟨hw.1, hw.2.snoc (hpcm _ (by simp [hpend]))⟩
  | flushed hp =>
      simp only [Conn.Wire, hp] at hw
      simpa [Verdict.Wire, Conn.Wire, hw.1, dataFrames] using hw.2
  | drainAudio hp hout =>
      simp only [Conn.Wire, hp] at hw
      exact ⟨hw.1, hw.2.snoc (hpcm _ (by simp [Queues.channel, hout, Outbound.frame]))⟩
  | drainFinish hp => simpa [Verdict.Wire, dataFrames] using hw
  | drainShutdown hp =>
      simp only [Conn.Wire, hp] at hw
      exact .inl (by simpa [dataFrames] using hw.2)
  | drained hp =>
      simp only [Conn.Wire, hp] at hw
      exact ⟨hw.1, hw.2.finish⟩
  | wrote ha =>
      cases hp : c.point <;> simp only [hp, Point.afterWrite, Option.some.injEq, reduceCtorEq] at ha <;>
        subst ha <;> simp only [Conn.Wire, hp] at hw <;>
        simp_all [Verdict.Wire, Conn.Wire, dataFrames]
  | endedStream hp =>
      simp only [Conn.Wire, hp] at hw
      simpa [Verdict.Wire, Conn.Wire, dataFrames] using hw.2
  | takeShutdown hp => simpa [Verdict.Wire, Conn.Wire, dataFrames] using hw.selecting hp
  | takeFinish hp hout hf => exact ⟨hf, by simpa [dataFrames] using hw.streaming hp hf⟩
  | finishAgain | tooLate | ignored => simpa [Verdict.Wire, dataFrames] using hw
  | upload hp hout hf =>
      exact ⟨hf, (hw.streaming hp hf).snoc (hpcm _ (by simp [Queues.channel, hout, Outbound.frame]))⟩
  | answered hp =>
      rw [← List.singleton_append, dataFrames_append, dataFrames_messages]
      simpa [Verdict.Wire, Conn.Wire, hp, dataFrames] using hw
  | dismissed hp =>
      rw [← List.singleton_append, dataFrames_append, dataFrames_messages]
      simpa [Verdict.Wire, Conn.Wire, dataFrames] using hw.selecting hp
  | pings hp => simpa [Verdict.Wire, Conn.Wire, hp, dataFrames] using hw
  | gaveUp hp => simpa [Verdict.Wire, Conn.Wire, dataFrames] using hw.selecting hp
  | _ => simpa [Verdict.Wire, dataFrames] using hw.form

/-! ## The line of frames -/

/-- The frames not taken yet, in the order they are to be taken. -/
def Queues.line (q : Queues) : List AudioFrame := q.pending ++ q.channel

/-- Where `pending` may hold frames: the others come after the flush. -/
def Point.unflushed : Point → Bool
  | .connecting | .starting | .flushing | .flushWriting => true
  | _ => false

theorem Point.unflushed_afterWrite {p p' : Point} (h : p.afterWrite = some p') :
    p'.unflushed = p.unflushed := by
  cases p <;> cases h <;> rfl

/-- Only an unflushed connection has frames in `pending`. -/
def Conn.Flushed (c : Conn) (q : Queues) : Prop := c.point.unflushed = false → q.pending = []

/-- Of the frames `fs` taken by a move of `c` all are handed to a write, unless end-of-stream is
out. -/
def Conn.Hands (c : Conn) (fs : List AudioFrame) (acts : List Act) : Prop :=
  handed acts = fs.map AudioFrame.pcm ∨ (c.point = .selecting ∧ c.finishing = true ∧ handed acts = [])

/-- A message that is not audio leaves the channel. -/
theorem Queues.line_control {q : Queues} {m : Outbound} {out : List Outbound} (h : q.out = m :: out)
    (hm : m.frame = none) : q.line = ({ q with out } : Queues).line := by
  simp [line, channel, h, hm]

theorem Conn.Moves.line {c : Conn} {q q' : Queues} {e : Event} {v : Verdict} {acts : List Act}
    (h : c.Moves q e v q' acts) (hpcm : ∀ frame ∈ q.line, frame.pcm ≠ []) (hfl : c.Flushed q) :
    (∃ fs, q.line = fs ++ q'.line ∧ c.Hands fs acts) ∧ ∀ c', v = .stay c' → c'.Flushed q' := by
  have stays : ∀ {acts : List Act}, handed acts = [] → ∃ fs, q.line = fs ++ q.line ∧ c.Hands fs acts :=
    fun ha => ⟨[], rfl, .inl ha⟩
  have control : ∀ {m : Outbound} {out : List Outbound} {acts : List Act}, q.out = m :: out →
      m.frame = none → handed acts = [] →
      ∃ fs, q.line = fs ++ ({ q with out } : Queues).line ∧ c.Hands fs acts := by
    intro m out acts hout hm ha
    exact ⟨[], Queues.line_control hout hm, .inl ha⟩
  -- a frame does, with nothing ahead of it in `pending`
  have take : ∀ {frame : AudioFrame} {out : List Outbound}, q.out = .audio frame :: out →
      c.point.unflushed = false →
      q.line = [frame] ++ (({ q with out } : Queues).release frame.samples).line ∧
        handed [.took (.audio frame), .write (.binary frame.pcm)] = [frame].map AudioFrame.pcm := by
    intro frame out hout hp
    have hmem : frame ∈ q.line := by simp [Queues.line, Queues.channel, hout, Outbound.frame]
    refine ⟨?_, handed_binary (hpcm frame hmem)⟩
    simp [Queues.line, Queues.channel, Queues.release, hout, Outbound.frame, hfl hp]
  cases h with
  | opened hp => exact ⟨stays rfl, fun c' hc hu => by cases hc; cases hu⟩
  | flush hp hpend =>
      rename_i frame pending
      have hmem : frame ∈ q.line := by simp [Queues.line, hpend]
      refine ⟨⟨[frame], by simp [Queues.line, Queues.channel, Queues.release, hpend], .inl ?_⟩, ?_⟩
      · exact handed_binary (hpcm frame hmem)
      · exact fun c' hc hu => by cases hc; cases hu
  | flushed hp hpend => exact ⟨stays rfl, fun c' hc _ => hpend⟩
  | drainAudio hp hout =>
      obtain ⟨hline, hh⟩ := take hout (by rw [hp]; rfl)
      exact ⟨⟨_, hline, .inl hh⟩, fun c' hc _ => hfl (by rw [hp]; rfl)⟩
  | upload hp hout hf =>
      obtain ⟨hline, hh⟩ := take hout (by rw [hp]; rfl)
      exact ⟨⟨_, hline, .inl hh⟩, fun c' hc _ => hfl (by rw [hp]; rfl)⟩
  | tooLate hp hout hf =>
      obtain ⟨hline, -⟩ := take hout (by rw [hp]; rfl)
      exact ⟨⟨_, hline, .inr ⟨hp, hf, rfl⟩⟩, fun c' hc _ => hfl (by rw [hp]; rfl)⟩
  | drainFinish hp hout | drainShutdown hp hout =>
      exact ⟨control hout rfl rfl, fun c' hc _ => hfl (by rw [hp]; rfl)⟩
  | takeShutdown hp hout | takeFinish hp hout hf | finishAgain hp hout hf =>
      exact ⟨control hout rfl rfl, fun c' hc _ => hfl (by rw [hp]; rfl)⟩
  | wrote ha =>
      refine ⟨stays rfl, ?_⟩
      intro c' hc hu
      cases hc
      exact hfl ((Point.unflushed_afterWrite ha).symm.trans hu)
  | drained hp | endedStream hp | ignored hp | pings hp | gaveUp hp =>
      exact ⟨stays rfl, fun c' hc _ => hfl (by rw [hp]; rfl)⟩
  | answered hp | dismissed hp =>
      rename_i r _ _
      exact ⟨stays (handed_messages (forward r)), fun c' hc _ => hfl (by rw [hp]; rfl)⟩
  | _ => exact ⟨stays rfl, fun c' hc => by cases hc⟩

/-! ## One `Finish` -/

/-- The queue is drained behind a `Finish`. -/
def Conn.Drains (c : Conn) : Prop := c.point = .draining ∨ c.point = .drainWriting

/-- A `Finish` has been taken on this connection. -/
def Conn.Took (c : Conn) : Prop := c.Drains ∨ c.point = .endingStream ∨ c.finishing = true

/-- The move takes no `Finish` that begins a drain. -/
theorem Conn.Drains.afterWrite {c : Conn} {point : Point} (ha : c.point.afterWrite = some point)
    (h : Conn.Drains { c with point }) : c.Drains := by
  cases hp : c.point <;> simp only [hp, Point.afterWrite, Option.some.injEq, reduceCtorEq] at ha <;>
    subst ha <;> simp [Drains, hp] at h ⊢

/-- A connection that has taken a `Finish` had done so before the move, or there is one less in the
channel; and a drain that goes on was going on before, or there was one. -/
theorem Conn.Moves.finish {c : Conn} {q q' : Queues} {e : Event} {v : Verdict} {acts : List Act}
    (h : c.Moves q e v q' acts) :
    q'.out.count .finish ≤ q.out.count .finish ∧
      ∀ c', v = .stay c' →
        (c'.Took → c.Took ∨ q'.out.count .finish < q.out.count .finish) ∧
        (c'.Drains → c.Drains ∨ .finish ∈ q.out) := by
  cases h with
  | wrote ha =>
      refine ⟨Nat.le_refl _, ?_⟩
      intro c' hc
      cases hc
      refine ⟨?_, fun hd => .inl (hd.afterWrite ha)⟩
      rintro (hd | hp | hf)
      · exact .inl (.inl (hd.afterWrite ha))
      · cases hp
        cases hp : c.point <;> simp [hp, Point.afterWrite] at ha
      · exact .inl (.inr (.inr hf))
  | opened hp | flush hp | flushed hp | drained hp | endedStream hp | ignored hp | answered hp
  | dismissed hp | pings hp | gaveUp hp =>
      refine ⟨Nat.le_refl _, ?_⟩
      intro c' hc
      cases hc
      simp [Conn.Took, Conn.Drains, Queues.release, hp]
  | drainAudio hp hout | drainFinish hp hout | drainShutdown hp hout | takeShutdown hp hout
  | takeFinish hp hout | finishAgain hp hout | upload hp hout | tooLate hp hout =>
      refine ⟨by simp [Queues.release, hout], ?_⟩
      intro c' hc
      cases hc
      simp [Conn.Took, Conn.Drains, Queues.release, hp, hout]
  | _ => exact ⟨Nat.le_refl _, fun c' hc => by cases hc⟩

/-! ## A move of the task -/

/-- A move that ends the connection begins no write. -/
theorem Conn.Moves.ended_write {c : Conn} {q q' : Queues} {e : Event} {o : Outcome} {acts : List Act}
    (h : c.Moves q e (.ended o) q' acts) (f : Frame) : .write f ∉ acts := by
  cases h <;> simp

namespace Task

variable {t t' : Task} {e : Event} {acts : List Act}

/-- After a connection has ended there is none, and nothing more is written. -/
structure Closed (res : Task × List Act) : Prop where
  phase : ∀ c, res.1.phase ≠ .connected c
  connect : .connect ∉ res.2
  write : ∀ f, .write f ∉ res.2
  data : dataFrames res.2 = []
  audio : handed res.2 = []

theorem onOutcome_closed (t : Task) (q : Queues) (o : Outcome) : Closed (t.onOutcome q o) := by
  cases o with
  | retry reason p =>
      rcases Nat.lt_or_ge MAX_RECONNECT_ATTEMPTS (nextAttempt t.attempt p) with h | h
      · obtain ⟨message, he⟩ := onOutcome_over t q reason h
        rw [he]
        exact ⟨by simp, by simp, by simp, rfl, rfl⟩
      · rw [onOutcome_again t q reason (Nat.not_lt.mpr h)]
        exact ⟨by simp, by simp, by simp, rfl, rfl⟩
  | _ => exact ⟨by simp [onOutcome], by simp [onOutcome], by simp [onOutcome], rfl, rfl⟩

/-- What has been written on the last connection, by where the task stands. -/
def Wire (t : Task) (frames : List Frame) : Prop :=
  match t.phase with
  | .connected c => c.Wire frames
  | _ => WireForm frames

theorem Wire.form {frames : List Frame} (h : t.Wire frames) : WireForm frames := by
  cases hp : t.phase with
  | connected c => simp only [Wire, hp] at h; exact h.form
  | _ => simpa only [Wire, hp] using h

theorem wire_of_phase {frames : List Frame} (hp : ∀ c, t.phase ≠ .connected c) (h : WireForm frames) :
    t.Wire frames := by
  cases hp' : t.phase with
  | connected c => exact absurd hp' (hp c)
  | _ => simpa only [Wire, hp'] using h

theorem own_wire {frames : List Frame} (h : t.own e = some (t', acts))
    (hpcm : ∀ frame ∈ t.queues.line, frame.pcm ≠ []) (hw : t.Wire frames) :
    (acts = [.connect] ∧ t'.phase = .connected {}) ∨
      (.connect ∉ acts ∧ t'.Wire (frames ++ dataFrames acts)) := by
  cases own_moves h with
  | started | slept => exact .inl ⟨rfl, rfl⟩
  | goes hp hm =>
      simp only [Wire, hp] at hw
      exact .inr ⟨hm.connect_not_mem, hm.wire hpcm hw⟩
  | ends hp hm =>
      rename_i c o q acts
      simp only [Wire, hp] at hw
      have hc := onOutcome_closed t q o
      have hform : WireForm (frames ++ dataFrames acts) := hm.wire hpcm hw
      refine .inr ⟨?_, wire_of_phase hc.phase ?_⟩
      · simp [hm.connect_not_mem, hc.connect]
      · rw [← List.singleton_append, dataFrames_append, dataFrames_append, hc.data]
        simpa [dataFrames] using hform
  | buffers hp hout =>
      refine .inr ⟨by simp, ?_⟩
      simpa [Wire, hp, dataFrames] using hw
  | unstarted hp | orphaned hp | stopped hp | finished hp | dropped hp =>
      refine .inr ⟨by simp, wire_of_phase (by simp) ?_⟩
      simpa [dataFrames] using hw.form

/-- `pending` is empty once the connection has flushed it. -/
def Flushed (t : Task) : Prop := ∀ c, t.phase = .connected c → c.Flushed t.queues

/-- All frames taken are handed to a write, unless end-of-stream is out. -/
def Hands (t : Task) (fs : List AudioFrame) (acts : List Act) : Prop :=
  handed acts = fs.map AudioFrame.pcm ∨
    ((∃ c, t.phase = .connected c ∧ c.point = .selecting ∧ c.finishing = true) ∧ handed acts = [])

/-- A frame the backoff takes from the channel goes to the end of `pending`. -/
theorem Flow.buffered {q : Queues} {delay : ℕ} {frame : AudioFrame} {out : List Outbound}
    (h : t.Flow e q) (hp : t.phase = .waiting delay) (hout : t.queues.out = .audio frame :: out)
    (hq : q.out = out) (hroom : t.queues.queued ≤ MAX_QUEUED_SAMPLES) : q.line = t.queues.line := by
  cases h with
  | still => exact absurd (hout.symm.trans hq) (List.cons_ne_self _ _)
  | control hf hout' hm =>
      obtain ⟨rfl, -⟩ := List.cons.inj (hout'.symm.trans hout)
      cases hm
  | flush hp' | take hp' => exact absurd (hp.symm.trans hp') (by simp)
  | buffer hp' hf hout' hle =>
      obtain ⟨hfr, rfl⟩ := List.cons.inj (hout'.symm.trans hout)
      cases hfr
      simp [Queues.line, Queues.channel, hout, Outbound.frame]
  | discard hp' hf hout' hover => exact absurd hroom (Nat.not_le.mpr hover)

theorem own_line (h : t.own e = some (t', acts)) (hroom : t.queues.queued ≤ MAX_QUEUED_SAMPLES)
    (hpcm : ∀ frame ∈ t.queues.line, frame.pcm ≠ []) (hfl : t.Flushed) :
    (∃ fs, t.queues.line = fs ++ t'.queues.line ∧ t.Hands fs acts) ∧ t'.Flushed := by
  have hflow := own_flow h
  cases own_moves h with
  | started | slept =>
      exact ⟨⟨[], rfl, .inl rfl⟩, fun c hc hu => by cases hc; cases hu⟩
  | goes hp hm =>
      obtain ⟨⟨fs, hline, hh⟩, hstay⟩ := hm.line hpcm (hfl _ hp)
      refine ⟨⟨fs, hline, ?_⟩, fun c hc => by cases hc; exact hstay _ rfl⟩
      rcases hh with hh | ⟨hpt, hf, hh⟩
      · exact .inl hh
      · exact .inr ⟨⟨_, hp, hpt, hf⟩, hh⟩
  | ends hp hm =>
      rename_i c o q acts
      obtain ⟨⟨fs, hline, hh⟩, -⟩ := hm.line hpcm (hfl _ hp)
      have hc := onOutcome_closed t q o
      have ha : handed (acts ++ .outcome o :: (t.onOutcome q o).2) = handed acts := by
        rw [← List.singleton_append, handed_append, handed_append, hc.audio]
        simp [handed]
      refine ⟨⟨fs, by rw [onOutcome_queues]; exact hline, ?_⟩, fun c' hc' => absurd hc' (hc.phase c')⟩
      rw [Hands, ha]
      rcases hh with hh | ⟨hpt, hf, hh⟩
      · exact .inl hh
      · exact .inr ⟨⟨_, hp, hpt, hf⟩, hh⟩
  | buffers hp hout hq hg =>
      rename_i delay frame out q
      exact ⟨⟨[], (hflow.buffered hp hout hq hroom).symm, .inl rfl⟩, fun c hc => by simp [hp] at hc⟩
  | stopped hp hout | finished hp hout =>
      exact ⟨⟨[], Queues.line_control hout rfl, .inl rfl⟩, fun c hc => by cases hc⟩
  | unstarted | orphaned | dropped => exact ⟨⟨[], rfl, .inl rfl⟩, fun c hc => by cases hc⟩

def Drains (t : Task) : Prop := ∃ c, t.phase = .connected c ∧ c.Drains

def Took (t : Task) : Prop := ∃ c, t.phase = .connected c ∧ c.Took

theorem own_finish (h : t.own e = some (t', acts)) :
    t'.queues.out.count .finish ≤ t.queues.out.count .finish ∧
      (t'.Took → t.Took ∨ t'.queues.out.count .finish < t.queues.out.count .finish) ∧
      (t'.Drains → t.Drains ∨ .finish ∈ t.queues.out) := by
  cases own_moves h with
  | started | slept =>
      refine ⟨Nat.le_refl _, ?_, ?_⟩
      · rintro ⟨c, hc, hk⟩
        cases hc
        simp [Conn.Took, Conn.Drains] at hk
      · rintro ⟨c, hc, hk⟩
        cases hc
        simp [Conn.Drains] at hk
  | goes hp hm =>
      obtain ⟨hle, hstay⟩ := hm.finish
      refine ⟨hle, ?_, ?_⟩
      · rintro ⟨c, hc, hk⟩
        cases hc
        exact ((hstay _ rfl).1 hk).imp_left fun hk => ⟨_, hp, hk⟩
      · rintro ⟨c, hc, hk⟩
        cases hc
        exact ((hstay _ rfl).2 hk).imp_left fun hk => ⟨_, hp, hk⟩
  | ends hp hm =>
      rename_i c o q acts
      have hc := onOutcome_closed t q o
      refine ⟨by rw [onOutcome_queues]; exact hm.finish.1, ?_, ?_⟩
      · rintro ⟨c', hc', -⟩
        exact absurd hc' (hc.phase c')
      · rintro ⟨c', hc', -⟩
        exact absurd hc' (hc.phase c')
  | buffers hp hout hq =>
      refine ⟨by simp [hout, hq], ?_, ?_⟩
      · rintro ⟨c, hc, -⟩
        simp [hp] at hc
      · rintro ⟨c, hc, -⟩
        simp [hp] at hc
  | stopped hp hout | finished hp hout =>
      refine ⟨by simp [hout], ?_, ?_⟩
      · rintro ⟨c, hc, -⟩
        cases hc
      · rintro ⟨c, hc, -⟩
        cases hc
  | unstarted | orphaned | dropped =>
      refine ⟨Nat.le_refl _, ?_, ?_⟩
      · rintro ⟨c, hc, -⟩
        cases hc
      · rintro ⟨c, hc, -⟩
        cases hc

/-- End-of-stream is written when the drain has found the channel empty. -/
theorem own_eos (h : t.own e = some (t', acts)) (hpcm : ∀ frame ∈ t.queues.line, frame.pcm ≠ [])
    (hmem : .write (.binary []) ∈ acts) :
    acts = [.write (.binary [])] ∧ t.Drains ∧ t.queues.channel = [] := by
  have audio : ∀ {frame : AudioFrame}, frame ∈ t.queues.line → frame.pcm = [] → False :=
    fun hm hp => hpcm _ hm hp
  cases own_moves h with
  | goes hp hm =>
      cases hm with
      | drained hpt hout => exact ⟨rfl, ⟨_, hp, .inl hpt⟩, by simp [Queues.channel, hout]⟩
      | flush hpt hpend =>
          simp only [List.mem_singleton, Act.write.injEq, Frame.binary.injEq] at hmem
          exact (audio (by simp [Queues.line, hpend]) hmem.symm).elim
      | drainAudio hpt hout | upload hpt hout =>
          simp only [List.mem_cons, reduceCtorEq, Act.write.injEq, Frame.binary.injEq,
            List.not_mem_nil, or_false, false_or] at hmem
          exact (audio (by simp [Queues.line, Queues.channel, hout, Outbound.frame]) hmem.symm).elim
      | _ => simp at hmem
  | ends hp hm =>
      rcases List.mem_append.mp hmem with hmem | hmem
      · exact absurd hmem (hm.ended_write _)
      · rcases List.mem_cons.mp hmem with hmem | hmem
        · cases hmem
        · exact absurd hmem ((onOutcome_closed t _ _).write _)
  | _ => simp at hmem

end Task

/-! ## The whole run -/

/-- What the task does, among what is seen. -/
def taskActs (os : List Seen) : List Act :=
  os.filterMap fun o => match o with
    | .act a => some a
    | _ => none

/-- The frames for which `send_audio` returned `Ok`. -/
def accepted (os : List Seen) : List AudioFrame :=
  os.filterMap fun o => match o with
    | .accepted frame => some frame
    | _ => none

@[simp] theorem taskActs_append (xs ys : List Seen) : taskActs (xs ++ ys) = taskActs xs ++ taskActs ys := by
  simp [taskActs]

@[simp] theorem accepted_append (xs ys : List Seen) : accepted (xs ++ ys) = accepted xs ++ accepted ys := by
  simp [accepted]

@[simp] theorem taskActs_map (acts : List Act) : taskActs (acts.map .act) = acts := by
  induction acts with
  | nil => rfl
  | cons a acts ih => exact congrArg (a :: ·) ih

@[simp] theorem accepted_map (acts : List Act) : accepted (acts.map .act) = [] := by
  induction acts with
  | nil => rfl
  | cons a acts ih => exact ih

/-- The frame of the call in progress. -/
def SendCall.frame : SendCall → Option AudioFrame
  | .idle => none
  | .loading frame | .counting frame | .sending frame | .undoing frame => some frame

/-- The `Finish` has not been taken, or the queue is still drained behind it. -/
def Upload.Early (u : Upload) : Prop :=
  u.finishSent = false ∨ .finish ∈ u.task.queues.out ∨ u.task.Drains

/-- What has been written on connection `k`. -/
def sentOn (k : ℕ) (os : List Seen) : List Frame := dataFrames (onConnection k (taskActs os))

/-- `os` is what has been seen when `finish` was called and everything accepted had been handed to a
write. -/
def Emptied (os : List Seen) : Prop :=
  .finish ∈ os ∧ handed (taskActs os) = (accepted os).map AudioFrame.pcm

structure Wired (os : List Seen) (u : Upload) : Prop where
  balanced : Balanced u
  past : ∀ k, k ≠ opened (taskActs os) → WireForm (sentOn k os)
  now : u.task.Wire (sentOn (opened (taskActs os)) os)
  audible : ∀ frame ∈ accepted os, frame.pcm ≠ []
  called : ∀ frame, u.call.frame = some frame → frame.pcm ≠ []
  flushed : u.task.Flushed
  ledger : ∃ gone, accepted os = gone ++ u.task.queues.line ∧
    (handed (taskActs os)).Sublist (gone.map AudioFrame.pcm) ∧
    (u.Early → handed (taskActs os) = gone.map AudioFrame.pcm)
  unsent : u.finishSent = false → .finish ∉ u.task.queues.out
  once : u.task.queues.out.count .finish ≤ 1
  took : u.task.Took → .finish ∉ u.task.queues.out ∧ u.finishSent = true
  finished : u.finishSent = true → .finish ∈ os
  eos : Mealy.Before (.act (.write (.binary []))) Emptied os

/-- What the task does that opens no connection is on the one there is. -/
theorem sentOn_append (k : ℕ) (os : List Seen) {acts : List Act} (h : .connect ∉ acts) :
    sentOn k (os ++ acts.map .act)
      = sentOn k os ++ if k = opened (taskActs os) then dataFrames acts else [] := by
  rw [sentOn, taskActs_append, taskActs_map, onConnection_append k _ h, dataFrames_append]
  split <;> rfl

theorem sentOn_connect (k : ℕ) (os : List Seen) :
    sentOn k (os ++ [.act .connect]) = sentOn k os := by
  rw [sentOn, taskActs_append]
  show dataFrames (onConnection k (taskActs os ++ [.connect])) = _
  rw [onConnection_connect, dataFrames_append]
  split <;> simp [dataFrames, sentOn]

namespace Wired

variable {os new : List Seen} {u u' : Upload}

theorem new_wired : Wired [] {} where
  balanced := .new
  past := fun k _ => .inl rfl
  now := .inl rfl
  audible := by simp [accepted]
  called := by simp [SendCall.frame]
  flushed := fun c hc => by cases hc
  ledger := ⟨[], rfl, .slnil, fun _ => rfl⟩
  unsent := fun _ hm => by cases hm
  once := Nat.zero_le _
  took := by rintro ⟨c, hc, -⟩; cases hc
  finished := by simp
  eos := .nil

/-- The frames in line are among those accepted. -/
theorem line_audible (h : Wired os u) : ∀ frame ∈ u.task.queues.line, frame.pcm ≠ [] := by
  obtain ⟨gone, hacc, -⟩ := h.ledger
  intro frame hm
  exact h.audible frame (by rw [hacc]; exact List.mem_append_right _ hm)

/-- A connection keeps its form under a move of the task. -/
theorem task_form (h : Wired os u) {e : Event} {t' : Task} {acts : List Act}
    (ho : u.task.own e = some (t', acts)) :
    (∀ k, k ≠ opened (taskActs (os ++ acts.map .act)) → WireForm (sentOn k (os ++ acts.map .act))) ∧
      t'.Wire (sentOn (opened (taskActs (os ++ acts.map .act))) (os ++ acts.map .act)) := by
  rcases Task.own_wire ho h.line_audible h.now with ⟨rfl, hp⟩ | ⟨hno, hw⟩
  · have hopen : opened (taskActs (os ++ [.act .connect])) = opened (taskActs os) + 1 := by
      rw [taskActs_append, opened_append]
      rfl
    rw [List.map_singleton, hopen]
    constructor
    · intro k hk
      rw [sentOn_connect]
      rcases eq_or_ne k (opened (taskActs os)) with rfl | hne
      · exact h.now.form
      · exact h.past k hne
    · have hnone : sentOn (opened (taskActs os) + 1) os = [] := by
        rw [sentOn, onConnection_of_lt (Nat.lt_succ_self _)]
        rfl
      rw [sentOn_connect, hnone]
      simp [Task.Wire, hp, Conn.Wire]
  · have hopen : opened (taskActs (os ++ acts.map .act)) = opened (taskActs os) := by
      rw [taskActs_append, taskActs_map, opened_append, opened, opened, List.count_eq_zero_of_not_mem hno,
        Nat.add_zero]
    rw [hopen]
    constructor
    · intro k hk
      rw [sentOn_append k os hno, if_neg hk, List.append_nil]
      exact h.past k hk
    · rw [sentOn_append _ os hno, if_pos rfl]
      exact hw

/-- What is seen when the drain finds the channel empty. -/
theorem emptied (h : Wired os u) (hd : u.task.Drains) (hc : u.task.queues.channel = []) :
    Emptied os := by
  obtain ⟨gone, hacc, -, hearly⟩ := h.ledger
  obtain ⟨c, hp, hpt⟩ := hd
  have htook : u.task.Took := ⟨c, hp, .inl hpt⟩
  refine ⟨h.finished (h.took htook).2, ?_⟩
  have hpend : u.task.queues.pending = [] :=
    h.flushed c hp (by rcases hpt with hpt | hpt <;> rw [hpt] <;> rfl)
  rw [hearly (.inr (.inr ⟨c, hp, hpt⟩)), hacc, Queues.line, hpend, hc, List.append_nil, List.append_nil]

/-- What is accepted and handed over, behind a move of the task. -/
theorem task_ledger (h : Wired os u) {e : Event} {t' : Task} {acts : List Act}
    (ho : u.task.own e = some (t', acts)) (hnone : .finish ∉ u.task.queues.out → .finish ∉ t'.queues.out)
    {u' : Upload} (hline' : u'.task.queues.line = t'.queues.line)
    (hearly' : u'.Early → u.finishSent = false ∨ .finish ∈ t'.queues.out ∨ t'.Drains) :
    ∃ gone, accepted (os ++ acts.map .act) = gone ++ u'.task.queues.line ∧
      (handed (taskActs (os ++ acts.map .act))).Sublist (gone.map AudioFrame.pcm) ∧
      (u'.Early → handed (taskActs (os ++ acts.map .act)) = gone.map AudioFrame.pcm) := by
  obtain ⟨⟨fs, hline, hhands⟩, -⟩ := Task.own_line ho h.balanced.ceiling h.line_audible h.flushed
  obtain ⟨-, -, hdrain⟩ := Task.own_finish ho
  obtain ⟨gone, hacc, hsublist, hearly⟩ := h.ledger
  refine ⟨gone ++ fs, ?_, ?_, ?_⟩
  · rw [accepted_append, accepted_map, List.append_nil, hacc, hline, hline', List.append_assoc]
  · rw [taskActs_append, taskActs_map, handed_append, List.map_append]
    rcases hhands with hh | ⟨-, hh⟩
    · rw [hh]
      exact hsublist.append_right _
    · rw [hh, List.append_nil]
      exact hsublist.trans (List.sublist_append_left _ _)
  · intro he
    have he₀ : u.Early := by
      rcases hearly' he with he | he | he
      · exact .inl he
      · exact .inr (.inl (Decidable.byContradiction fun hn => hnone hn he))
      · rcases hdrain he with hd | hm
        · exact .inr (.inr hd)
        · exact .inr (.inl hm)
    rw [taskActs_append, taskActs_map, handed_append, List.map_append, hearly he₀]
    rcases hhands with hh | ⟨⟨c, hp, hpt, hf⟩, -⟩
    · rw [hh]
    · -- a frame let go after end-of-stream: the `Finish` has been taken, and the drain is past
      obtain ⟨hn, hs⟩ := h.took ⟨c, hp, .inr (.inr hf)⟩
      rcases he₀ with he₀ | he₀ | ⟨c', hp', hd⟩
      · rw [hs] at he₀; cases he₀
      · exact absurd he₀ hn
      · obtain rfl : c = c' := by simpa [hp] using hp'
        rcases hd with hd | hd <;> rw [hpt] at hd <;> cases hd

/-- The task moves. -/
theorem task (h : Wired os u) {e : Event} {t' : Task} {acts : List Act}
    (hsub : u.subtracting = none) (ho : u.task.own e = some (t', acts)) :
    Wired (os ++ acts.map .act) { u with
      task := { t' with queues.queued := u.task.queues.queued }
      subtracting := u.task.operand e } := by
  obtain ⟨-, hfl⟩ := Task.own_line ho h.balanced.ceiling h.line_audible h.flushed
  obtain ⟨hle, htook, -⟩ := Task.own_finish ho
  obtain ⟨hpast, hnow⟩ := h.task_form ho
  have hnone : .finish ∉ u.task.queues.out → .finish ∉ t'.queues.out := by
    intro hn
    rw [← List.count_eq_zero] at hn ⊢
    omega
  refine ⟨h.balanced.task hsub ho, hpast, hnow, by simpa using h.audible, h.called, hfl,
    h.task_ledger ho hnone rfl id, fun hs => hnone (h.unsent hs), Nat.le_trans hle h.once, ?_,
    fun hs => List.mem_append_left _ (h.finished hs), ?_⟩
  · intro ht
    rcases htook ht with ht | hlt
    · exact ⟨hnone (h.took ht).1, (h.took ht).2⟩
    · have hz : t'.queues.out.count .finish = 0 := by have := h.once; omega
      refine ⟨List.count_eq_zero.mp hz, ?_⟩
      show u.finishSent = true
      cases hs : u.finishSent with
      | true => rfl
      | false =>
          have := List.count_eq_zero.mpr (h.unsent hs)
          omega
  · refine h.eos.append ?_
    intro hm
    obtain ⟨a, ha, hae⟩ := List.mem_map.mp hm
    obtain rfl : a = .write (.binary []) := by simpa using hae
    obtain ⟨rfl, hd, hc⟩ := Task.own_eos ho h.line_audible ha
    exact ⟨rfl, h.emptied hd hc⟩

/-- How the sender's part of `finish` goes: nothing happens, or it is called for the first time. -/
inductive FinishCall (u u' : Upload) (ms : List Outbound) (new : List Seen) : Prop
  | none : u'.finishSent = u.finishSent → .finish ∉ ms → FinishCall u u' ms new
  | first : u.finishSent = false → u'.finishSent = true → ms.count .finish ≤ 1 → .finish ∈ new →
      FinishCall u u' ms new

/-- What is accepted and handed over, when the sender puts `ms` in the channel. -/
theorem sends_ledger (h : Wired os u) (ms : List Outbound) (hphase : u'.task.phase = u.task.phase)
    (hout : u'.task.queues.out = u.task.queues.out ++ ms) (hta : taskActs (os ++ new) = taskActs os)
    (hline : u'.task.queues.line = u.task.queues.line ++ accepted new)
    (hfin : FinishCall u u' ms new) :
    ∃ gone, accepted (os ++ new) = gone ++ u'.task.queues.line ∧
      (handed (taskActs (os ++ new))).Sublist (gone.map AudioFrame.pcm) ∧
      (u'.Early → handed (taskActs (os ++ new)) = gone.map AudioFrame.pcm) := by
  obtain ⟨gone, hg, hsub, hearly⟩ := h.ledger
  refine ⟨gone, ?_, by rwa [hta], ?_⟩
  · rw [accepted_append, hg, hline, List.append_assoc]
  · intro he
    rw [hta]
    refine hearly ?_
    rcases he with he | he | ⟨c, hc, hd⟩
    · cases hfin with
      | none hs _ => exact .inl (hs.symm.trans he)
      | first hs => exact .inl hs
    · rw [hout] at he
      rcases List.mem_append.mp he with he | he
      · exact .inr (.inl he)
      · cases hfin with
        | none _ hn => exact absurd he hn
        | first hs => exact .inl hs
    · exact .inr (.inr ⟨c, hphase.symm.trans hc, hd⟩)

/-- The sender puts `ms` in the channel. -/
theorem sends (h : Wired os u) (ms : List Outbound) (hb : Balanced u')
    (hphase : u'.task.phase = u.task.phase)
    (hpend : u'.task.queues.pending = u.task.queues.pending)
    (hout : u'.task.queues.out = u.task.queues.out ++ ms) (hacts : taskActs new = [])
    (hacc : accepted new = ms.filterMap Outbound.frame)
    (hpcm : ∀ frame ∈ accepted new, frame.pcm ≠ [])
    (hcall : ∀ frame, u'.call.frame = some frame → frame.pcm ≠ [])
    (hfin : FinishCall u u' ms new) : Wired (os ++ new) u' := by
  have hta : taskActs (os ++ new) = taskActs os := by rw [taskActs_append, hacts, List.append_nil]
  have hsent : ∀ k, sentOn k (os ++ new) = sentOn k os := fun k => by rw [sentOn, hta, sentOn]
  have hline : u'.task.queues.line = u.task.queues.line ++ accepted new := by
    simp [Queues.line, Queues.channel, hpend, hout, hacc]
  refine ⟨hb, ?_, ?_, ?_, hcall, ?_, h.sends_ledger ms hphase hout hta hline hfin, ?_, ?_, ?_, ?_, ?_⟩
  · intro k hk
    rw [hta] at hk
    rw [hsent]
    exact h.past k hk
  · rw [hta, hsent]
    have hnow := h.now
    rwa [Task.Wire, ← hphase] at hnow
  · intro frame hm
    rw [accepted_append] at hm
    rcases List.mem_append.mp hm with hm | hm
    · exact h.audible frame hm
    · exact hpcm frame hm
  · intro c hc hu
    rw [hpend]
    exact h.flushed c (hphase.symm.trans hc) hu
  · intro hs
    cases hfin with
    | none hs' hn =>
        rw [hout, List.mem_append, not_or]
        exact ⟨h.unsent (hs'.symm.trans hs), hn⟩
    | first _ hs' => rw [hs'] at hs; cases hs
  · rw [hout, List.count_append]
    cases hfin with
    | none _ hn => rw [List.count_eq_zero_of_not_mem hn]; exact h.once
    | first hs _ hc _ => rw [List.count_eq_zero_of_not_mem (h.unsent hs)]; omega
  · rintro ⟨c, hc, hk⟩
    obtain ⟨hn, hs⟩ := h.took ⟨c, hphase.symm.trans hc, hk⟩
    cases hfin with
    | none hs' hn' =>
        rw [hout, List.mem_append, not_or]
        exact ⟨⟨hn, hn'⟩, hs'.trans hs⟩
    | first hs' => rw [hs'] at hs; cases hs
  · intro hs
    cases hfin with
    | none hs' _ => exact List.mem_append_left _ (h.finished (hs'.symm.trans hs))
    | first _ _ _ hm => exact List.mem_append_right _ hm
  · refine h.eos.append ?_
    intro hm
    have hin : .write (.binary []) ∈ taskActs new := List.mem_filterMap.mpr ⟨_, hm, rfl⟩
    rw [hacts] at hin
    cases hin

/-- The sender does something that leaves the channel as it is. -/
theorem aside (h : Wired os u) (hb : Balanced u') (hphase : u'.task.phase = u.task.phase)
    (hpend : u'.task.queues.pending = u.task.queues.pending)
    (hout : u'.task.queues.out = u.task.queues.out) (hacts : taskActs new = [])
    (hacc : accepted new = []) (hcall : ∀ frame, u'.call.frame = some frame → frame.pcm ≠ [])
    (hfin : FinishCall u u' [] new) : Wired (os ++ new) u' :=
  h.sends [] hb hphase hpend (hout.trans (List.append_nil _).symm) hacts hacc
    (fun frame hm => by rw [hacc] at hm; cases hm) hcall hfin

/-- A message that is not audio is posted, or the task is gone. -/
theorem post (h : Wired os u) {m : Outbound} {finishSent dropped : Bool} {new : List Seen}
    (hm : m.frame = none) (hacts : taskActs new = []) (hacc : accepted new = [])
    (hb : Balanced ({ u with finishSent, dropped }.post m))
    (hfin : ∀ ms u', ms = [] ∨ ms = [m] → u'.finishSent = finishSent → FinishCall u u' ms new) :
    Wired (os ++ new) ({ u with finishSent, dropped }.post m) := by
  rcases Upload.post_cases { u with finishSent, dropped } m with hp | hp
  · rw [hp] at hb ⊢
    exact h.aside hb rfl rfl rfl hacts hacc h.called (hfin _ _ (.inl rfl) rfl)
  · rw [hp] at hb ⊢
    exact h.sends [m] hb rfl rfl rfl hacts (by rw [hacc]; simp [hm])
      (fun frame hf => by rw [hacc] at hf; cases hf) h.called (hfin _ _ (.inr rfl) rfl)

theorem step {m : UploadMove} (h : Wired os u) (hs : Upload.step u m = some (u', new)) :
    Wired (os ++ new) u' := by
  have hb := h.balanced.step hs
  -- a call in progress is about the frame it was made with
  have same {call : SendCall} {frame : AudioFrame} (hc : u.call.frame = some frame)
      (hsame : call.frame = some frame) : ∀ frame', call.frame = some frame' → frame'.pcm ≠ [] := by
    intro frame' hf
    obtain rfl : frame = frame' := Option.some.inj (hsame.symm.trans hf)
    exact h.called frame hc
  cases Upload.moves_of_step hs with
  | task hsub ho => exact h.task hsub ho
  | subtract | refused | finished =>
      exact h.aside hb rfl rfl rfl rfl rfl h.called (.none rfl List.not_mem_nil)
  | @called frame _ hne =>
      refine h.aside hb rfl rfl rfl rfl rfl ?_ (.none rfl List.not_mem_nil)
      intro frame' hf
      obtain rfl : frame = frame' := by simpa [SendCall.frame] using hf
      exact hne
  | full | undone =>
      exact h.aside hb rfl rfl rfl rfl rfl (by simp [SendCall.frame]) (.none rfl List.not_mem_nil)
  | fits hc | counted hc | closed hc =>
      exact h.aside hb rfl rfl rfl rfl rfl (same (by rw [hc]; rfl) rfl) (.none rfl List.not_mem_nil)
  | @sent frame hc =>
      have hne := h.called frame (by rw [hc]; rfl)
      exact h.sends [.audio frame] hb rfl rfl rfl rfl rfl (by simpa [accepted] using hne)
        (by simp [SendCall.frame]) (.none rfl (by simp))
  | finish _ hfirst =>
      refine h.post rfl rfl rfl hb ?_
      intro ms u' hms hu'
      refine .first hfirst hu' ?_ (by simp)
      rcases hms with rfl | rfl <;> simp
  | drop =>
      refine h.post rfl rfl rfl hb ?_
      intro ms u' hms hu'
      refine .none hu' ?_
      rcases hms with rfl | rfl <;> simp

theorem run {ms : List UploadMove} (h : Mealy.run Upload.step {} ms = some (u, os)) : Wired os u :=
  Mealy.run_sound (P := fun _ u os => Wired os u) (fun _ _ _ _ _ _ hw hs => hw.step hs) new_wired h

end Wired

/-- **Wire protocol of the upload.**  Whatever the client is called with and whatever the network
does: on each connection goes one start request, then frames that are not empty, then at most one
empty frame and nothing more; an empty frame is written only after `finish` was called, and
everything accepted before has been handed to a write by then; and the frames that are not empty,
over all connections, are accepted frames, in order and none twice. -/
theorem wire_protocol {ms : List UploadMove} {u : Upload} {os : List Seen}
    (h : Mealy.run Upload.step {} ms = some (u, os)) :
    (∀ k, WireForm (sentOn k os)) ∧
    (∀ before after, os = before ++ .act (.write (.binary [])) :: after →
      ∃ xs ys, before = xs ++ .finish :: ys ∧ .finish ∉ xs ∧
        (accepted xs).map AudioFrame.pcm <+: handed (taskActs before)) ∧
    (handed (taskActs os)).Sublist ((accepted os).map AudioFrame.pcm) := by
  have hw := Wired.run h
  refine ⟨?_, ?_, ?_⟩
  · intro k
    rcases eq_or_ne k (opened (taskActs os)) with rfl | hk
    · exact hw.now.form
    · exact hw.past k hk
  · intro before after hos
    obtain ⟨hfin, hall⟩ := hw.eos before after hos
    obtain ⟨xs, ys, rfl, hxs⟩ := List.eq_append_cons_of_mem hfin
    refine ⟨xs, ys, rfl, hxs, ?_⟩
    rw [hall, accepted_append, List.map_append]
    exact List.prefix_append _ _
  · obtain ⟨gone, hacc, hsub, -⟩ := hw.ledger
    rw [hacc, List.map_append]
    exact hsub.trans (List.sublist_append_left _ _)

/-- A frame and the end of the stream, on one connection. -/
theorem wire_protocol_finish :
    ∃ u os, Mealy.run Upload.step {}
        [.task (.runtime (.ok ())), .sendAudio ⟨[1, 0], 1⟩, .turn, .turn, .turn,
          .task (.opened (.ok ())), .task (.written (.ok ())), .task .turn, .finish, .task .recv,
          .subtract, .task (.written (.ok ())), .task .recv, .task .turn] = some (u, os) ∧
      sentOn 1 os = [.start, .binary [1, 0], .binary []] ∧ WireForm (sentOn 1 os) := by
  refine ⟨_, _, rfl, rfl, ?_⟩
  refine (wire_protocol (show Mealy.run Upload.step {}
    [.task (.runtime (.ok ())), .sendAudio ⟨[1, 0], 1⟩, .turn, .turn, .turn,
      .task (.opened (.ok ())), .task (.written (.ok ())), .task .turn, .finish, .task .recv,
      .subtract, .task (.written (.ok ())), .task .recv, .task .turn] = some (_, _) from rfl)).1 1

end Larmindon.Soniox
