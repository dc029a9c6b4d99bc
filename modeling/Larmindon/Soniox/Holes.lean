/-
# `Soniox.Holes` — when every frame accepted gets through

A frame is taken off its queue before its write is attempted, and a write that
fails ends the connection: the frame is in no queue any more, and the next
connection goes on with the one behind it.  So the frames written successfully
are the frames accepted, but for those whose write failed.  `upload_hole_iff` is
that as an equivalence, at the moments the queues have run empty: nothing is
missing exactly when no write of a frame has failed.  `upload_hole` is one frame
lost.

`endedWrites` reads the outcome of each write off the acts of the task, with the
number of the connection.
-/
import Larmindon.Soniox.Wire

namespace Larmindon.Soniox

/-! ## Writes and their outcomes -/

/-- The frame being written, and the writes of frames that have ended: on which connection, of what,
and whether they succeeded. -/
abbrev WriteLog := Option (List UInt8) × List (ℕ × List UInt8 × Bool)

/-- The task awaits each write before it does anything else, so an outcome is that of the last write. -/
def noteWrite (l : WriteLog) (na : ℕ × Act) : WriteLog :=
  match na.2 with
  | .write (.binary (b :: bs)) => (some (b :: bs), l.2)
  | .write _ => (none, l.2)
  | .wrote ok =>
      match l.1 with
      | some pcm => (none, l.2 ++ [(na.1, pcm, ok)])
      | none => l
  | _ => l

def writeLog (acts : List Act) : WriteLog := (number 0 acts).foldl noteWrite (none, [])

/-- The writes of frames that have ended. -/
def endedWrites (os : List Seen) : List (ℕ × List UInt8 × Bool) := (writeLog (taskActs os)).2

/-- The frames written successfully, each with its connection. -/
def uploaded (os : List Seen) : List (ℕ × List UInt8) :=
  ((endedWrites os).filter fun w => w.2.2).map fun w => (w.1, w.2.1)

/-- A frame is being written. -/
def Point.uploads : Point → Bool
  | .flushWriting | .uploading | .drainWriting => true
  | _ => false

/-- The move is the failure of the write of a frame. -/
def Upload.loses (u : Upload) (m : UploadMove) : Bool :=
  match u.task.phase, m with
  | .connected c, .task (.written (.error _)) => c.point.uploads
  | _, _ => false

/-- A connection is open, both queues are empty, nothing is being written, and neither has the session
ended nor was `finish` called. -/
structure Upload.Quiet (u : Upload) : Prop where
  open_ : ∃ c, u.task.phase = .connected c ∧ (c.point = .selecting ∨ c.point = .flushing)
  channel : u.task.queues.out = []
  pending : u.task.queues.pending = []
  unfinished : u.finishSent = false

/-! ## The log under a move -/

theorem noteWrite_audio {l : WriteLog} {k : ℕ} {pcm : List UInt8} (h : pcm ≠ []) :
    noteWrite l (k, .write (.binary pcm)) = (some pcm, l.2) := by
  cases pcm with
  | nil => exact absurd rfl h
  | cons b bs => rfl

theorem noteWrite_messages (l : WriteLog) (k : ℕ) {acts : List Act}
    (h : ∀ a ∈ acts, ∃ m, a = .message m) : (acts.map (k, ·)).foldl noteWrite l = l := by
  induction acts with
  | nil => rfl
  | cons a acts ih =>
      obtain ⟨m, rfl⟩ := h a List.mem_cons_self
      exact ih fun b hb => h b (List.mem_cons_of_mem _ hb)

/-- What the acts of one move add to the log: `ended`, and the frame now being written. -/
structure Noted (k : ℕ) (acts : List Act) (w : Option (List UInt8))
    (ended : List (ℕ × List UInt8 × Bool)) (w' : Option (List UInt8)) : Prop where
  log : ∀ done, (acts.map (k, ·)).foldl noteWrite (w, done) = (w', done ++ ended)
  handed : w.toList ++ handed acts = ended.map (fun d => d.2.1) ++ w'.toList

/-- What the log is after a verdict: a frame is being written where the connection awaits one. -/
def Verdict.Writing (v : Verdict) (w : Option (List UInt8)) : Prop :=
  match v with
  | .stay c => w.isSome = c.point.uploads
  | .ended _ => w = none

namespace Conn

variable {c c' : Conn} {q : Queues} {e : Event} {v : Verdict} {acts : List Act} {k : ℕ}
  {w : Option (List UInt8)}

/-- What a move adds to the log: every frame whose write has begun is the one being written, or is
noted with the outcome. -/
def Notes (c : Conn) (e : Event) (v : Verdict) (k : ℕ) (w : Option (List UInt8)) (acts : List Act) :
    Prop :=
  ∃ ended w', Noted k acts w ended w' ∧ v.Writing w' ∧
    ((∀ d ∈ ended, d.2.2 = true) ↔ ¬ (c.point.uploads = true ∧ ∃ err, e = .written (.error err)))

/-- Nothing is being written and no write of a frame begins. -/
theorem notes_nothing (hw : w.isSome = c.point.uploads) (hu : c.point.uploads = false)
    (hlog : ∀ done, (acts.map (k, ·)).foldl noteWrite (none, done) = (none, done))
    (hh : handed acts = []) (hv : v.Writing none) : c.Notes e v k w acts := by
  obtain rfl : w = none := Option.isNone_iff_eq_none.mp (by simpa [hu] using hw)
  refine ⟨[], none, ⟨fun done => by rw [hlog, List.append_nil], by rw [hh]; rfl⟩, hv, ?_⟩
  simp [hu]

/-- The write of a frame begins. -/
theorem notes_begins (hw : w.isSome = c.point.uploads) {frame : AudioFrame} (pre : List Act)
    (hu : c.point.uploads = false) (hne : frame.pcm ≠ []) (hu' : c'.point.uploads = true)
    (hlog : ∀ l, (pre.map (k, ·)).foldl noteWrite l = l) (hh : handed pre = []) :
    c.Notes e (.stay c') k w (pre ++ [.write (.binary frame.pcm)]) := by
  obtain rfl : w = none := Option.isNone_iff_eq_none.mp (by simpa [hu] using hw)
  refine ⟨[], some frame.pcm, ⟨?_, ?_⟩, hu'.symm, by simp [hu]⟩
  · intro done
    rw [List.map_append, List.foldl_append, hlog]
    simp [noteWrite_audio hne]
  · rw [handed_append, hh, handed_binary hne]
    rfl

/-- A write ends, of a frame or not. -/
theorem notes_ends (hw : w.isSome = c.point.uploads) {ok : Bool} (hv : v.Writing none)
    (hok : ok = true ↔ ¬ ∃ err, e = .written (.error err)) : c.Notes e v k w [.wrote ok] := by
  cases w with
  | none => exact notes_nothing hw hw.symm (fun _ => rfl) rfl hv
  | some pcm =>
      refine ⟨[(k, pcm, ok)], none, ⟨fun done => rfl, rfl⟩, hv, ?_⟩
      rw [← hw]
      simpa using hok

end Conn

theorem Conn.Moves.noted {c : Conn} {q q' : Queues} {e : Event} {v : Verdict} {acts : List Act}
    (h : c.Moves q e v q' acts) (hpcm : ∀ frame ∈ q.line, frame.pcm ≠ []) (k : ℕ)
    {w : Option (List UInt8)} (hw : w.isSome = c.point.uploads) : c.Notes e v k w acts := by
  cases h with
  | flush hp hpend =>
      exact notes_begins hw [] (by rw [hp]; rfl) (hpcm _ (by simp [Queues.line, hpend])) rfl (fun _ => rfl) rfl
  | drainAudio hp hout | upload hp hout =>
      exact notes_begins hw [.took _] (by rw [hp]; rfl)
        (hpcm _ (by simp [Queues.line, Queues.channel, hout, Outbound.frame])) rfl (fun _ => rfl) rfl
  | wrote ha =>
      refine notes_ends hw ?_ (by simp)
      cases hp : c.point <;> rw [hp] at ha <;> cases ha <;> rfl
  | writeFailed ha => exact notes_ends hw rfl (by simp)
  | endedStream hp => exact notes_ends hw rfl (by simp)
  | streamLost hp => exact notes_ends hw rfl (by simp)
  | opened hp | flushed hp | drainFinish hp | drainShutdown hp | drained hp | takeShutdown hp
  | takeFinish hp | finishAgain hp | tooLate hp | ignored hp | pings hp | gaveUp hp | timedOut hp
  | unreachable hp | unbuildable hp | closed hp | orphaned hp | lost hp | unexpected hp | rejected hp
  | failed hp =>
      exact notes_nothing hw (by rw [hp]; rfl) (fun _ => rfl) rfl (by simp [Verdict.Writing, Point.uploads, hp])
  | answered hp =>
      rename_i r _ _
      refine notes_nothing hw (by rw [hp]; rfl) ?_ (handed_messages (forward r)) ?_
      · intro done
        show (((forward r).map fun r => Act.message (.response r)).map (k, ·)).foldl noteWrite _ = _
        exact noteWrite_messages _ k (by simp)
      · simp [Verdict.Writing, Point.uploads, hp]
  | dismissed hp =>
      rename_i r _ _
      refine notes_nothing hw (by rw [hp]; rfl) ?_ (handed_messages (forward r)) rfl
      intro done
      show (((forward r).map fun r => Act.message (.response r)).map (k, ·)).foldl noteWrite _ = _
      exact noteWrite_messages _ k (by simp)

/-! ## The log of a run -/

namespace Task

variable {t t' : Task} {e : Event} {acts : List Act}

/-- A frame is being written. -/
def uploads (t : Task) : Bool :=
  match t.phase with
  | .connected c => c.point.uploads
  | _ => false

theorem uploads_connected {c : Conn} (h : t.phase = .connected c) : t.uploads = c.point.uploads := by
  simp only [uploads, h]

theorem uploads_eq_false (h : ∀ c, t.phase ≠ .connected c) : t.uploads = false := by
  cases hp : t.phase with
  | connected c => exact absurd hp (h c)
  | _ => simp [uploads, hp]

theorem own_noted (h : t.own e = some (t', acts)) (hpcm : ∀ frame ∈ t.queues.line, frame.pcm ≠ [])
    (k : ℕ) {w : Option (List UInt8)} (hw : w.isSome = t.uploads) :
    ∃ ended w', (∀ done, (number k acts).foldl noteWrite (w, done) = (w', done ++ ended)) ∧
      w.toList ++ handed acts = ended.map (fun d => d.2.1) ++ w'.toList ∧ w'.isSome = t'.uploads ∧
      ((∀ d ∈ ended, d.2.2 = true) ↔ ¬ (t.uploads = true ∧ ∃ err, e = .written (.error err))) := by
  -- outside a connection nothing is written
  have apart : (∀ c, t.phase ≠ .connected c) → t'.uploads = false →
      (∀ done, (number k acts).foldl noteWrite (none, done) = (none, done)) → handed acts = [] →
      ∃ ended w', (∀ done, (number k acts).foldl noteWrite (w, done) = (w', done ++ ended)) ∧
        w.toList ++ handed acts = ended.map (fun d => d.2.1) ++ w'.toList ∧ w'.isSome = t'.uploads ∧
        ((∀ d ∈ ended, d.2.2 = true) ↔
          ¬ (t.uploads = true ∧ ∃ err, e = .written (.error err))) := by
    intro hp hu hlog hh
    have hu₀ := uploads_eq_false hp
    obtain rfl : w = none := Option.isNone_iff_eq_none.mp (by simpa [hu₀] using hw)
    exact ⟨[], none, fun done => by rw [hlog, List.append_nil], by rw [hh]; rfl, hu.symm, by simp [hu₀]⟩
  cases own_moves h with
  | goes hp hm =>
      rw [uploads_connected hp] at hw ⊢
      obtain ⟨ended, w', hn, hv, hok⟩ := hm.noted hpcm k hw
      refine ⟨ended, w', ?_, hn.handed, hv, hok⟩
      rw [number_of_not_mem hm.connect_not_mem]
      exact hn.log
  | ends hp hm =>
      rename_i c o q acts
      have hc := onOutcome_closed t q o
      rw [uploads_connected hp] at hw ⊢
      obtain ⟨ended, w', hn, hv, hok⟩ := hm.noted hpcm k hw
      obtain rfl : w' = none := hv
      refine ⟨ended, none, ?_, ?_, (uploads_eq_false hc.phase).symm, hok⟩
      · intro done
        rw [number_of_not_mem (by simp [hm.connect_not_mem, hc.connect]), List.map_append,
          List.foldl_append, hn.log]
        show ((t.onOutcome q o).2.map (k, ·)).foldl noteWrite _ = _
        exact noteWrite_messages _ k (onOutcome_messages t q o)
      · rw [← hn.handed, ← List.singleton_append, handed_append, handed_append, hc.audio]
        simp [handed]
  | started hp | unstarted hp | slept hp | orphaned hp | buffers hp | stopped hp | finished hp
  | dropped hp =>
      exact apart (by simp [hp]) (by simp [uploads, hp, Point.uploads]) (fun _ => rfl) rfl

end Task

/-- Every frame handed to a write is the one being written, or its write has ended. -/
structure Noting (os : List Seen) (u : Upload) : Prop where
  writing : (writeLog (taskActs os)).1.isSome = u.task.uploads
  handed : handed (taskActs os)
    = (endedWrites os).map (fun d => d.2.1) ++ (writeLog (taskActs os)).1.toList

theorem writeLog_append (acts new : List Act) :
    writeLog (acts ++ new) = (number (opened acts) new).foldl noteWrite (writeLog acts) := by
  rw [writeLog, number_append, List.foldl_append, Nat.zero_add, writeLog]

/-- Only the task's own moves act, or change where it stands. -/
theorem Upload.step_sender {u u' : Upload} {m : UploadMove} {new : List Seen} (hm : ∀ e, m ≠ .task e)
    (hs : Upload.step u m = some (u', new)) :
    taskActs new = [] ∧ u'.task.phase = u.task.phase := by
  have hpost : ∀ (u : Upload) (m : Outbound), (u.post m).task.phase = u.task.phase := by
    intro u m
    rcases u.post_cases m with hp | hp <;> rw [hp]
  cases moves_of_step hs with
  | @task e => exact absurd rfl (hm e)
  | finish | drop => exact ⟨rfl, hpost _ _⟩
  | _ => exact ⟨rfl, rfl⟩

theorem Upload.loses_task {u : Upload} {e : Event} :
    u.loses (.task e) = true ↔ u.task.uploads = true ∧ ∃ err, e = .written (.error err) := by
  cases hp : u.task.phase with
  | connected c =>
      cases e with
      | written result => cases result <;> simp [loses, Task.uploads, hp]
      | _ => simp [loses, hp]
  | _ => simp [loses, Task.uploads, hp]

/-- And only they lose a frame. -/
theorem Upload.loses_sender (u : Upload) {m : UploadMove} (hm : ∀ e, m ≠ .task e) :
    u.loses m = false := by
  cases m with
  | task e => exact absurd rfl (hm e)
  | subtract | sendAudio | turn | finish | drop =>
      cases hp : u.task.phase <;> simp [loses, hp]

/-- A step keeps the log, and adds a failure to it where it loses a frame. -/
theorem Noting.step {os new : List Seen} {u u' : Upload} {m : UploadMove} (h : Noting os u)
    (hw : Wired os u) (hs : Upload.step u m = some (u', new)) :
    Noting (os ++ new) u' ∧ ((∀ d ∈ endedWrites (os ++ new), d.2.2 = true) ↔
      (∀ d ∈ endedWrites os, d.2.2 = true) ∧ u.loses m = false) := by
  have aside : (∀ e, m ≠ .task e) → Noting (os ++ new) u' ∧
      ((∀ d ∈ endedWrites (os ++ new), d.2.2 = true) ↔
        (∀ d ∈ endedWrites os, d.2.2 = true) ∧ u.loses m = false) := by
    intro hm
    obtain ⟨hacts, hphase⟩ := Upload.step_sender hm hs
    have hl := u.loses_sender hm
    have hta : taskActs (os ++ new) = taskActs os := by rw [taskActs_append, hacts, List.append_nil]
    have hup : u'.task.uploads = u.task.uploads := by rw [Task.uploads, hphase, Task.uploads]
    refine ⟨⟨by rw [hta, hup]; exact h.writing, ?_⟩, by simp [endedWrites, hta, hl]⟩
    rw [endedWrites, hta]
    exact h.handed
  cases m with
  | task e =>
      cases Upload.moves_of_step hs with
      | @task _ t' acts _ ho =>
          obtain ⟨ended, w', hlog, hh, hwriting, hok⟩ :=
            Task.own_noted ho hw.line_audible (opened (taskActs os)) h.writing
          have happ : writeLog (taskActs (os ++ acts.map .act)) = (w', endedWrites os ++ ended) := by
            rw [taskActs_append, taskActs_map, writeLog_append]
            exact hlog _
          refine ⟨⟨by rw [happ]; exact hwriting, ?_⟩, ?_⟩
          · rw [endedWrites, happ, taskActs_append, taskActs_map, handed_append, h.handed,
              List.append_assoc, hh, List.map_append, List.append_assoc]
          · rw [endedWrites, happ, List.forall_mem_append, hok, ← Upload.loses_task,
              Bool.not_eq_true]
  | subtract | sendAudio | turn | finish | drop => exact aside (by simp)

/-- In every run the failures in the log are the moves that lost a frame. -/
theorem noting_run {ms : List UploadMove} {u : Upload} {os : List Seen}
    (h : Mealy.run Upload.step {} ms = some (u, os)) :
    Noting os u ∧ ((∀ d ∈ endedWrites os, d.2.2 = true) ↔
      Mealy.Along Upload.step (fun u m => u.loses m = false) {} ms) := by
  have hP : Mealy.run Upload.step {} ms = some (u, os) ∧ Wired os u ∧ Noting os u ∧
      ((∀ d ∈ endedWrites os, d.2.2 = true) ↔
        Mealy.Along Upload.step (fun u m => u.loses m = false) {} ms) := by
    refine Mealy.run_sound (P := fun ms u os => Mealy.run Upload.step {} ms = some (u, os) ∧
      Wired os u ∧ Noting os u ∧ ((∀ d ∈ endedWrites os, d.2.2 = true) ↔
        Mealy.Along Upload.step (fun u m => u.loses m = false) {} ms)) ?_ ?_ h
    · rintro ms u os m u' new ⟨hr, hw, hn, hiff⟩ hs
      obtain ⟨hn', hok⟩ := hn.step hw hs
      refine ⟨Mealy.run_append hr (Mealy.run_singleton hs), hw.step hs, hn', ?_⟩
      rw [hok, hiff, Mealy.along_snoc_iff hr]
    · exact ⟨rfl, Wired.new_wired, ⟨rfl, rfl⟩, by simp [endedWrites, writeLog, taskActs, number, Mealy.Along]⟩
  exact hP.2.2

/-! ## Holes -/

/-- **When a reconnect punches no hole.**  At every moment a run of the session is quiet, the frames
written successfully, each on one connection, are the frames accepted, one for one and in order,
exactly when no write of a frame has failed before. -/
theorem upload_hole_iff {ms : List UploadMove} {u : Upload} {os : List Seen}
    (h : Mealy.run Upload.step {} ms = some (u, os)) (hq : u.Quiet) :
    (uploaded os).map Prod.snd = (accepted os).map AudioFrame.pcm ↔
      Mealy.Along Upload.step (fun u m => u.loses m = false) {} ms := by
  obtain ⟨hn, hiff⟩ := noting_run h
  obtain ⟨gone, hacc, -, hearly⟩ := (Wired.run h).ledger
  rw [← hiff]
  have hnone : (writeLog (taskActs os)).1 = none := by
    obtain ⟨c, hp, hpt⟩ := hq.open_
    have hw := hn.writing
    rw [Task.uploads_connected hp] at hw
    rcases hpt with hpt | hpt <;> rw [hpt] at hw <;>
      exact Option.isNone_iff_eq_none.mp (by simpa [Point.uploads] using hw)
  have hall : (accepted os).map AudioFrame.pcm = (endedWrites os).map fun d => d.2.1 := by
    have hh := hn.handed
    rw [hnone, Option.toList_none, List.append_nil] at hh
    rw [hacc, Queues.line, Queues.channel, hq.pending, hq.channel, List.filterMap_nil,
      List.append_nil, List.append_nil, ← hearly (.inl hq.unfinished), hh]
  rw [hall, uploaded, List.map_map]
  constructor
  · intro heq
    have hlen := congrArg List.length heq
    simp only [List.length_map] at hlen
    exact List.length_filter_eq_length_iff.mp hlen
  · intro hok
    rw [List.filter_eq_self.mpr hok]
    rfl

/-- A frame is uploaded and the connection goes quiet. -/
theorem upload_hole_iff_quiet :
    ∃ u os, Mealy.run Upload.step {}
        [.task (.runtime (.ok ())), .task (.opened (.ok ())), .task (.written (.ok ())), .task .turn,
          .sendAudio ⟨[1, 0], 1⟩, .turn, .turn, .turn, .task .recv, .subtract,
          .task (.written (.ok ()))] = some (u, os) ∧
      (uploaded os).map Prod.snd = (accepted os).map AudioFrame.pcm := by
  refine ⟨_, _, rfl, ?_⟩
  refine (upload_hole_iff (show Mealy.run Upload.step {}
    [.task (.runtime (.ok ())), .task (.opened (.ok ())), .task (.written (.ok ())), .task .turn,
      .sendAudio ⟨[1, 0], 1⟩, .turn, .turn, .turn, .task .recv, .subtract,
      .task (.written (.ok ()))] = some (_, _) from rfl) ⟨⟨_, rfl, .inl rfl⟩, rfl, rfl, rfl⟩).mpr ?_
  decide

/-- The write of a frame fails; the next connection is open and quiet without it. -/
theorem upload_hole :
    ∃ u os, Mealy.run Upload.step {}
        [.task (.runtime (.ok ())), .task (.opened (.ok ())), .task (.written (.ok ())), .task .turn,
          .sendAudio ⟨[1, 0], 1⟩, .turn, .turn, .turn, .task .recv, .subtract,
          .task (.written (.error "broken pipe")), .task .slept, .task (.opened (.ok ())),
          .task (.written (.ok ())), .task .turn] = some (u, os) ∧ u.Quiet ∧
      accepted os = [⟨[1, 0], 1⟩] ∧ uploaded os = [] := by
  refine ⟨_, _, rfl, ⟨⟨_, rfl, .inl rfl⟩, rfl, rfl, rfl⟩, ?_, ?_⟩
  · decide
  · decide

end Larmindon.Soniox
