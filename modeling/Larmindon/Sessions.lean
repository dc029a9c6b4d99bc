/-
# `Sessions` — one counter for all sessions of the process

The engine owns the segment ids and hands the counter to every session, whichever
backend it runs on, so that an id is never used again while a segment with it may
still be on screen.  One session is in progress at a time: the engine joins the
processing thread before it starts another.  A session ends in one of three ways,
and the ids go on from where it left them:

    stop     `end_session`, and what it returns is emitted
    fail     the backend reported a fatal error: `end_session` is called, and
             what it returns is dropped
    crash    the thread is gone, and what is open stays open

`Said` is an update with the number of its session, and whether it was emitted.
Each session writes a journal of its own (`Journal.Written`), a later one behind
an earlier one, and a journal may be continued by another (`Written.append`): the
process writes one journal, whatever it switches between.
-/
import Larmindon.Nemotron.Spoken
import Larmindon.Soniox.Teardown

namespace Larmindon

open Journal

variable {S σ : Type}

/-! ## The machine -/

/-- The backend of the session in progress. -/
inductive Running (S σ : Type) where
  | nemotron (b : Nemotron.NemotronBackend S σ)
  | soniox (b : Soniox.SonioxBackend)

/-- What outlives a session, and the session in progress. -/
structure Sessions (S σ : Type) where
  segmentIds : SegmentIds := .new
  started : ℕ := 0
  running : Option (Running S σ) := none
  cachedBackend : Option (Nemotron.NemotronBackend S σ) := none

inductive SessionMove (S σ : Type) where
  /-- `compatible`: the cached backend was loaded with the same settings. -/
  | startNemotron (compatible : Bool) (load : Except String σ) (settings : Settings)
  | startSoniox (connected : Except AsrError Unit)
  | nemotron (op : Nemotron.Op S σ)
  | soniox (round : Soniox.Round S)
  | stop (received : List Soniox.Inbound)
  | fail (received : List Soniox.Inbound)
  | crash

structure Said where
  session : ℕ
  emitted : Bool
  update : TranscriptUpdate
  deriving DecidableEq, Repr

namespace Sessions

/-- Updates of the session in progress. -/
def say (p : Sessions S σ) (emitted : Bool) (us : List TranscriptUpdate) : List Said :=
  us.map fun u => ⟨p.started, emitted, u⟩

/-- A session begins, the cached backend being taken or dropped. -/
def start (p : Sessions S σ) (running : Option (Running S σ)) : Sessions S σ :=
  { p with
    running
    started := p.started + if running.isSome then 1 else 0
    cachedBackend := none }

/-- `end_session`, and what the engine keeps of the backend. -/
def finish (p : Sessions S σ) (emitted : Bool) (received : List Soniox.Inbound) :
    Option (Sessions S σ × List Said) :=
  match p.running with
  | none => none
  | some (.nemotron b) => some ({ p with running := none, cachedBackend := some b }, [])
  | some (.soniox b) =>
      (b.endSession received p.segmentIds).map fun r =>
        ({ p with running := none, segmentIds := r.1.2 }, p.say emitted r.2)

def step [Zero S] (M : Nemotron.Model S σ) (quantize : S → Int16) :
    Mealy.Step (Sessions S σ) (SessionMove S σ) Said
  | p, .startNemotron compatible load settings =>
      match p.running with
      | some _ => none
      | none =>
          let backend := if compatible then p.cachedBackend.getD .new else .new
          match backend.beginSession M load settings with
          | .ok (b, _) => some (p.start (some (.nemotron b)), [])
          | .error _ => some (p.start none, [])
  | p, .startSoniox connected =>
      match p.running with
      | some _ => none
      | none =>
          match connected with
          | .ok _ => some (p.start (some (.soniox Soniox.SonioxBackend.new.beginSession)), [])
          | .error _ => some (p.start none, [])
  | p, .nemotron op =>
      match p.running, op with
      | some (.nemotron _), .beginSession _ _ => none
      | some (.nemotron b), op =>
          (Nemotron.opStep M (b, p.segmentIds) op).map fun r =>
            ({ p with running := some (.nemotron r.1.1), segmentIds := r.1.2 },
              p.say true (Nemotron.updates r.2))
      | _, _ => none
  | p, .soniox round =>
      match p.running with
      | some (.soniox b) =>
          (Soniox.roundStep quantize (b, p.segmentIds) round).map fun r =>
            ({ p with running := some (.soniox r.1.1), segmentIds := r.1.2 },
              p.say true (Soniox.delivered (r.2.map Soniox.Report.result)))
      | _ => none
  | p, .stop received => p.finish true received
  | p, .fail received => p.finish false received
  | p, .crash => p.running.map fun _ => ({ p with running := none }, [])

/-! ## The journal of a session -/

/-- The updates as a journal. -/
def log (said : List Said) : List (Entry Char) := journal (said.map Said.update)

@[simp] theorem log_append (xs ys : List Said) : log (xs ++ ys) = log xs ++ log ys := by
  simp [log]

theorem log_say (p : Sessions S σ) (emitted : Bool) (us : List TranscriptUpdate) :
    log (p.say emitted us) = journal us := by
  rw [log, say, List.map_map]
  exact congrArg journal (List.map_id us)

theorem mem_keys {said : List Said} {x : Said} (h : x ∈ said) :
    x.update.segmentId ∈ keys (log said) :=
  List.mem_map_of_mem (f := Entry.key)
    (List.mem_map_of_mem (f := TranscriptUpdate.entry) (List.mem_map_of_mem (f := Said.update) h))

/-- What the session in progress has said, its first fresh id being `base`. -/
def Current (base : SegmentIds) (during : List Said) (ids : SegmentIds) :
    Option (Running S σ) → Prop
  | none => during = [] ∧ ids = base
  | some (.nemotron _) => Written base (log during) ⟨[], ids⟩ []
  | some (.soniox b) => ∃ reports, Soniox.InSession base (b, ids) reports ∧
      during.map Said.update = reports.flatMap Soniox.Report.updates

/-- It is a journal that begins with `base`. -/
theorem Current.written {base ids : SegmentIds} {during : List Said} {running : Option (Running S σ)}
    (h : Current base during ids running) : ∃ live, Written base (log during) ⟨live, ids⟩ [] := by
  cases running with
  | none =>
      obtain ⟨rfl, rfl⟩ := h
      exact ⟨[], .nil⟩
  | some running =>
      cases running with
      | nemotron b => exact ⟨[], h⟩
      | soniox b =>
          obtain ⟨reports, hs, hsaid⟩ := h
          refine ⟨b.accumulator.openIds, ?_⟩
          rw [log, hsaid]
          exact hs.screen.written

/-- What `end_session` returns closes the journal of a Soniox session. -/
theorem endSession_written {base ids : SegmentIds} {b : Soniox.SonioxBackend}
    {reports : List Soniox.Report} (h : Soniox.InSession base (b, ids) reports)
    (received : List Soniox.Inbound) :
    ∃ s vs, b.endSession received ids = some (s, vs) ∧
      Written base (journal (reports.flatMap Soniox.Report.updates ++ vs)) ⟨[], s.2⟩ [] := by
  obtain ⟨client, hclient⟩ : ∃ client, b.client = some client :=
    Option.ne_none_iff_exists'.mp h.client
  obtain ⟨a, us, hrun, hscreen⟩ := h.screen.hears (received.takeWhile fun m => !m.terminal)
  have hstep : ∀ s : Soniox.SonioxBackend × SegmentIds,
      ∀ m ∈ received.takeWhile fun m => !m.terminal,
      (Soniox.endMessage s m).map (fun r => (Soniox.speaking r.1, r.2)) =
        Soniox.hear (Soniox.speaking s) (id m) := by
    intro s m hm
    exact Soniox.endMessage_hear (by simpa using List.mem_takeWhile_imp hm)
  have hproj := Mealy.run_project hstep
    ({ b with client := none, staged := [], stagedSamples := 0 }, ids)
  rw [List.map_id] at hproj
  have hproj' : _ = some (a, us) := hproj.trans hrun
  obtain ⟨⟨s, vs⟩, hends, heq⟩ := Option.map_eq_some_iff.mp hproj'
  obtain ⟨rfl, rfl⟩ := Prod.mk.inj heq
  refine ⟨({ s.1 with
    accumulator := (s.1.accumulator.finish s.2).acc.reset
    lastSpeechAt := none
    pendingTransient := none
    pendingFatal := none }, (s.1.accumulator.finish s.2).ids),
    vs ++ (s.1.accumulator.finish s.2).out, ?_, ?_⟩
  · simp only [Soniox.SonioxBackend.endSession, hclient, hends]
    rfl
  · rw [← List.append_assoc]
    exact hscreen.finish.written

/-! ## The books of the process -/

/-- Sessions come one after another, and so do their ids. -/
def Apart (x y : Said) : Prop :=
  x.session ≤ y.session ∧ (x.session < y.session → x.update.segmentId < y.update.segmentId)

/-- What was said before the session in progress, and in it; `lost` are the ids that a crash left
open. -/
structure Books (p : Sessions S σ) (before during : List Said) (base : SegmentIds)
    (lost : List ℕ) : Prop where
  written : Written 1 (log before) ⟨[], base⟩ lost
  apart : before.Pairwise Apart
  earlier : ∀ x ∈ before, x.session ≤ p.started ∧ (p.running ≠ none → x.session < p.started)
  same : ∀ x ∈ during, x.session = p.started
  current : Current base during p.segmentIds p.running

variable {p : Sessions S σ} {before during : List Said} {base : SegmentIds} {lost : List ℕ}

/-- Sessions stay apart where a later one draws its ids from `base` on. -/
theorem apart_append {later : List Said} {n k : ℕ} (h : before.Pairwise Apart)
    (hbefore : ∀ x ∈ before, x.session < n ∧ x.update.segmentId < k)
    (hlater : ∀ y ∈ later, y.session = n ∧ k ≤ y.update.segmentId) :
    (before ++ later).Pairwise Apart := by
  refine List.pairwise_append.mpr ⟨h, ?_, ?_⟩
  · refine List.pairwise_of_forall_mem_list fun x hx y hy => ?_
    have hxn := (hlater x hx).1
    have hyn := (hlater y hy).1
    exact ⟨by omega, by omega⟩
  · intro x hx y hy
    obtain ⟨hxs, hxid⟩ := hbefore x hx
    obtain ⟨hys, hyid⟩ := hlater y hy
    exact ⟨by omega, fun _ => by omega⟩

/-- The session in progress is over: what it has said since `base`, with `later`, was its journal. -/
theorem Books.close (h : Books p before during base lost) (hr : p.running ≠ none) {later : List Said}
    (hlater : ∀ x ∈ later, x.session = p.started) {ids : SegmentIds} {open_ : List ℕ}
    (hw : Written base (log (during ++ later)) ⟨[], ids⟩ open_)
    (cachedBackend : Option (Nemotron.NemotronBackend S σ)) :
    Books { p with running := none, segmentIds := ids, cachedBackend }
      (before ++ (during ++ later)) [] ids (lost ++ open_) where
  written := by
    rw [log_append]
    exact h.written.append hw
  apart := by
    refine apart_append h.apart (n := p.started) (k := base) ?_ ?_
    · intro x hx
      exact ⟨(h.earlier x hx).2 hr, h.written.kept.below _ (mem_keys hx)⟩
    · intro y hy
      refine ⟨?_, hw.kept.fresh _ (mem_keys hy)⟩
      exact (List.mem_append.mp hy).elim (h.same y) (hlater y)
  earlier := by
    intro x hx
    refine ⟨?_, fun hnone => absurd rfl hnone⟩
    rcases List.mem_append.mp hx with hx | hx
    · exact (h.earlier x hx).1
    · exact ((List.mem_append.mp hx).elim (h.same x) (hlater x)).le
  same _ hx := absurd hx List.not_mem_nil
  current := ⟨rfl, rfl⟩

theorem Books.new : Books ({} : Sessions S σ) [] [] 1 [] where
  written := .nil
  apart := .nil
  earlier _ hx := absurd hx List.not_mem_nil
  same _ hx := absurd hx List.not_mem_nil
  current := ⟨rfl, rfl⟩

/-- A session begins where none is in progress. -/
theorem Books.start (h : Books p before during base lost) (hr : p.running = none)
    {running : Option (Running S σ)} (hc : Current base [] base running) :
    during = [] ∧ Books (p.start running) before [] base lost := by
  have hcurrent := h.current
  rw [hr] at hcurrent
  obtain ⟨hduring, hids⟩ := hcurrent
  refine ⟨hduring, h.written, h.apart, ?_, fun x hx => absurd hx List.not_mem_nil, ?_⟩
  · intro x hx
    have hle := (h.earlier x hx).1
    cases running with
    | none => exact ⟨hle, fun hnone => absurd rfl hnone⟩
    | some running =>
        show x.session ≤ p.started + 1 ∧ (_ → x.session < p.started + 1)
        exact ⟨by omega, fun _ => by omega⟩
  · show Current base [] p.segmentIds running
    rw [hids]
    exact hc

/-- The session in progress goes on. -/
theorem Books.goOn (h : Books p before during base lost) {running : Running S σ} {ids : SegmentIds}
    {us : List TranscriptUpdate} (hr : p.running ≠ none)
    (hc : Current base (during ++ p.say true us) ids (some running)) :
    Books { p with running := some running, segmentIds := ids } before (during ++ p.say true us)
      base lost where
  written := h.written
  apart := h.apart
  earlier := fun x hx => ⟨(h.earlier x hx).1, fun _ => (h.earlier x hx).2 hr⟩
  same := by
    intro x hx
    rcases List.mem_append.mp hx with hx | hx
    · exact h.same x hx
    · obtain ⟨u, -, rfl⟩ := List.mem_map.mp hx
      rfl
  current := hc

theorem say_session (p : Sessions S σ) (emitted : Bool) (us : List TranscriptUpdate) :
    ∀ x ∈ p.say emitted us, x.session = p.started := by
  intro x hx
  obtain ⟨u, -, rfl⟩ := List.mem_map.mp hx
  rfl

/-- `end_session` ends the journal of its session. -/
theorem Books.finish (h : Books p before during base lost) {emitted : Bool}
    {received : List Soniox.Inbound} {p' : Sessions S σ} {said : List Said}
    (hf : p.finish emitted received = some (p', said)) :
    ∃ ids, Books p' (before ++ (during ++ said)) [] ids lost ∧
      ∀ x ∈ said, x.emitted = emitted := by
  have hcurrent := h.current
  cases hr : p.running with
  | none => simp [Sessions.finish, hr] at hf
  | some running =>
      rw [hr] at hcurrent
      have hne : p.running ≠ none := by simp [hr]
      cases running with
      | nemotron b =>
          simp only [Sessions.finish, hr, Option.some.injEq, Prod.mk.injEq] at hf
          obtain ⟨rfl, rfl⟩ := hf
          refine ⟨p.segmentIds, ?_, fun x hx => absurd hx List.not_mem_nil⟩
          have hw : Written base (log (during ++ [])) ⟨[], p.segmentIds⟩ [] := by
            rw [List.append_nil]
            exact hcurrent
          have hclose := h.close hne (fun x hx => absurd hx List.not_mem_nil) hw (some b)
          simpa only [List.append_nil] using hclose
      | soniox b =>
          obtain ⟨reports, hs, hsaid⟩ := hcurrent
          obtain ⟨s, vs, hend, hw⟩ := endSession_written hs received
          simp only [Sessions.finish, hr, hend, Option.map_some, Option.some.injEq,
            Prod.mk.injEq] at hf
          obtain ⟨rfl, rfl⟩ := hf
          have hlog : Written base (log (during ++ p.say emitted vs)) ⟨[], s.2⟩ [] := by
            rw [log_append, log_say, log, hsaid, ← journal_append]
            exact hw
          have hclose := h.close hne (p.say_session emitted vs) hlog p.cachedBackend
          rw [List.append_nil] at hclose
          refine ⟨s.2, hclose, ?_⟩
          intro x hx
          obtain ⟨u, -, rfl⟩ := List.mem_map.mp hx
          rfl

/-- Moves after which nothing is lost to the screen. -/
def orderly : SessionMove S σ → Bool
  | .fail _ | .crash => false
  | _ => true

/-- The books after some moves, for what was said in them. -/
def Kept (ms : List (SessionMove S σ)) (p : Sessions S σ) (said : List Said) : Prop :=
  ∃ before during base lost, said = before ++ during ∧ Books p before during base lost ∧
    ((∀ m ∈ ms, orderly m = true) → lost = [] ∧ ∀ x ∈ said, x.emitted = true)

/-- A move that says only what is emitted, and loses nothing. -/
theorem orderly_snoc {ms : List (SessionMove S σ)} {said new : List Said}
    (h : (∀ m ∈ ms, orderly m = true) → lost = [] ∧ ∀ x ∈ said, x.emitted = true)
    (hnew : ∀ x ∈ new, x.emitted = true) (m : SessionMove S σ) :
    (∀ m' ∈ ms ++ [m], orderly m' = true) →
      lost = [] ∧ ∀ x ∈ said ++ new, x.emitted = true := by
  intro hall
  obtain ⟨hlost, hsaid⟩ := h fun m' hm' => hall m' (List.mem_append_left _ hm')
  refine ⟨hlost, ?_⟩
  intro x hx
  exact (List.mem_append.mp hx).elim (hsaid x) (hnew x)

theorem say_emitted (p : Sessions S σ) (us : List TranscriptUpdate) :
    ∀ x ∈ p.say true us, x.emitted = true := by
  intro x hx
  obtain ⟨u, -, rfl⟩ := List.mem_map.mp hx
  rfl

variable [Zero S] {M : Nemotron.Model S σ} {quantize : S → Int16} {p' : Sessions S σ}
  {new : List Said}

/-- A session begins, or fails to. -/
theorem step_start {m : SessionMove S σ} (hm : (∃ compatible load settings,
      m = .startNemotron compatible load settings) ∨ ∃ connected, m = .startSoniox connected)
    (hs : step M quantize p m = some (p', new)) :
    new = [] ∧ p.running = none ∧
      ∃ running, p' = p.start running ∧ ∀ base, Current base [] base running := by
  cases hr : p.running with
  | some running => rcases hm with ⟨compatible, load, settings, rfl⟩ | ⟨connected, rfl⟩ <;>
      simp [step, hr] at hs
  | none =>
      rcases hm with ⟨compatible, load, settings, rfl⟩ | ⟨connected, rfl⟩
      · simp only [step, hr] at hs
        split at hs
        · next b evs hb =>
            obtain ⟨rfl, rfl⟩ := Prod.mk.inj (Option.some.inj hs)
            exact ⟨rfl, rfl, _, rfl, fun base => .nil⟩
        · obtain ⟨rfl, rfl⟩ := Prod.mk.inj (Option.some.inj hs)
          exact ⟨rfl, rfl, _, rfl, fun base => ⟨rfl, rfl⟩⟩
      · cases connected with
        | ok _ =>
            simp only [step, hr, Option.some.injEq, Prod.mk.injEq] at hs
            obtain ⟨rfl, rfl⟩ := hs
            exact ⟨rfl, rfl, _, rfl, fun base => ⟨[], .begin _ base, rfl⟩⟩
        | error e =>
            simp only [step, hr, Option.some.injEq, Prod.mk.injEq] at hs
            obtain ⟨rfl, rfl⟩ := hs
            exact ⟨rfl, rfl, _, rfl, fun base => ⟨rfl, rfl⟩⟩

/-- A call of a Nemotron session closes a fresh id for each of its texts. -/
theorem Books.nemotron (h : Books p before during base lost) {op : Nemotron.Op S σ}
    (hs : step M quantize p (.nemotron op) = some (p', new)) :
    Books p' before (during ++ new) base lost ∧ ∀ x ∈ new, x.emitted = true := by
  have hcurrent := h.current
  cases hr : p.running with
  | none => simp [step, hr] at hs
  | some running =>
      rw [hr] at hcurrent
      cases running with
      | soniox b => simp [step, hr] at hs
      | nemotron b =>
          have hop : ∃ r, Nemotron.opStep M (b, p.segmentIds) op = some r ∧
              p' = { p with running := some (.nemotron r.1.1), segmentIds := r.1.2 } ∧
              new = p.say true (Nemotron.updates r.2) := by
            cases op with
            | beginSession load settings => simp [step, hr] at hs
            | _ =>
                simp only [step, hr, Option.map_eq_some_iff] at hs
                obtain ⟨r, hop, heq⟩ := hs
                obtain ⟨rfl, rfl⟩ := Prod.mk.inj heq
                exact ⟨r, hop, rfl, rfl⟩
          obtain ⟨⟨⟨b', ids'⟩, evs⟩, hop, rfl, rfl⟩ := hop
          obtain ⟨hu, hids, -⟩ := Nemotron.opStep_tells hop
          refine ⟨h.goOn (by simp [hr]) ?_, p.say_emitted _⟩
          show Written base (log (during ++ p.say true (Nemotron.updates evs))) ⟨[], ids'⟩ []
          rw [log_append, log_say, hu, hids]
          exact hcurrent.steps (Nemotron.numbered_steps p.segmentIds (Nemotron.spoken evs))

/-- A call of a Soniox session returns what it folds. -/
theorem Books.soniox (h : Books p before during base lost) {round : Soniox.Round S}
    (hs : step M quantize p (.soniox round) = some (p', new)) :
    Books p' before (during ++ new) base lost ∧ ∀ x ∈ new, x.emitted = true := by
  have hcurrent := h.current
  cases hr : p.running with
  | none => simp [step, hr] at hs
  | some running =>
      rw [hr] at hcurrent
      cases running with
      | nemotron b => simp [step, hr] at hs
      | soniox b =>
          obtain ⟨reports, hsession, hsaid⟩ := hcurrent
          obtain ⟨⟨b', ids'⟩, os, hround, -, hsession', -⟩ := hsession.round quantize round
          simp only [step, hr, hround, Option.map_some, Option.some.injEq, Prod.mk.injEq] at hs
          obtain ⟨rfl, rfl⟩ := hs
          refine ⟨h.goOn (by simp [hr]) ⟨reports ++ os, hsession', ?_⟩, p.say_emitted _⟩
          -- what the calls return is what they folded, before and now
          have htext := hsession'.text
          rw [List.map_append, Soniox.delivered_append, hsession.text, List.flatMap_append] at htext
          rw [List.map_append, hsaid, List.flatMap_append, ← List.append_cancel_left htext, say,
            List.map_map]
          exact congrArg _ (List.map_id _)

/-- A thread that is gone leaves open what its session had open. -/
theorem Books.crash (h : Books p before during base lost)
    (hs : step M quantize p .crash = some (p', new)) :
    new = [] ∧ ∃ open_, Books p' (before ++ during) [] p.segmentIds (lost ++ open_) := by
  simp only [step, Option.map_eq_some_iff] at hs
  obtain ⟨running, hr, heq⟩ := hs
  obtain ⟨rfl, rfl⟩ := Prod.mk.inj heq
  obtain ⟨live, hw⟩ := h.current.written
  refine ⟨rfl, [] ++ live, ?_⟩
  have hleft : Written base (log (during ++ [])) ⟨[], p.segmentIds⟩ ([] ++ live) := by
    rw [List.append_nil]
    exact hw.abandon
  have hclose := h.close (by simp [hr]) (fun x hx => absurd hx List.not_mem_nil) hleft
    p.cachedBackend
  rw [List.append_nil] at hclose
  exact hclose

theorem Kept.step {ms : List (SessionMove S σ)} {said : List Said} {m : SessionMove S σ}
    (h : Kept ms p said) (hs : Sessions.step M quantize p m = some (p', new)) :
    Kept (ms ++ [m]) p' (said ++ new) := by
  obtain ⟨before, during, base, lost, rfl, hb, ho⟩ := h
  have starts (hm : (∃ compatible load settings, m = .startNemotron compatible load settings) ∨
      ∃ connected, m = .startSoniox connected) : Kept (ms ++ [m]) p' (before ++ during ++ new) := by
    obtain ⟨rfl, hr, running, rfl, hc⟩ := step_start hm hs
    obtain ⟨rfl, hb'⟩ := hb.start hr (hc base)
    exact ⟨before, [], base, lost, by simp, hb', orderly_snoc ho (by simp) m⟩
  cases m with
  | startNemotron compatible load settings => exact starts (.inl ⟨_, _, _, rfl⟩)
  | startSoniox connected => exact starts (.inr ⟨_, rfl⟩)
  | nemotron op =>
      obtain ⟨hb', hemit⟩ := hb.nemotron hs
      exact ⟨before, during ++ new, base, lost, List.append_assoc _ _ _, hb',
        orderly_snoc ho hemit _⟩
  | soniox round =>
      obtain ⟨hb', hemit⟩ := hb.soniox hs
      exact ⟨before, during ++ new, base, lost, List.append_assoc _ _ _, hb',
        orderly_snoc ho hemit _⟩
  | stop received =>
      obtain ⟨ids, hb', hemit⟩ := hb.finish hs
      exact ⟨before ++ (during ++ new), [], ids, lost, by simp, hb', orderly_snoc ho hemit _⟩
  | fail received =>
      obtain ⟨ids, hb', -⟩ := hb.finish hs
      refine ⟨before ++ (during ++ new), [], ids, lost, by simp, hb', ?_⟩
      intro hall
      exact absurd (hall (.fail received) (by simp)) Bool.false_ne_true
  | crash =>
      obtain ⟨rfl, open_, hb'⟩ := hb.crash hs
      refine ⟨before ++ during, [], _, _, rfl, by simpa using hb', ?_⟩
      intro hall
      exact absurd (hall .crash (by simp)) Bool.false_ne_true

/-! ## The life of an id -/

/-- **An id is never used again, whatever the sessions.**  Through any run of the process, with any
switches between the backends and any ends of sessions: an id that was emitted as final is not emitted
again, a later session has greater ids than an earlier one, and all ids were drawn from the counter.
Where every session was stopped in order and none is in progress, every id was closed exactly once,
and the screen, read by increasing id, shows what was closed in the order it was closed. -/
theorem segment_ids_lifetime {ms : List (SessionMove S σ)} {p : Sessions S σ} {said : List Said}
    (h : Mealy.run (step M quantize) {} ms = some (p, said)) :
    (said.filter Said.emitted).Pairwise (fun x y => x.session ≤ y.session ∧
      (x.session < y.session → x.update.segmentId < y.update.segmentId) ∧
      (x.update.isFinal = true → y.update.segmentId ≠ x.update.segmentId)) ∧
    (∀ x ∈ said, 1 ≤ x.update.segmentId ∧ x.update.segmentId < p.segmentIds) ∧
    ((∀ m ∈ ms, orderly m = true) → p.running = none →
      (∀ x ∈ said, x.emitted = true ∧ closings x.update.segmentId (log said) = 1) ∧
      read (log said) = settled (log said)) := by
  obtain ⟨before, during, base, lost, rfl, hb, ho⟩ : Kept ms p said :=
    Mealy.run_sound (P := Kept) (fun _ _ _ _ _ _ hk hs => hk.step hs)
      ⟨[], [], 1, [], rfl, .new, fun _ => ⟨rfl, by simp⟩⟩ h
  obtain ⟨live, hduring⟩ := hb.current.written
  have hw := hb.written.append hduring
  rw [← log_append, List.append_nil] at hw
  have hclosed : (before ++ during).Pairwise fun x y =>
      x.update.isFinal = true → y.update.segmentId ≠ x.update.segmentId := by
    have hpair := hw.closed_last
    rw [log, journal, List.map_map] at hpair
    exact List.pairwise_map.mp hpair
  have hapart : (before ++ during).Pairwise Apart := by
    cases hr : p.running with
    | none =>
        have hcurrent := hb.current
        rw [hr] at hcurrent
        rw [hcurrent.1, List.append_nil]
        exact hb.apart
    | some running =>
        refine apart_append hb.apart (n := p.started) (k := base) ?_ ?_
        · intro x hx
          exact ⟨(hb.earlier x hx).2 (by simp [hr]), hb.written.kept.below _ (mem_keys hx)⟩
        · intro y hy
          exact ⟨hb.same y hy, hduring.kept.fresh _ (mem_keys hy)⟩
  refine ⟨?_, ?_, ?_⟩
  · refine List.Pairwise.filter _ ((hapart.and hclosed).imp ?_)
    rintro x y ⟨⟨hle, hlt⟩, hfinal⟩
    exact ⟨hle, hlt, hfinal⟩
  · intro x hx
    exact ⟨hw.kept.fresh _ (mem_keys hx), hw.kept.below _ (mem_keys hx)⟩
  · intro horderly hidle
    obtain ⟨rfl, hemitted⟩ := ho horderly
    have hcurrent := hb.current
    rw [hidle] at hcurrent
    obtain ⟨rfl, hids⟩ := hcurrent
    have hbooks : Written 1 (log (before ++ [])) ⟨[], base⟩ [] := by
      rw [List.append_nil]
      exact hb.written
    refine ⟨fun x hx => ⟨hemitted x hx, ?_⟩, ?_⟩
    · exact hbooks.closed_once (mem_keys hx) List.not_mem_nil List.not_mem_nil
    · simpa using hbooks.read_eq

/-- A Nemotron session, then a Soniox session that shows a guess and closes it when it is stopped. -/
theorem segment_ids_lifetime_switch :
    let M : Nemotron.Model ℕ ℕ := ⟨fun m _ => (.ok "a", m), id⟩
    ∃ p said, Mealy.run (step M fun _ => 0) {}
        [.startNemotron false (.ok 0) ⟨1, false, 2⟩, .nemotron (.pushAudio (List.replicate 16 0)),
          .nemotron (.process .speech), .stop [], .startSoniox (.ok ()),
          .soniox (.poll [(0, .response { tokens := [⟨"Hi", false, none⟩] })]), .stop []]
        = some (p, said) ∧
      said.map (fun x => (x.session, x.update.segmentId)) = [(1, 1), (2, 2), (2, 2)] ∧
      read (log said) = ['a', 'H', 'i'] := by
  intro M
  have hsaid : (Mealy.run (step M fun _ => 0) {}
      [.startNemotron false (.ok 0) ⟨1, false, 2⟩, .nemotron (.pushAudio (List.replicate 16 0)),
        .nemotron (.process .speech), .stop [], .startSoniox (.ok ()),
        .soniox (.poll [(0, .response { tokens := [⟨"Hi", false, none⟩] })]), .stop []]).map
      (fun r => (r.1.running.isNone, r.2.map (fun x => (x.session, x.update.segmentId)),
        settled (log r.2))) = some (true, [(1, 1), (2, 2), (2, 2)], ['a', 'H', 'i']) := by
    decide +kernel
  obtain ⟨⟨p, said⟩, hr, heq⟩ := Option.map_eq_some_iff.mp hsaid
  obtain ⟨hidle, hids, hsettled⟩ : p.running.isNone = true ∧ _ ∧ _ := by simpa using heq
  obtain ⟨-, -, horderly⟩ := segment_ids_lifetime hr
  refine ⟨p, said, hr, hids, ?_⟩
  rw [(horderly (by simp [orderly]) (Option.isNone_iff_eq_none.mp hidle)).2]
  exact hsettled

end Sessions

end Larmindon
