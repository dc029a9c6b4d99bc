/-
# `Soniox.Lifecycle` — the life of a segment id

A run of accumulator operations: responses ingested, the open lane finished, the
accumulator reset, or replaced by a fresh one over the same id counter.

    a final id is not emitted again      |
    ids are first emitted in order       |   every run
    runs and ids stay aligned, `flush`   |
    and `split_off` do not panic         |
    after a `finish` every id emitted    |   runs that drop an accumulator's state
    was made final exactly once          |   only when nothing was ingested since `finish`

The last needs the condition (`Orderly`): `reset` emits nothing, so whatever is
open when it is called stays open on screen.
-/
import Larmindon.Soniox.Durable

namespace Larmindon.Soniox

open Journal Accumulator

/-! ## Operations -/

inductive Op where
  | ingest (r : SonioxResponse)
  | finish
  | reset
  /-- The next accumulator takes over the counter. -/
  | replace

def opStep : Mealy.Step (Accumulator × SegmentIds) Op TranscriptUpdate
  | s, .ingest r => ingestStep s r
  | s, .finish =>
      let w := s.1.finish s.2
      some ((w.acc, w.ids), w.out)
  | s, .reset => some ((s.1.reset, s.2), [])
  | s, .replace => some ((Accumulator.new, s.2), [])

/-- The operations that may leave a segment open. -/
def Op.opens : Op → Bool
  | .ingest _ => true
  | _ => false

/-- The operations that forget what is open. -/
def Op.drops : Op → Bool
  | .reset | .replace => true
  | _ => false

/-- State is dropped only where nothing was ingested since it was last finished or dropped. -/
def Orderly (ops : List Op) : Prop := ops.IsChain fun op op' => op'.drops = true → op.opens = false

/-! ## Where `ingest` calls `flush` -/

/-- `flush` is called on `a` while `token` is folded into `w`. -/
inductive FlushCall (w : Work) (token : SonioxToken) : Accumulator → Prop
  | speaker {s : String} : token.normalizedSpeaker = some s →
      (w.acc.pendingSpeaker.any fun current => current != s) = true → FlushCall w token w.acc
  | marker {w' : Work} : adoptSpeaker w token = some w' → token.isEndMarker = true →
      FlushCall w token w'.acc
  | sentence {w' : Work} : adoptSpeaker w token = some w' → token.isEndMarker = false →
      token.isSpecial = false → endsSentence (w'.acc.pending ++ token.text) = true →
      FlushCall w token { w'.acc with pending := w'.acc.pending ++ token.text }

/-- `flush` is called on `a` while `r` is ingested. -/
inductive FlushDuring (s : Accumulator × SegmentIds) (r : SonioxResponse) (a : Accumulator) : Prop
  | mk {before after : List SonioxToken} {token : SonioxToken} {w : Work} :
      r.tokens.filter SonioxToken.isFinal = before ++ token :: after →
      before.foldlM ingestFinal ⟨s.1, s.2, []⟩ = some w → FlushCall w token a → FlushDuring s r a

theorem FlushCall.aligned {w : Work} {token : SonioxToken} {a : Accumulator} (h : w.acc.Aligned)
    (hc : FlushCall w token a) : a.Aligned := by
  obtain ⟨w₁, h₁⟩ := adoptSpeaker_spec h token
  have hw : ∀ w', adoptSpeaker w token = some w' → w'.acc.Aligned := by
    intro w' hw'
    rw [h₁.eq] at hw'
    cases hw'
    exact h₁.aligned
  cases hc with
  | speaker _ _ => exact h
  | marker hw' _ => exact hw _ hw'
  | sentence hw' _ _ _ => exact hw _ hw'

theorem FlushDuring.aligned {s : Accumulator × SegmentIds} {r : SonioxResponse} {a : Accumulator}
    (h : s.1.Aligned) (hd : FlushDuring s r a) : a.Aligned := by
  obtain ⟨_, hw, hc⟩ := hd
  obtain ⟨w₁, h₁⟩ := ingestFinals_spec (w := ⟨s.1, s.2, []⟩) h _
  rw [h₁.eq] at hw
  cases hw
  exact hc.aligned h₁.aligned

/-! ## The invariant of a run -/

/-- After `ops` from a fresh accumulator with next id `n₀`.  `lost` are the ids that a `reset` or a
replacement left open. -/
structure OpRun (n₀ : SegmentIds) (ops : List Op) (s : Accumulator × SegmentIds)
    (us : List TranscriptUpdate) (lost : List ℕ) : Prop where
  aligned : s.1.Aligned
  written : Written n₀ (journal us) (s.1.board s.2) lost
  closed : (∀ op ∈ ops.getLast?, op.opens = false) → s.1.openIds = []
  orderly : Orderly ops → lost = []

theorem Orderly.of_snoc {ops : List Op} {op : Op} (h : Orderly (ops ++ [op])) : Orderly ops :=
  (List.isChain_append.mp h).1

theorem Orderly.closed {n₀ : SegmentIds} {ops : List Op} {op : Op} {s : Accumulator × SegmentIds}
    {us : List TranscriptUpdate} {lost : List ℕ} (h : Orderly (ops ++ [op]))
    (hr : OpRun n₀ ops s us lost) (hd : op.drops = true) : s.1.openIds = [] :=
  hr.closed fun op' hop' => (List.isChain_append.mp h).2.2 op' hop' op rfl hd

/-- Dropping the state of an accumulator loses exactly the ids it had open. -/
theorem OpRun.drop {n₀ : SegmentIds} {ops : List Op} {op : Op} {s : Accumulator × SegmentIds}
    {us : List TranscriptUpdate} {lost : List ℕ} (h : OpRun n₀ ops s us lost) (hd : op.drops = true) :
    OpRun n₀ (ops ++ [op]) (Accumulator.new, s.2) us (lost ++ s.1.openIds) where
  aligned := rfl
  written := h.written.abandon
  closed := fun _ => rfl
  orderly := fun ho => by rw [h.orderly ho.of_snoc, ho.closed h hd, List.append_nil]

/-- One operation keeps the books, by cases on the operation. -/
theorem OpRun.step {n₀ : SegmentIds} {ops : List Op} {s : Accumulator × SegmentIds}
    {us : List TranscriptUpdate} {lost : List ℕ} (h : OpRun n₀ ops s us lost) (op : Op) :
    ∃ s' vs lost', opStep s op = some (s', vs) ∧ OpRun n₀ (ops ++ [op]) s' (us ++ vs) lost' := by
  cases op with
  | ingest r =>
      obtain ⟨w, hw⟩ := ingest_spec h.aligned (Written.ordered h.written) r
      refine ⟨(w.acc, w.ids), w.out, lost, by simp [opStep, ingestStep, hw.eq], hw.aligned, ?_, ?_, ?_⟩
      · rw [journal_append]
        exact h.written.steps hw.leads.steps
      · intro hlast
        have := hlast (.ingest r) (by simp)
        simp [Op.opens] at this
      · exact fun ho => h.orderly ho.of_snoc
  | finish =>
      refine ⟨(s.1.finished, s.2), (s.1.finish s.2).out, lost, ?_, rfl, ?_, fun _ => rfl,
        fun ho => h.orderly ho.of_snoc⟩
      · simp only [opStep, finish_eq h.aligned]
      · rw [journal_append]
        exact h.written.steps (finish_steps h.aligned s.2)
  | reset =>
      refine ⟨(Accumulator.new, s.2), [], lost ++ s.1.openIds, rfl, ?_⟩
      rw [List.append_nil]
      exact h.drop rfl
  | replace =>
      refine ⟨(Accumulator.new, s.2), [], lost ++ s.1.openIds, rfl, ?_⟩
      rw [List.append_nil]
      exact h.drop rfl

theorem opRun_new (n₀ : SegmentIds) : OpRun n₀ [] (Accumulator.new, n₀) [] [] where
  aligned := rfl
  written := .nil
  closed := fun _ => rfl
  orderly := fun _ => rfl

theorem op_run (n₀ : SegmentIds) (ops : List Op) :
    ∃ s us, Mealy.run opStep (Accumulator.new, n₀) ops = some (s, us) ∧
      ∃ lost, OpRun n₀ ops s us lost := by
  apply Mealy.run_total (P := fun ops s us => ∃ lost, OpRun n₀ ops s us lost)
  · rintro ops s us op ⟨lost, h⟩
    obtain ⟨s', vs, lost', hs, h'⟩ := h.step op
    exact ⟨s', vs, hs, lost', h'⟩
  · exact ⟨[], opRun_new n₀⟩

/-! ## The contract of the frontend store -/

theorem pairwise_journal {us : List TranscriptUpdate}
    (h : (journal us).Pairwise fun e e' => e.closed = true → e'.key ≠ e.key) :
    us.Pairwise fun u u' => u.isFinal = true → u'.segmentId ≠ u.segmentId :=
  List.pairwise_map.mp h

/-- **The life of a segment id.**  Every run of operations exists, that is, nothing panics; runs
and ids are aligned where it ends and at every `flush` of a response that may follow; a final id is
not emitted again; ids first appear in increasing order; and when an orderly run has just finished,
each id emitted has been made final exactly once. -/
theorem segment_lifecycle (n₀ : SegmentIds) (ops : List Op) :
    ∃ s us, Mealy.run opStep (Accumulator.new, n₀) ops = some (s, us) ∧
      s.1.openRuns.length = s.1.openIds.length ∧
      (∀ r a, FlushDuring s r a → a.openRuns.length = a.openIds.length) ∧
      us.Pairwise (fun u u' => u.isFinal = true → u'.segmentId ≠ u.segmentId) ∧
      (firstKeys (journal us)).Pairwise (· < ·) ∧
      (Orderly ops → ops.getLast? = some .finish →
        ∀ u ∈ us, closings u.segmentId (journal us) = 1) := by
  obtain ⟨s, us, hr, lost, h⟩ := op_run n₀ ops
  refine ⟨s, us, hr, h.aligned, ?_, pairwise_journal h.written.closed_last,
    h.written.first_keys_sorted, ?_⟩
  · intro r a hd
    exact hd.aligned h.aligned
  intro ho hlast u hu
  have hkey : u.segmentId ∈ keys (journal us) :=
    List.mem_map_of_mem (f := Entry.key) (List.mem_map_of_mem (f := TranscriptUpdate.entry) hu)
  have hlive : s.1.openIds = [] := by
    apply h.closed
    intro op hop
    rw [hlast] at hop
    cases hop
    rfl
  refine h.written.closed_once hkey ?_ ?_
  · show u.segmentId ∉ s.1.openIds
    rw [hlive]; exact List.not_mem_nil
  · rw [h.orderly ho]; exact List.not_mem_nil

/-- A guess at two speakers, finished and reset, then a second stream on the same counter. -/
theorem segment_lifecycle_two_streams :
    ∃ s us, Mealy.run opStep (Accumulator.new, 1)
        [.ingest { tokens := [⟨"Hi", false, some "1"⟩, ⟨" you", false, some "2"⟩] }, .finish, .reset,
          .ingest { tokens := [⟨"Bye.", true, none⟩, ⟨" so", false, none⟩] }, .finish]
        = some (s, us) ∧
      ∀ u ∈ us, closings u.segmentId (journal us) = 1 := by
  obtain ⟨s, us, hr, -, -, -, -, hc⟩ := segment_lifecycle 1
    [.ingest { tokens := [⟨"Hi", false, some "1"⟩, ⟨" you", false, some "2"⟩] }, .finish, .reset,
      .ingest { tokens := [⟨"Bye.", true, none⟩, ⟨" so", false, none⟩] }, .finish]
  exact ⟨s, us, hr, hc (by simp [Orderly, Op.drops, Op.opens]) rfl⟩

end Larmindon.Soniox
