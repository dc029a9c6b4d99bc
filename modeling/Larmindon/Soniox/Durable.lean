/-
# `Soniox.Durable` — runs of `ingest`, and what the final tokens alone decide

`ingestStep` feeds responses to an accumulator one after another.  `IngestRun`
is the invariant of such a run from a fresh accumulator, in two halves.
`Screen`: the updates are a journal whose open keys are the open ids, and these
show the open runs.  `Epoch`: the durable lane is the fold of `Durable.step` over
the final tokens of all responses, and the open runs are those of the last one.

The durable lane does not read anything but final tokens, so two runs with the
same final tokens agree on it: `durable_lane`.  Where a segment's text comes
from is `Sourced`, a partition of the tokens read into one group a segment and
the group still pending; a label in a group is the speaker of its segment.
-/
import Larmindon.Soniox.Lanes
import Larmindon.Lib.Mealy

namespace Larmindon.Soniox

open Journal

/-! ## Runs of `ingest` -/

/-- One response folded into an accumulator and the id counter it shares. -/
def ingestStep : Mealy.Step (Accumulator × SegmentIds) SonioxResponse TranscriptUpdate :=
  fun s r => (s.1.ingest r s.2).map fun w => ((w.acc, w.ids), w.out)

/-- The final tokens of all responses, in arrival order. -/
def finalTokens (rs : List SonioxResponse) : List SonioxToken :=
  rs.flatMap fun r => r.tokens.filter SonioxToken.isFinal

@[simp] theorem finalTokens_nil : finalTokens [] = [] := rfl

@[simp] theorem finalTokens_snoc (rs : List SonioxResponse) (r : SonioxResponse) :
    finalTokens (rs ++ [r]) = finalTokens rs ++ r.tokens.filter SonioxToken.isFinal := by
  simp [finalTokens]

/-- The last response read, or one without tokens. -/
def lastResponse (rs : List SonioxResponse) : SonioxResponse := rs.getLast?.getD {}

@[simp] theorem lastResponse_snoc (rs : List SonioxResponse) (r : SonioxResponse) :
    lastResponse (rs ++ [r]) = r := by
  simp [lastResponse]

namespace Durable

@[simp] theorem flush_segments (d : Durable) (segs : List (String × Option SpeakerId)) :
    flush ⟨segs ++ d.segments, d.pending, d.speaker⟩
      = ⟨segs ++ d.flush.segments, d.flush.pending, d.flush.speaker⟩ := by
  cases hb : isBlank d.pending with
  | true => simp [flush, hb]
  | false => simp [flush, hb]

/-- Segments already closed are only appended to. -/
theorem step_segments (d : Durable) (segs : List (String × Option SpeakerId)) (t : SonioxToken) :
    step ⟨segs ++ d.segments, d.pending, d.speaker⟩ t
      = ⟨segs ++ (d.step t).segments, (d.step t).pending, (d.step t).speaker⟩ := by
  have hadopt : adoptSpeaker ⟨segs ++ d.segments, d.pending, d.speaker⟩ t
      = ⟨segs ++ (d.adoptSpeaker t).segments, (d.adoptSpeaker t).pending,
          (d.adoptSpeaker t).speaker⟩ := by
    cases hn : t.normalizedSpeaker with
    | none => simp [adoptSpeaker, hn]
    | some s =>
        by_cases hc : d.speaker.any fun current => current != s
        · simp only [adoptSpeaker, hn, if_pos hc, flush_segments]
        · simp only [adoptSpeaker, hn, if_neg hc]
  unfold step
  rw [hadopt]
  generalize d.adoptSpeaker t = e
  unfold appendFinal
  split
  · exact flush_segments e segs
  split
  · rfl
  dsimp only
  split
  · exact flush_segments { e with pending := e.pending ++ t.text } segs
  · rfl

theorem foldl_step_segments (d : Durable) (segs : List (String × Option SpeakerId))
    (ts : List SonioxToken) :
    ts.foldl step ⟨segs ++ d.segments, d.pending, d.speaker⟩
      = ⟨segs ++ (ts.foldl step d).segments, (ts.foldl step d).pending,
          (ts.foldl step d).speaker⟩ := by
  induction ts generalizing d with
  | nil => rfl
  | cons t ts ih => rw [List.foldl_cons, List.foldl_cons, step_segments, ih]

end Durable

/-- The lane an accumulator and the updates it emitted so far make up. -/
def durableOf (a : Accumulator) (us : List TranscriptUpdate) : Durable :=
  ⟨finalTexts us, a.pending, a.pendingSpeaker⟩

/-- Everything emitted since key `n₀` is a journal whose open keys are the open ids, and these show
the open runs. -/
structure Screen (n₀ : SegmentIds) (s : Accumulator × SegmentIds) (us : List TranscriptUpdate) :
    Prop where
  aligned : s.1.Aligned
  written : Written n₀ (journal us) (s.1.board s.2) []
  shows : s.1.openIds.map (latest (journal us)) = s.1.openRuns.map fun r => r.text.toList

/-- What the responses `rs` of one stream left in an accumulator that was empty before them; `us`
are the updates emitted for them. -/
structure Epoch (rs : List SonioxResponse) (a : Accumulator) (us : List TranscriptUpdate) :
    Prop where
  durable : durableOf a us = (finalTokens rs).foldl Durable.step Durable.new
  runs : a.openRuns = a.buildOpenRuns (lastResponse rs)

theorem Written.ordered {n₀ : ℕ} {log : List (Entry Char)} {b : Board} {lost : List ℕ}
    (h : Written n₀ log b lost) : b.Ordered :=
  ⟨h.kept.live_sorted, fun _ hk => h.kept.live_lt hk⟩

theorem screen_new (n₀ : SegmentIds) : Screen n₀ (Accumulator.new, n₀) [] where
  aligned := rfl
  written := .nil
  shows := rfl

theorem epoch_new : Epoch [] Accumulator.new [] where
  durable := rfl
  runs := rfl

theorem Screen.ingest_spec {n₀ : SegmentIds} {s : Accumulator × SegmentIds}
    {us : List TranscriptUpdate} (h : Screen n₀ s us) (r : SonioxResponse) :
    ∃ w, Accumulator.Ingested s.1 r s.2 w ∧ Screen n₀ (w.acc, w.ids) (us ++ w.out) := by
  obtain ⟨w, hw⟩ := Accumulator.ingest_spec h.aligned (Written.ordered h.written) r
  refine ⟨w, hw, hw.aligned, ?_, ?_⟩
  · rw [journal_append]
    exact h.written.steps hw.leads.steps
  · rw [journal_append]
    exact hw.shows _

/-- The response continues the durable lane where the ones before it have left it. -/
theorem Epoch.ingest {rs : List SonioxResponse} {a : Accumulator} {us : List TranscriptUpdate}
    {r : SonioxResponse} {ids : SegmentIds} {w : Work} (h : Epoch rs a us)
    (hw : Accumulator.Ingested a r ids w) : Epoch (rs ++ [r]) w.acc (us ++ w.out) := by
  refine ⟨?_, by simpa using hw.runs⟩
  have hlane := Durable.foldl_step_segments ⟨[], a.pending, a.pendingSpeaker⟩ (finalTexts us)
    (r.tokens.filter SonioxToken.isFinal)
  have hd := hw.durable
  simp only [Work.durable] at hd
  rw [← hd] at hlane
  rw [finalTokens_snoc, List.foldl_append, ← h.durable]
  simp only [durableOf, finalTexts_append]
  simpa using hlane.symm

/-- What a run of `ingest` over `rs` leaves, begun on a fresh accumulator with next id `n₀`. -/
structure IngestRun (n₀ : SegmentIds) (rs : List SonioxResponse) (s : Accumulator × SegmentIds)
    (us : List TranscriptUpdate) : Prop extends Screen n₀ s us, Epoch rs s.1 us

theorem IngestRun.step {n₀ : SegmentIds} {rs : List SonioxResponse} {s : Accumulator × SegmentIds}
    {us : List TranscriptUpdate} (h : IngestRun n₀ rs s us) (r : SonioxResponse) :
    ∃ s' vs, ingestStep s r = some (s', vs) ∧ IngestRun n₀ (rs ++ [r]) s' (us ++ vs) := by
  obtain ⟨w, hw, hscreen⟩ := h.toScreen.ingest_spec r
  exact ⟨(w.acc, w.ids), w.out, by simp [ingestStep, hw.eq], hscreen, h.toEpoch.ingest hw⟩

/-- A run of `ingest` from a fresh accumulator never panics and keeps `IngestRun`. -/
theorem ingest_run (n₀ : SegmentIds) (rs : List SonioxResponse) :
    ∃ s us, Mealy.run ingestStep (Accumulator.new, n₀) rs = some (s, us) ∧ IngestRun n₀ rs s us :=
  Mealy.run_total (P := fun rs s us => IngestRun n₀ rs s us)
    (fun _ _ _ r h => h.step r)
    (show IngestRun n₀ [] (Accumulator.new, n₀) [] from ⟨screen_new n₀, epoch_new⟩) rs

/-! ## Where the text of a segment comes from -/

/-- The tokens a segment was made of, and the speaker it was closed with. -/
structure TokenGroup where
  tokens : List SonioxToken
  speaker : Option String

def textOf (ts : List SonioxToken) : String := ts.foldl (fun s t => s ++ t.text) ""

theorem textOf_snoc (ts : List SonioxToken) (t : SonioxToken) :
    textOf (ts ++ [t]) = textOf ts ++ t.text := by
  simp [textOf]

def TokenGroup.text (g : TokenGroup) : String := textOf g.tokens

/-- Every label in the group is its speaker. -/
def TokenGroup.Labelled (g : TokenGroup) : Prop :=
  ∀ t ∈ g.tokens, ∀ s, t.normalizedSpeaker = some s → g.speaker = some s

/-- The segments of the groups that show anything. -/
def segmentsOf (groups : List TokenGroup) : List (String × Option SpeakerId) :=
  (groups.filter fun g => !isBlank g.text).map fun g => (g.text, g.speaker.map SpeakerId.mk)

/-- `groups` and `rest` partition the tokens with text of `ts`; the lane `d` closed the first and
still holds the second. -/
structure Sourced (d : Durable) (ts : List SonioxToken) (groups : List TokenGroup)
    (rest : List SonioxToken) : Prop where
  parts : groups.flatMap TokenGroup.tokens ++ rest = ts.filter fun t => !t.isSpecial
  segments : d.segments = segmentsOf groups
  pending : d.pending = textOf rest
  labelled : ∀ g ∈ groups, g.Labelled
  restLabelled : TokenGroup.Labelled ⟨rest, d.speaker⟩

namespace Sourced

variable {d : Durable} {ts rest : List SonioxToken} {groups : List TokenGroup}

theorem flush (h : Sourced d ts groups rest) :
    Sourced d.flush ts (groups ++ [⟨rest, d.speaker⟩]) [] := by
  have hparts : (groups ++ [(⟨rest, d.speaker⟩ : TokenGroup)]).flatMap TokenGroup.tokens ++ []
      = ts.filter fun t => !t.isSpecial := by
    rw [← h.parts]; simp
  have hlab : ∀ g ∈ groups ++ [⟨rest, d.speaker⟩], TokenGroup.Labelled g := by
    intro g hg
    rcases List.mem_append.mp hg with hg | hg
    · exact h.labelled g hg
    · rw [List.mem_singleton.mp hg]; exact h.restLabelled
  have hnil : ∀ speaker, TokenGroup.Labelled ⟨[], speaker⟩ := fun _ t ht => absurd ht List.not_mem_nil
  have htext : TokenGroup.text ⟨rest, d.speaker⟩ = d.pending := h.pending.symm
  cases hb : isBlank d.pending with
  | true =>
      have hd : d.flush = { d with pending := "" } := by simp [Durable.flush, hb]
      rw [hd]
      exact ⟨hparts, by simp [segmentsOf, htext, hb, h.segments], rfl, hlab, hnil _⟩
  | false =>
      have hd : d.flush = ⟨d.segments ++ [(d.pending, d.speaker.map SpeakerId.mk)], "", d.speaker⟩ := by
        simp [Durable.flush, hb]
      rw [hd]
      exact ⟨hparts, by simp [segmentsOf, htext, hb, h.segments], rfl, hlab, hnil _⟩

/-- With nothing pending the speaker is free to change. -/
theorem relabel (h : Sourced d ts groups []) (speaker : Option String) :
    Sourced { d with speaker := speaker } ts groups [] :=
  ⟨h.parts, h.segments, h.pending, h.labelled, fun _ ht => absurd ht List.not_mem_nil⟩

/-- Adopting the label of `t` keeps the groups, but for closing the pending one when the label is
another: so a label never joins a group of someone else. -/
theorem adoptSpeaker (h : Sourced d ts groups rest) (t : SonioxToken) :
    ∃ groups' rest', Sourced (d.adoptSpeaker t) ts groups' rest' ∧
      ∀ s, t.normalizedSpeaker = some s → (d.adoptSpeaker t).speaker = some s := by
  cases hn : t.normalizedSpeaker with
  | none => exact ⟨groups, rest, by simpa [Durable.adoptSpeaker, hn] using h, by simp⟩
  | some s =>
      by_cases hc : d.speaker.any fun current => current != s
      · have hd : d.adoptSpeaker t = { d.flush with speaker := some s } := by
          simp only [Durable.adoptSpeaker, hn, if_pos hc]
        rw [hd]
        exact ⟨groups ++ [⟨rest, d.speaker⟩], [], h.flush.relabel (some s), fun s' hs' => hs'⟩
      · have hd : d.adoptSpeaker t = { d with speaker := some s } := by
          simp only [Durable.adoptSpeaker, hn, if_neg hc]
        rw [hd]
        refine ⟨groups, rest, ⟨h.parts, h.segments, h.pending, h.labelled, ?_⟩,
          fun s' hs' => hs'⟩
        -- whatever label is in `rest` was the speaker before, which is `s` or there was none
        intro u hu s' hs'
        have hsp := h.restLabelled u hu s' hs'
        simp only at hsp
        simp [hsp] at hc
        rw [hc]

theorem appendFinal (h : Sourced d ts groups rest) {t : SonioxToken}
    (hl : ∀ s, t.normalizedSpeaker = some s → d.speaker = some s) :
    ∃ groups' rest', Sourced (d.appendFinal t) (ts ++ [t]) groups' rest' := by
  have hskip : t.isSpecial = true → Sourced d (ts ++ [t]) groups rest := fun hs =>
    ⟨by rw [h.parts]; simp [hs], h.segments, h.pending, h.labelled, h.restLabelled⟩
  by_cases he : t.isEndMarker = true
  · have hs : t.isSpecial = true := by
      have he' : trim t.text = TOKEN_END := by simpa [SonioxToken.isEndMarker] using he
      simp [SonioxToken.isSpecial, he']
    refine ⟨groups ++ [⟨rest, d.speaker⟩], [], ?_⟩
    rw [Durable.appendFinal, if_pos he]
    exact (hskip hs).flush
  by_cases hs : t.isSpecial = true
  · refine ⟨groups, rest, ?_⟩
    rw [Durable.appendFinal, if_neg he, if_pos hs]
    exact hskip hs
  have happ : Sourced { d with pending := d.pending ++ t.text } (ts ++ [t]) groups (rest ++ [t]) := by
    refine ⟨?_, h.segments, ?_, h.labelled, ?_⟩
    · rw [← List.append_assoc, h.parts]; simp [hs]
    · rw [textOf_snoc, h.pending]
    · intro u hu s hsp
      rcases List.mem_append.mp hu with hu | hu
      · exact h.restLabelled u hu s hsp
      · rw [List.mem_singleton.mp hu] at hsp; exact hl s hsp
  rw [Durable.appendFinal, if_neg he, if_neg hs]
  dsimp only
  split
  · exact ⟨_, [], happ.flush⟩
  · exact ⟨groups, rest ++ [t], happ⟩

theorem step (h : Sourced d ts groups rest) (t : SonioxToken) :
    ∃ groups' rest', Sourced (d.step t) (ts ++ [t]) groups' rest' := by
  obtain ⟨_, _, h₁, hl⟩ := h.adoptSpeaker t
  exact h₁.appendFinal hl

end Sourced

/-- Whatever final tokens were read, their texts are all accounted for. -/
theorem durable_sourced (ts : List SonioxToken) :
    ∃ groups rest, Sourced (ts.foldl Durable.step Durable.new) ts groups rest := by
  induction ts using List.reverseRecOn with
  | nil => exact ⟨[], [], rfl, rfl, rfl, by simp, fun t ht => absurd ht List.not_mem_nil⟩
  | append_singleton ts t ih =>
      obtain ⟨groups, rest, h⟩ := ih
      rw [List.foldl_append, List.foldl_cons, List.foldl_nil]
      exact h.step t

/-! ## Two runs with the same final tokens -/

/-- **The durable lane depends on the final tokens only.**  Two runs from fresh accumulators whose
final tokens are the same close the same segments and hold the same text pending, and each segment
is the text of a group of these tokens whose labels are all its speaker. -/
theorem durable_lane (n n' : SegmentIds) (rs rs' : List SonioxResponse)
    (h : finalTokens rs = finalTokens rs') :
    ∃ s us s' us', Mealy.run ingestStep (Accumulator.new, n) rs = some (s, us) ∧
      Mealy.run ingestStep (Accumulator.new, n') rs' = some (s', us') ∧
      finalTexts us = finalTexts us' ∧
      s.1.pending = s'.1.pending ∧ s.1.pendingSpeaker = s'.1.pendingSpeaker ∧
      ∃ groups rest, groups.flatMap TokenGroup.tokens ++ rest
          = ((finalTokens rs).filter fun t => !t.isSpecial) ∧
        finalTexts us = segmentsOf groups ∧ s.1.pending = textOf rest ∧
        (∀ g ∈ groups, g.Labelled) ∧ TokenGroup.Labelled ⟨rest, s.1.pendingSpeaker⟩ := by
  obtain ⟨s, us, hr, hi⟩ := ingest_run n rs
  obtain ⟨s', us', hr', hi'⟩ := ingest_run n' rs'
  have heq : durableOf s.1 us = durableOf s'.1 us' := by rw [hi.durable, hi'.durable, h]
  obtain ⟨groups, rest, hsrc⟩ := durable_sourced (finalTokens rs)
  rw [← hi.durable] at hsrc
  exact ⟨s, us, s', us', hr, hr', congrArg Durable.segments heq, congrArg Durable.pending heq,
    congrArg Durable.speaker heq, groups, rest, hsrc.parts, hsrc.segments, hsrc.pending,
    hsrc.labelled, hsrc.restLabelled⟩

/-- One batch of final tokens, whole and in two pieces with a guess in between. -/
theorem durable_lane_split :
    ∃ s us s' us',
      Mealy.run ingestStep (Accumulator.new, 1)
        [{ tokens := [⟨"Hi", true, some "1"⟩, ⟨" all", true, none⟩] }] = some (s, us) ∧
      Mealy.run ingestStep (Accumulator.new, 7)
        [{ tokens := [⟨"Hi", true, some "1"⟩, ⟨" hall", false, some "2"⟩] },
          { tokens := [⟨" all", true, none⟩] }] = some (s', us') ∧
      finalTexts us = finalTexts us' ∧ s.1.pending = s'.1.pending ∧
      s.1.pendingSpeaker = s'.1.pendingSpeaker := by
  obtain ⟨s, us, s', us', hr, hr', ht, hp, hs, -⟩ := durable_lane 1 7
    [{ tokens := [⟨"Hi", true, some "1"⟩, ⟨" all", true, none⟩] }]
    [{ tokens := [⟨"Hi", true, some "1"⟩, ⟨" hall", false, some "2"⟩] },
      { tokens := [⟨" all", true, none⟩] }] rfl
  exact ⟨s, us, s', us', hr, hr', ht, hp, hs⟩

end Larmindon.Soniox
