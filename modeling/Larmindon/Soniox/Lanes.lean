/-
# `Soniox.Lanes` — what each operation of the accumulator does

One lemma an operation, and callers use these and never the definitions:

    flush, adoptSpeaker, appendFinal, ingestFinal     `*_spec`
    publishOpen                                       `publishOpen_spec`
    ingest                                            `ingest_spec`
    finish                                            `finish_eq`

Each says four things.  The operation does not panic on an accumulator whose
runs and ids are aligned, and leaves one.  What it emits is a list of journal
steps from the board of open ids before it to the one after (`Work.Leads`).  On
the durable lane it is the operation of that name on `Durable`, which knows
nothing of ids, runs or provisional tokens.  And after `publishOpen` each open
id shows the text of its run.
-/
import Larmindon.Soniox.Accumulator

namespace Larmindon.Soniox

open Journal

/-! ## The durable lane by itself -/

/-- What the final tokens alone determine: the segments they closed, the text not yet flushed and
its speaker. -/
structure Durable where
  segments : List (String × Option SpeakerId)
  pending : String
  speaker : Option String

namespace Durable

def new : Durable := ⟨[], "", none⟩

def flush (d : Durable) : Durable :=
  if isBlank d.pending then { d with pending := "" }
  else ⟨d.segments ++ [(d.pending, d.speaker.map SpeakerId.mk)], "", d.speaker⟩

def adoptSpeaker (d : Durable) (token : SonioxToken) : Durable :=
  match token.normalizedSpeaker with
  | none => d
  | some speaker =>
      { if d.speaker.any fun current => current != speaker then d.flush else d with
        speaker := some speaker }

def appendFinal (d : Durable) (token : SonioxToken) : Durable :=
  if token.isEndMarker then d.flush
  else if token.isSpecial then d
  else
    let d := { d with pending := d.pending ++ token.text }
    if endsSentence d.pending then d.flush else d

/-- One final token. -/
def step (d : Durable) (token : SonioxToken) : Durable :=
  (d.adoptSpeaker token).appendFinal token

end Durable

/-- Text and speaker of the final updates that carry text. -/
def finalTexts (us : List TranscriptUpdate) : List (String × Option SpeakerId) :=
  (us.filter fun u => u.isFinal && !u.text.isEmpty).map fun u => (u.text, u.speaker)

@[simp] theorem finalTexts_nil : finalTexts [] = [] := rfl

@[simp] theorem finalTexts_append (us vs : List TranscriptUpdate) :
    finalTexts (us ++ vs) = finalTexts us ++ finalTexts vs := by
  simp [finalTexts]

theorem finalTexts_final {run : Run} (h : run.text ≠ "") (id : ℕ) :
    finalTexts [run.update id true] = [(run.text, run.speaker.map SpeakerId.mk)] := by
  simp [finalTexts, Run.update, h]

theorem finalTexts_retractions (ids : List ℕ) : finalTexts (ids.map retraction) = [] := by
  simp [finalTexts, retraction]

namespace Accumulator

/-- One open id to each open run. -/
def Aligned (a : Accumulator) : Prop := a.openRuns.length = a.openIds.length

def board (a : Accumulator) (ids : SegmentIds) : Board := ⟨a.openIds, ids⟩

end Accumulator

namespace Work

def board (w : Work) : Board := w.acc.board w.ids

/-- The durable lane of an accumulator part of the way through an operation. -/
def durable (w : Work) : Durable := ⟨finalTexts w.out, w.acc.pending, w.acc.pendingSpeaker⟩

/-- From `w` to `w'` some updates were emitted, each one a journal step. -/
def Leads (w w' : Work) : Prop :=
  ∃ us, w'.out = w.out ++ us ∧ Steps w.board (journal us) w'.board

theorem Leads.refl (w : Work) : w.Leads w := ⟨[], by simp, .refl _⟩

theorem Leads.trans {w w' w'' : Work} (h : w.Leads w') (h' : w'.Leads w'') : w.Leads w'' := by
  obtain ⟨us, ho, hs⟩ := h
  obtain ⟨vs, ho', hs'⟩ := h'
  exact ⟨us ++ vs, by rw [ho', ho, List.append_assoc], by rw [journal_append]; exact hs.append hs'⟩

theorem Leads.one {w w' : Work} {u : TranscriptUpdate} (ho : w'.out = w.out ++ [u])
    (hs : Step w.board u.entry w'.board) : w.Leads w' :=
  ⟨[u], ho, .one hs⟩

/-- From an empty `out`, the journal steps are those of everything emitted. -/
theorem Leads.steps {a : Accumulator} {ids : SegmentIds} {w : Work}
    (h : Leads ⟨a, ids, []⟩ w) : Steps (a.board ids) (journal w.out) w.board := by
  obtain ⟨us, ho, hs⟩ := h
  rw [List.nil_append] at ho
  rw [ho]; exact hs

end Work

namespace Accumulator

/-! ## The durable lane of the accumulator -/

/-- What a durable operation of the accumulator has to satisfy. -/
structure DurableSpec (w : Work) (res : Option Work) (d : Durable) (w' : Work) : Prop where
  eq : res = some w'
  aligned : w'.acc.Aligned
  leads : w.Leads w'
  durable : w'.durable = d

theorem flush_spec {w : Work} (h : w.acc.Aligned) :
    ∃ w', DurableSpec w (flush w) w.durable.flush w' := by
  obtain ⟨⟨pending, speaker, runs, openIds⟩, ids, out⟩ := w
  cases hb : isBlank pending with
  | true =>
      refine ⟨⟨⟨"", speaker, runs, openIds⟩, ids, out⟩, by simp [flush, hb], h, .refl _, ?_⟩
      simp [Work.durable, Durable.flush, hb]
  | false =>
      have hne : pending ≠ "" := ne_empty_of_not_blank hb
      have hd : Durable.flush ⟨finalTexts out, pending, speaker⟩
          = ⟨finalTexts out ++ [(pending, speaker.map SpeakerId.mk)], "", speaker⟩ := by
        simp [Durable.flush, hb]
      -- the text goes out under the first open id, or under a fresh one when no run is open
      cases openIds with
      | nil =>
          refine ⟨⟨⟨"", speaker, runs, []⟩, ids + 1,
            out ++ [Run.update ⟨speaker, pending⟩ ids true]⟩,
            by simp [flush, hb, SegmentIds.next], h, .one rfl .settleNew, ?_⟩
          simp only [Work.durable, hd, finalTexts_append]
          rw [finalTexts_final hne]
      | cons id openIds =>
          cases runs with
          | nil => simp [Aligned] at h
          | cons run runs =>
              refine ⟨⟨⟨"", speaker, runs, openIds⟩, ids,
                out ++ [Run.update ⟨speaker, pending⟩ id true]⟩,
                by simp [flush, hb], by simpa [Aligned] using h, .one rfl .settle, ?_⟩
              simp only [Work.durable, hd, finalTexts_append]
              rw [finalTexts_final hne]

theorem adoptSpeaker_spec {w : Work} (h : w.acc.Aligned) (token : SonioxToken) :
    ∃ w', DurableSpec w (adoptSpeaker w token) (w.durable.adoptSpeaker token) w' := by
  cases hn : token.normalizedSpeaker with
  | none =>
      exact ⟨w, by simp [adoptSpeaker, hn], h, .refl w, by simp [Durable.adoptSpeaker, hn]⟩
  | some speaker =>
      by_cases hc : w.acc.pendingSpeaker.any fun current => current != speaker
      · obtain ⟨w₁, hs⟩ := flush_spec h
        refine ⟨{ w₁ with acc := { w₁.acc with pendingSpeaker := some speaker } }, ?_, hs.aligned,
          hs.leads.trans ⟨[], by simp, .refl _⟩, ?_⟩
        · simp [adoptSpeaker, hn, hc, hs.eq]
        · have hc' : w.durable.speaker.any fun current => current != speaker := hc
          simp only [Durable.adoptSpeaker, hn, if_pos hc', ← hs.durable]
          rfl
      · refine ⟨{ w with acc := { w.acc with pendingSpeaker := some speaker } }, ?_, h,
          ⟨[], by simp, .refl _⟩, ?_⟩
        · simp [adoptSpeaker, hn, hc]
        · have hc' : ¬ w.durable.speaker.any fun current => current != speaker := hc
          simp only [Durable.adoptSpeaker, hn, if_neg hc']
          rfl

theorem appendFinal_spec {w : Work} (h : w.acc.Aligned) (token : SonioxToken) :
    ∃ w', DurableSpec w (appendFinal w token) (w.durable.appendFinal token) w' := by
  cases he : token.isEndMarker with
  | true =>
      obtain ⟨w', hs⟩ := flush_spec h
      exact ⟨w', by simp [appendFinal, he, hs.eq], hs.aligned, hs.leads,
        by simp [Durable.appendFinal, he, hs.durable]⟩
  | false =>
  cases hsp : token.isSpecial with
  | true =>
      exact ⟨w, by simp [appendFinal, he, hsp], h, .refl w,
        by simp [Durable.appendFinal, he, hsp]⟩
  | false =>
  have h₁ : ({ w with acc := { w.acc with pending := w.acc.pending ++ token.text } } : Work).acc.Aligned :=
    h
  cases hend : endsSentence (w.acc.pending ++ token.text) with
  | true =>
      obtain ⟨w', hs⟩ := flush_spec h₁
      refine ⟨w', by simp [appendFinal, he, hsp, hend, hs.eq], hs.aligned,
        .trans ⟨[], by simp, .refl _⟩ hs.leads, ?_⟩
      rw [hs.durable]
      simp [Durable.appendFinal, he, hsp, Work.durable, hend]
  | false =>
      refine ⟨_, by simp [appendFinal, he, hsp, hend], h₁, ⟨[], by simp, .refl _⟩, ?_⟩
      simp [Durable.appendFinal, he, hsp, Work.durable, hend]

theorem ingestFinal_spec {w : Work} (h : w.acc.Aligned) (token : SonioxToken) :
    ∃ w', DurableSpec w (ingestFinal w token) (w.durable.step token) w' := by
  obtain ⟨w₁, h₁⟩ := adoptSpeaker_spec h token
  obtain ⟨w₂, h₂⟩ := appendFinal_spec h₁.aligned token
  refine ⟨w₂, by simp [ingestFinal, h₁.eq, h₂.eq], h₂.aligned, h₁.leads.trans h₂.leads, ?_⟩
  rw [h₂.durable, h₁.durable, Durable.step]

theorem ingestFinals_spec {w : Work} (h : w.acc.Aligned) (tokens : List SonioxToken) :
    ∃ w', DurableSpec w (tokens.foldlM ingestFinal w) (tokens.foldl Durable.step w.durable) w' := by
  induction tokens generalizing w with
  | nil => exact ⟨w, rfl, h, .refl w, rfl⟩
  | cons token tokens ih =>
      obtain ⟨w₁, h₁⟩ := ingestFinal_spec h token
      obtain ⟨w₂, h₂⟩ := ih h₁.aligned
      refine ⟨w₂, by simp [List.foldlM_cons, h₁.eq, h₂.eq], h₂.aligned, h₁.leads.trans h₂.leads, ?_⟩
      rw [h₂.durable, h₁.durable, List.foldl_cons]

/-! ## Publishing the open runs -/

/-- What one turn of the loop of `publish_open` does to the run at position `i`. -/
structure ShownAt (w : Work) (run : Run) (i : ℕ) (w' : Work) (id : ℕ) : Prop where
  out : w'.out = w.out ++ [run.update id false]
  at_i : w'.acc.openIds[i]? = some id
  kept : w.acc.openIds <+: w'.acc.openIds
  grows : w'.acc.openIds.length = max w.acc.openIds.length (i + 1)
  pending : w'.acc.pending = w.acc.pending
  speaker : w'.acc.pendingSpeaker = w.acc.pendingSpeaker
  leads : w.Leads w'

theorem showRun_spec {w : Work} {i : ℕ} (h : i ≤ w.acc.openIds.length) (run : Run) :
    ∃ id, ShownAt w run i (showRun w (run, i)) id := by
  rcases Nat.lt_or_ge i w.acc.openIds.length with hi | hi
  · have hid : w.acc.openIds[i]? = some w.acc.openIds[i] := List.getElem?_eq_getElem hi
    have hw : showRun w (run, i) = { w with out := w.out ++ [run.update w.acc.openIds[i] false] } := by
      simp [showRun, hid]
    refine ⟨w.acc.openIds[i], ?_⟩
    rw [hw]
    exact ⟨rfl, hid, List.prefix_refl _, by simp only; omega, rfl, rfl,
      .one rfl (.revise (List.getElem_mem hi))⟩
  · have hid : w.acc.openIds[i]? = none := by simpa using hi
    have hlen : i = w.acc.openIds.length := by omega
    have hw : showRun w (run, i) = ⟨{ w.acc with openIds := w.acc.openIds ++ [w.ids] }, w.ids + 1,
        w.out ++ [run.update w.ids false]⟩ := by
      simp [showRun, hid, SegmentIds.next]
    refine ⟨w.ids, ?_⟩
    rw [hw]
    refine ⟨rfl, by simp [hlen], List.prefix_append _ _, ?_, rfl, rfl, .one rfl .start⟩
    rw [List.length_append, List.length_singleton]; omega

/-- What the whole loop of `publish_open` does to `runs` from position `i` on. -/
structure ShownFrom (w : Work) (runs : List Run) (i : ℕ) (w' : Work) : Prop where
  out : w'.out = w.out ++ List.zipWith (fun run id => run.update id false) runs
    (w'.acc.openIds.drop i)
  kept : w.acc.openIds <+: w'.acc.openIds
  grows : w'.acc.openIds.length = max w.acc.openIds.length (i + runs.length)
  pending : w'.acc.pending = w.acc.pending
  speaker : w'.acc.pendingSpeaker = w.acc.pendingSpeaker
  leads : w.Leads w'

theorem showRuns_spec {w : Work} {i : ℕ} (h : i ≤ w.acc.openIds.length) (runs : List Run) :
    ShownFrom w runs i ((runs.zipIdx i).foldl showRun w) := by
  induction runs generalizing w i with
  | nil => exact ⟨by simp, List.prefix_refl _, by simp; omega, rfl, rfl, .refl w⟩
  | cons run runs ih =>
      obtain ⟨id, h₁⟩ := showRun_spec h run
      have hlen : i + 1 ≤ (showRun w (run, i)).acc.openIds.length := by rw [h₁.grows]; omega
      have h₂ := ih hlen
      rw [List.zipIdx_cons, List.foldl_cons]
      refine ⟨?_, h₁.kept.trans h₂.kept, ?_, h₂.pending.trans h₁.pending,
        h₂.speaker.trans h₁.speaker, h₁.leads.trans h₂.leads⟩
      · -- position `i` of the ids is settled by the first turn and kept by the others
        have hid : ((runs.zipIdx (i + 1)).foldl showRun (showRun w (run, i))).acc.openIds[i]?
            = some id := by
          obtain ⟨new, hnew⟩ := h₂.kept
          rw [← hnew, List.getElem?_append_left (by omega), h₁.at_i]
        obtain ⟨hi, hget⟩ := List.getElem?_eq_some_iff.mp hid
        rw [h₂.out, h₁.out, List.drop_eq_getElem_cons hi, hget]
        simp
      · rw [h₂.grows, h₁.grows, List.length_cons]; omega

theorem keys_retractions (ids : List ℕ) : keys (journal (ids.map retraction)) = ids := by
  induction ids with
  | nil => rfl
  | cons id ids ih => exact congrArg (id :: ·) ih

theorem retractions_steps (kept gone : List ℕ) (n : ℕ) :
    Steps ⟨kept ++ gone, n⟩ (journal (gone.map retraction)) ⟨kept, n⟩ := by
  induction gone with
  | nil => rw [List.append_nil]; exact .refl _
  | cons k gone ih => exact .step .retract ih

/-- What `publish_open` leaves: the runs given, as many ids, and under each id the text of its
run. -/
structure Published (a : Accumulator) (runs : List Run) (ids : SegmentIds) (w : Work) : Prop where
  eq : publishOpen a runs ids = some w
  leads : Work.Leads ⟨a, ids, []⟩ w
  shown : w.acc.openRuns = runs
  aligned : w.acc.Aligned
  pending : w.acc.pending = a.pending
  speaker : w.acc.pendingSpeaker = a.pendingSpeaker
  finals : finalTexts w.out = []
  shows : ∀ log, w.acc.openIds.map (latest (log ++ journal w.out)) = runs.map fun r => r.text.toList

theorem finalTexts_drafts (runs : List Run) (ids : List ℕ) :
    finalTexts (List.zipWith (fun run id => run.update id false) runs ids) = [] := by
  induction runs generalizing ids with
  | nil => rfl
  | cons run runs ih =>
      cases ids with
      | nil => rfl
      | cons id ids => simpa [finalTexts, Run.update] using ih ids

theorem keys_updates {runs : List Run} {ids : List ℕ} (h : runs.length = ids.length) (b : Bool) :
    keys (journal (List.zipWith (fun run id => run.update id b) runs ids)) = ids := by
  induction runs generalizing ids with
  | nil => cases ids with
    | nil => rfl
    | cons id ids => simp at h
  | cons run runs ih => cases ids with
    | nil => simp at h
    | cons id ids =>
        have hlen : runs.length = ids.length := by simpa using h
        simpa [keys, TranscriptUpdate.entry, Run.update] using ih hlen

theorem values_updates {runs : List Run} {ids : List ℕ} (h : runs.length = ids.length) (b : Bool) :
    (journal (List.zipWith (fun run id => run.update id b) runs ids)).map Entry.value
      = runs.map fun r => r.text.toList := by
  induction runs generalizing ids with
  | nil => rfl
  | cons run runs ih => cases ids with
    | nil => simp at h
    | cons id ids =>
        have hlen : runs.length = ids.length := by simpa using h
        simpa [TranscriptUpdate.entry, Run.update] using ih hlen

theorem publishOpen_spec {a : Accumulator} {ids : SegmentIds} (h : (a.board ids).Ordered)
    (runs : List Run) : ∃ w, Published a runs ids w := by
  have hs := showRuns_spec (w := ⟨a, ids, []⟩) (i := 0) (Nat.zero_le _) runs
  generalize hw : (runs.zipIdx 0).foldl showRun ⟨a, ids, []⟩ = w at hs
  obtain ⟨acc, ids', out⟩ := w
  have hout : out = List.zipWith (fun run id => run.update id false) runs acc.openIds := by
    simpa using hs.out
  have hle : runs.length ≤ acc.openIds.length := by
    have : acc.openIds.length = max a.openIds.length (0 + runs.length) := hs.grows
    omega
  have hsplit : acc.openIds.take runs.length ++ acc.openIds.drop runs.length = acc.openIds :=
    List.take_append_drop _ _
  have hlen : runs.length = (acc.openIds.take runs.length).length := by simp; omega
  have hord : (Board.mk acc.openIds ids').Ordered := h.steps hs.leads.steps
  have hnodup : (acc.openIds.take runs.length ++ acc.openIds.drop runs.length).Nodup := by
    rw [hsplit]; exact hord.sorted.imp fun hlt => Nat.ne_of_lt hlt
  have hzip : out = List.zipWith (fun run id => run.update id false) runs
      (acc.openIds.take runs.length) := by
    rw [hout, List.zipWith_eq_zipWith_take_min, Nat.min_eq_left hle]
    simp
  refine ⟨⟨{ acc with openIds := acc.openIds.take runs.length, openRuns := runs }, ids',
    out ++ (acc.openIds.drop runs.length).map retraction⟩, ⟨?_, ?_, rfl, hlen, hs.pending,
    hs.speaker, ?_, ?_⟩⟩
  · simp [publishOpen, hw, splitOff, hle]
  · refine hs.leads.trans ⟨(acc.openIds.drop runs.length).map retraction, rfl, ?_⟩
    have := retractions_steps (acc.openIds.take runs.length) (acc.openIds.drop runs.length) ids'
    rwa [hsplit] at this
  · rw [finalTexts_append, finalTexts_retractions, hout, finalTexts_drafts, List.append_nil]
  · intro log
    -- the retracted ids are none of those kept, so the drafts are the latest word on these
    have hkeys : (keys (journal out)).Nodup := by
      rw [hzip, keys_updates hlen]; exact (List.nodup_append.mp hnodup).1
    have hdrafts := map_latest_of_nodup log hkeys
    rw [hzip, keys_updates hlen, values_updates hlen] at hdrafts
    rw [← hdrafts]
    refine List.map_congr_left ?_
    intro k hk
    rw [journal_append, ← List.append_assoc, latest_append_of_not_mem, hzip]
    intro hmem
    have hgone : k ∈ acc.openIds.drop runs.length := by rwa [keys_retractions] at hmem
    exact (List.nodup_append.mp hnodup).2.2 k hk k hgone rfl

/-! ## A whole response, and the end of a segment -/

/-- What `ingest` leaves. -/
structure Ingested (a : Accumulator) (r : SonioxResponse) (ids : SegmentIds) (w : Work) : Prop where
  eq : ingest a r ids = some w
  leads : Work.Leads ⟨a, ids, []⟩ w
  aligned : w.acc.Aligned
  durable : w.durable = (r.tokens.filter SonioxToken.isFinal).foldl Durable.step
    ⟨[], a.pending, a.pendingSpeaker⟩
  runs : w.acc.openRuns = buildOpenRuns w.acc r
  shows : ∀ log, w.acc.openIds.map (latest (log ++ journal w.out))
    = w.acc.openRuns.map fun r => r.text.toList

theorem buildOpenRuns_congr {a b : Accumulator} (hp : a.pending = b.pending)
    (hs : a.pendingSpeaker = b.pendingSpeaker) (r : SonioxResponse) :
    buildOpenRuns a r = buildOpenRuns b r := by
  simp [buildOpenRuns, hp, hs]

theorem ingest_spec {a : Accumulator} {ids : SegmentIds} (h : a.Aligned)
    (ho : (a.board ids).Ordered) (r : SonioxResponse) : ∃ w, Ingested a r ids w := by
  obtain ⟨w₁, h₁⟩ := ingestFinals_spec (w := ⟨a, ids, []⟩) h (r.tokens.filter SonioxToken.isFinal)
  obtain ⟨w₂, h₂⟩ := publishOpen_spec (ho.steps h₁.leads.steps) (buildOpenRuns w₁.acc r)
  refine ⟨{ w₂ with out := w₁.out ++ w₂.out }, ⟨?_, ?_, h₂.aligned, ?_, ?_, ?_⟩⟩
  · simp [ingest, h₁.eq, h₂.eq]
  · exact h₁.leads.trans ⟨w₂.out, rfl, h₂.leads.steps⟩
  · refine Eq.trans ?_ h₁.durable
    simp [Work.durable, h₂.finals, h₂.pending, h₂.speaker]
  · show w₂.acc.openRuns = _
    rw [h₂.shown]
    exact buildOpenRuns_congr h₂.pending.symm h₂.speaker.symm r
  · intro log
    show w₂.acc.openIds.map _ = w₂.acc.openRuns.map _
    rw [journal_append, ← List.append_assoc, h₂.shows, h₂.shown]

/-- The accumulator after `finish`. -/
def finished (a : Accumulator) : Accumulator :=
  { a with pending := "", openRuns := [], openIds := [] }

theorem closeRuns_eq (openIds : List ℕ) (runs : List Run) (i : ℕ) (w : Work)
    (h : i + runs.length ≤ openIds.length) :
    (runs.zipIdx i).foldl (closeRun openIds) w
      = { w with
          out := w.out ++ List.zipWith (fun run id => run.update id true) runs (openIds.drop i) } := by
  induction runs generalizing i w with
  | nil => simp
  | cons run runs ih =>
      have hi : i < openIds.length := by simp at h; omega
      have hid : openIds[i]? = some openIds[i] := List.getElem?_eq_getElem hi
      have hturn : closeRun openIds w (run, i)
          = { w with out := w.out ++ [run.update openIds[i] true] } := by
        simp [closeRun, hid]
      rw [List.zipIdx_cons, List.foldl_cons, hturn, ih (i + 1) _ (by simp at h; omega),
        List.drop_eq_getElem_cons hi, List.zipWith_cons_cons, List.append_assoc,
        List.singleton_append]

/-- On an aligned accumulator `finish` finalizes each open run under its own id, and nothing
else. -/
theorem finish_eq {a : Accumulator} (h : a.Aligned) (ids : SegmentIds) :
    finish a ids = ⟨a.finished, ids,
      List.zipWith (fun run id => run.update id true) a.openRuns a.openIds⟩ := by
  have h' : a.openRuns.length = a.openIds.length := h
  simp only [finish, closeRuns_eq a.openIds a.openRuns 0 _ (by omega)]
  simp [finished, h']

theorem settles_steps {runs : List Run} {ids : List ℕ} (h : runs.length = ids.length) (n : ℕ) :
    Steps ⟨ids, n⟩ (journal (List.zipWith (fun run id => run.update id true) runs ids)) ⟨[], n⟩ := by
  induction runs generalizing ids with
  | nil => cases ids with
    | nil => exact .refl _
    | cons id ids => simp at h
  | cons run runs ih => cases ids with
    | nil => simp at h
    | cons id ids => exact .step .settle (ih (by simpa using h))

theorem finish_steps {a : Accumulator} (h : a.Aligned) (ids : SegmentIds) :
    Steps (a.board ids) (journal (finish a ids).out) (a.finished.board ids) := by
  rw [finish_eq h]
  exact settles_steps h ids

end Accumulator

end Larmindon.Soniox
