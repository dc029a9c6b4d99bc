/-
# `Soniox.Turns` — the same tokens, provisional and final

A hypothesis is shown by the volatile lane and, when it is finalized, closed by
the durable one.  Each lane follows the speaker labels by itself:

    durable     a label other than the speaker flushes what is pending under
                the speaker, and is adopted
    volatile    a label other than the speaker opens a run, and is adopted

A token without a label goes with the speaker, in both.  The lanes part in one
case: text that is there before there is any speaker.  The durable lane has no
speaker to flush it under and closes it under the first label that comes, the
volatile lane leaves it in a run of its own, without a label
(`turns_agree_iff`).
-/
import Larmindon.Soniox.Lifecycle
import Larmindon.Soniox.OpenLane

namespace Larmindon.Soniox

/-! ## What is compared -/

/-- The rows that show anything, with the white space of their texts erased. -/
def heard (rows : List (String × Option SpeakerId)) : List (List Char × Option SpeakerId) :=
  (rows.map fun row => (visible row.1, row.2)).filter fun row => !row.1.isEmpty

/-- Text and speaker of the updates that are not final. -/
def drafts (us : List TranscriptUpdate) : List (String × Option SpeakerId) :=
  (us.filter fun u => !u.isFinal).map fun u => (u.text, u.speaker)

/-- A token as it arrives before it is finalized, and after. -/
def SonioxToken.withFinal (isFinal : Bool) (token : SonioxToken) : SonioxToken :=
  { token with isFinal }

/-- No token, appended to what is pending then, completes a sentence. -/
def NoSentence (d : Durable) (ts : List SonioxToken) : Prop :=
  ∀ before t after, ts = before ++ t :: after →
    endsSentence (((before.foldl Durable.step d).adoptSpeaker t).pending ++ t.text) = false

/-- There is no speaker yet, and a label comes after text without one. -/
def UnlabelledHead (d : Durable) (ts : List SonioxToken) : Prop :=
  d.speaker = none ∧ ∃ before t after, ts = before ++ t :: after ∧
    (∀ u ∈ before, u.normalizedSpeaker = none) ∧ t.normalizedSpeaker ≠ none ∧
    visible (d.pending ++ textOf before) ≠ []

@[simp] theorem heard_nil : heard [] = [] := rfl

theorem heard_append (xs ys : List (String × Option SpeakerId)) :
    heard (xs ++ ys) = heard xs ++ heard ys := by
  simp [heard]

theorem heard_cons (x : String × Option SpeakerId) (xs : List (String × Option SpeakerId)) :
    heard (x :: xs) = heard [x] ++ heard xs :=
  heard_append [x] xs

theorem heard_blank {text : String} (h : visible text = []) (speaker : Option SpeakerId) :
    heard [(text, speaker)] = [] := by
  simp [heard, h]

/-- Only what a row shows is compared. -/
theorem heard_congr {text text' : String} (h : visible text = visible text')
    (speaker : Option SpeakerId) : heard [(text, speaker)] = heard [(text', speaker)] := by
  simp [heard, h]

theorem mem_heard {rows : List (String × Option SpeakerId)} {row : List Char × Option SpeakerId}
    (h : row ∈ heard rows) : ∃ text, (text, row.2) ∈ rows := by
  simp only [heard, List.mem_filter, List.mem_map] at h
  obtain ⟨⟨r, hr, rfl⟩, -⟩ := h
  exact ⟨r.1, hr⟩

/-! ## The two lanes, a token at a time -/

namespace Durable

/-- Closed segments, and what is pending as one more. -/
def rows (d : Durable) : List (String × Option SpeakerId) :=
  d.segments ++ [(d.pending, d.speaker.map SpeakerId.mk)]

theorem heard_flush (d : Durable) : heard d.flush.segments = heard d.rows := by
  unfold flush
  split
  · next hb =>
      rw [rows, heard_append, heard_blank (isBlank_iff.mp hb), List.append_nil]
  · rfl

theorem flush_pending (d : Durable) : d.flush.pending = "" := by
  unfold flush
  split <;> rfl

/-- A token with text that completes no sentence is appended. -/
theorem step_eq {d : Durable} {t : SonioxToken} (hs : t.isSpecial = false)
    (he : endsSentence ((d.adoptSpeaker t).pending ++ t.text) = false) :
    d.step t = { d.adoptSpeaker t with pending := (d.adoptSpeaker t).pending ++ t.text } := by
  have hm : t.isEndMarker = false := by
    cases hm : t.isEndMarker with
    | false => rfl
    | true =>
        have htrim : trim t.text = TOKEN_END := by simpa [SonioxToken.isEndMarker] using hm
        simp [SonioxToken.isSpecial, htrim] at hs
  simp [step, appendFinal, hm, hs, he]

theorem adoptSpeaker_none {d : Durable} {t : SonioxToken} (h : t.normalizedSpeaker = none) :
    d.adoptSpeaker t = d := by
  simp only [adoptSpeaker, h]

theorem adoptSpeaker_same {d : Durable} {t : SonioxToken} {s : String}
    (h : t.normalizedSpeaker = some s) (hd : d.speaker = some s) : d.adoptSpeaker t = d := by
  simp [adoptSpeaker, h, hd]
  rw [← hd]

theorem adoptSpeaker_first {d : Durable} {t : SonioxToken} {s : String}
    (h : t.normalizedSpeaker = some s) (hd : d.speaker = none) :
    d.adoptSpeaker t = { d with speaker := some s } := by
  simp [adoptSpeaker, h, hd]

theorem adoptSpeaker_turn {d : Durable} {t : SonioxToken} {s s' : String}
    (h : t.normalizedSpeaker = some s) (hd : d.speaker = some s') (hne : s' ≠ s) :
    d.adoptSpeaker t = { d.flush with speaker := some s } := by
  simp [adoptSpeaker, h, hd, hne]

end Durable

theorem pushTail_nil (speaker : Option String) (t : SonioxToken) :
    Accumulator.pushTail ([], speaker) t =
      ([⟨t.normalizedSpeaker.or speaker, t.text⟩], t.normalizedSpeaker.or speaker) := rfl

/-! ## The lanes side by side -/

/-- The row of a run. -/
def Run.row (run : Run) : String × Option SpeakerId := (run.text, run.speaker.map SpeakerId.mk)

/-- Blank runs are not heard. -/
theorem heard_runs_filter (runs : List Run) :
    heard ((runs.filter fun run => !isBlank run.text).map Run.row) = heard (runs.map Run.row) := by
  induction runs with
  | nil => rfl
  | cons run runs ih =>
      rw [List.map_cons, heard_cons]
      cases hb : isBlank run.text with
      | true =>
          rw [List.filter_cons_of_neg (by simp [hb]), ih, Run.row, heard_blank (isBlank_iff.mp hb),
            List.nil_append]
      | false => rw [List.filter_cons_of_pos (by simp [hb]), List.map_cons, heard_cons, ih]

/-- The lanes have told the turns alike: the last run is what is pending, the runs before it are the
segments. -/
inductive Alike : Durable → List Run × Option String → Prop
  | fresh (speaker : Option String) : Alike ⟨[], "", speaker⟩ ([], speaker)
  | running {segments : List (String × Option SpeakerId)} {init : List Run} {pending text : String}
      {speaker : Option String} : heard (init.map Run.row) = heard segments →
      visible text = visible pending →
      Alike ⟨segments, pending, speaker⟩ (init ++ [⟨speaker, text⟩], speaker)

/-- A run that is closed shows text without a label, and every row of the durable lane has one. -/
structure Parted (d : Durable) (st : List Run × Option String) : Prop where
  labelled : d.speaker ≠ none
  speaker : st.2 = d.speaker
  segments : ∀ row ∈ d.segments, row.2 ≠ none
  head : ∃ init text, st.1 = init ++ [⟨d.speaker, text⟩] ∧
    ∃ run ∈ init, run.speaker = none ∧ visible run.text ≠ []

/-- The first run. -/
theorem Alike.first {pending text : String} (speaker : Option String)
    (h : visible text = visible pending) : Alike ⟨[], pending, speaker⟩ ([⟨speaker, text⟩], speaker) := by
  show Alike _ ([] ++ [⟨speaker, text⟩], speaker)
  exact .running rfl h

/-- The lanes at the beginning, on an accumulator. -/
theorem Alike.start (pending : String) (speaker : Option String) :
    Alike ⟨[], pending, speaker⟩
      (if pending.isEmpty then [] else [⟨speaker, pending⟩], speaker) := by
  cases h : pending.isEmpty with
  | true =>
      rw [String.isEmpty_iff] at h
      rw [h]
      exact .fresh speaker
  | false =>
      exact .first speaker rfl

theorem Alike.heard_eq {d : Durable} {st : List Run × Option String} (h : Alike d st) :
    heard (st.1.map Run.row) = heard d.rows := by
  cases h with
  | fresh speaker => rfl
  | running hinit htext =>
      rw [Durable.rows, List.map_append, heard_append, heard_append, hinit]
      exact congrArg _ (heard_congr htext _)

theorem Parted.heard_ne {d : Durable} {st : List Run × Option String} (h : Parted d st) :
    heard (st.1.map Run.row) ≠ heard d.rows := by
  obtain ⟨init, text, hst, run, hrun, hspeaker, htext⟩ := h.head
  intro heq
  have hmem : (visible run.text, none) ∈ heard d.rows := by
    rw [← heq]
    refine List.mem_filter.mpr ⟨?_, by simpa using htext⟩
    refine List.mem_map.mpr ⟨run.row, List.mem_map.mpr ⟨run, ?_, rfl⟩, ?_⟩
    · rw [hst]
      exact List.mem_append_left _ hrun
    · rw [Run.row, hspeaker]
      rfl
  obtain ⟨text', hrow⟩ := mem_heard hmem
  rcases List.mem_append.mp hrow with hseg | hpending
  · exact h.segments _ hseg rfl
  · have hspeaker : d.speaker.map SpeakerId.mk = none :=
      (congrArg Prod.snd (List.mem_singleton.mp hpending)).symm
    exact h.labelled (Option.map_eq_none_iff.mp hspeaker)

variable {d : Durable} {st : List Run × Option String} {t : SonioxToken} {ts : List SonioxToken}

/-- A token keeps the lanes alike, unless it brings the first label after text. -/
theorem Alike.step (h : Alike d st) (hs : t.isSpecial = false)
    (he : endsSentence ((d.adoptSpeaker t).pending ++ t.text) = false)
    (hhead : d.speaker = none → t.normalizedSpeaker ≠ none → visible d.pending = []) :
    Alike (d.step t) (Accumulator.pushTail st t) := by
  rw [Durable.step_eq hs he]
  cases hl : t.normalizedSpeaker with
  | none =>
      rw [Durable.adoptSpeaker_none hl]
      cases h with
      | fresh speaker =>
          rw [pushTail_nil, hl]
          exact .first _ (by simp)
      | running hinit htext =>
          rw [pushTail_inherits (by simp [inherits, hl])]
          exact .running hinit (by simp [htext])
  | some s =>
      cases h with
      | fresh speaker =>
          rw [pushTail_nil, hl]
          cases speaker with
          | none =>
              rw [Durable.adoptSpeaker_first hl rfl]
              exact .first _ (by simp)
          | some s' =>
              cases Decidable.em (s' = s) with
              | inl heq =>
                  subst heq
                  rw [Durable.adoptSpeaker_same hl rfl]
                  exact .first _ (by simp)
              | inr hne =>
                  have hflush : Durable.flush ⟨[], "", some s'⟩ = ⟨[], "", some s'⟩ := by
                    simp [Durable.flush]
                  rw [Durable.adoptSpeaker_turn hl rfl hne, hflush]
                  exact .first _ (by simp)
      | @running segments init pending text speaker hinit htext =>
          cases speaker with
          | none =>
              have hblank : visible pending = [] := hhead rfl (by rw [hl]; simp)
              rw [Durable.adoptSpeaker_first hl rfl,
                pushTail_turn (by simp [inherits, hl]), hl]
              refine .running ?_ (by simp [hblank])
              rw [List.map_append, heard_append, hinit]
              show heard segments ++ heard [(text, none)] = heard segments
              rw [heard_blank (htext.trans hblank), List.append_nil]
          | some s' =>
              cases Decidable.em (s' = s) with
              | inl heq =>
                  subst heq
                  rw [Durable.adoptSpeaker_same hl rfl,
                    pushTail_inherits (by simp [inherits, hl])]
                  exact .running hinit (by simp [htext])
              | inr hne =>
                  rw [Durable.adoptSpeaker_turn hl rfl hne,
                    pushTail_turn (by simpa [inherits, hl] using Ne.symm hne), hl]
                  refine .running ?_ (by simp [Durable.flush_pending])
                  rw [Durable.heard_flush, Durable.rows, List.map_append, heard_append, heard_append,
                    hinit]
                  exact congrArg _ (heard_congr htext _)

/-- The first label after text parts the lanes. -/
theorem Alike.part (h : Alike d st) (hs : t.isSpecial = false)
    (he : endsSentence ((d.adoptSpeaker t).pending ++ t.text) = false) (hd : d.speaker = none)
    (hsegs : d.segments = []) (hl : t.normalizedSpeaker ≠ none) (hp : visible d.pending ≠ []) :
    Parted (d.step t) (Accumulator.pushTail st t) := by
  rw [Durable.step_eq hs he]
  cases hn : t.normalizedSpeaker with
  | none => exact absurd hn hl
  | some s =>
      rw [Durable.adoptSpeaker_first hn hd]
      cases h with
      | fresh speaker => exact absurd visible_empty hp
      | @running segments init pending text speaker hinit htext =>
          have hd' : speaker = none := hd
          subst hd'
          have hsegs' : segments = [] := hsegs
          subst hsegs'
          rw [pushTail_turn (by simp [inherits, hn]), hn]
          refine ⟨by simp, rfl, by simp, init ++ [⟨none, text⟩], t.text, rfl, ?_⟩
          exact ⟨⟨none, text⟩, by simp, rfl, by rw [htext]; exact hp⟩

/-- One token more, whatever label it has: there is a speaker, and the closed runs stay closed. -/
theorem Parted.step (h : Parted d st) (hs : t.isSpecial = false)
    (he : endsSentence ((d.adoptSpeaker t).pending ++ t.text) = false) :
    Parted (d.step t) (Accumulator.pushTail st t) := by
  rw [Durable.step_eq hs he]
  obtain ⟨runs, speaker⟩ := st
  obtain ⟨init, text, hst, run, hrun, hnone, htext⟩ := h.head
  have hspeaker : speaker = d.speaker := h.speaker
  have hst' : runs = init ++ [⟨d.speaker, text⟩] := hst
  subst hspeaker hst'
  cases hl : t.normalizedSpeaker with
  | none =>
      rw [Durable.adoptSpeaker_none hl, pushTail_inherits (by simp [inherits, hl])]
      exact ⟨h.labelled, rfl, h.segments, init, _, rfl, run, hrun, hnone, htext⟩
  | some s =>
      cases hd : d.speaker with
      | none => exact absurd hd h.labelled
      | some s' =>
          cases Decidable.em (s' = s) with
          | inl heq =>
              subst heq
              rw [Durable.adoptSpeaker_same hl hd, pushTail_inherits (by simp [inherits, hl])]
              exact ⟨h.labelled, hd.symm, h.segments, init, _, by rw [hd], run, hrun, hnone, htext⟩
          | inr hne =>
              rw [Durable.adoptSpeaker_turn hl hd hne,
                pushTail_turn (by simpa [inherits, hl] using Ne.symm hne), hl]
              refine ⟨by simp, rfl, ?_, init ++ [⟨some s', text⟩], t.text, rfl, run,
                List.mem_append_left _ hrun, hnone, htext⟩
              intro row hrow
              unfold Durable.flush at hrow
              split at hrow
              · exact h.segments row hrow
              · rcases List.mem_append.mp hrow with hold | hnew
                · exact h.segments row hold
                · rw [List.mem_singleton.mp hnew, hd]
                  simp

/-! ## A list of tokens -/

theorem noSentence_nil : NoSentence d [] := by
  intro before u after heq
  simp at heq

theorem noSentence_cons_iff : NoSentence d (t :: ts) ↔
    endsSentence ((d.adoptSpeaker t).pending ++ t.text) = false ∧ NoSentence (d.step t) ts := by
  constructor
  · intro h
    constructor
    · have hfirst := h [] t ts rfl
      rw [List.foldl_nil] at hfirst
      exact hfirst
    · intro before u after heq
      have hlater := h (t :: before) u after (by rw [heq, List.cons_append])
      rw [List.foldl_cons] at hlater
      exact hlater
  · rintro ⟨hfirst, hlater⟩ before u after heq
    cases before with
    | nil =>
        obtain ⟨rfl, -⟩ := List.cons.inj heq
        rw [List.foldl_nil]
        exact hfirst
    | cons v before =>
        obtain ⟨rfl, hts⟩ := List.cons.inj heq
        rw [List.foldl_cons]
        exact hlater before u after hts

/-- Lanes that have parted stay so. -/
theorem Parted.run (h : Parted d st) (hs : ∀ t ∈ ts, t.isSpecial = false) (hno : NoSentence d ts) :
    Parted (ts.foldl Durable.step d) (ts.foldl Accumulator.pushTail st) := by
  induction ts generalizing d st with
  | nil => exact h
  | cons t ts ih =>
      obtain ⟨he, hno'⟩ := noSentence_cons_iff.mp hno
      have hstep := h.step (hs t List.mem_cons_self) he
      rw [List.foldl_cons, List.foldl_cons]
      exact ih hstep (fun u hu => hs u (List.mem_cons_of_mem _ hu)) hno'

theorem not_unlabelledHead_nil : ¬ UnlabelledHead d [] := by
  rintro ⟨-, before, t, after, heq, -⟩
  simp at heq

/-- At a label: it is the first after text, or there is a speaker from here on. -/
theorem unlabelledHead_label (hd : d.speaker = none) (hl : t.normalizedSpeaker ≠ none) :
    UnlabelledHead d (t :: ts) ↔ visible d.pending ≠ [] := by
  constructor
  · rintro ⟨-, before, u, after, heq, hbefore, -, hvis⟩
    cases before with
    | nil => simpa [textOf] using hvis
    | cons v before =>
        obtain ⟨rfl, -⟩ := List.cons.inj heq
        exact absurd (hbefore t List.mem_cons_self) hl
  · intro hvis
    exact ⟨hd, [], t, ts, rfl, by simp, hl, by simpa [textOf] using hvis⟩

/-- At a token without a label: its text is one more that the first label finds. -/
theorem unlabelledHead_text (hl : t.normalizedSpeaker = none) :
    UnlabelledHead d (t :: ts) ↔ UnlabelledHead { d with pending := d.pending ++ t.text } ts := by
  constructor
  · rintro ⟨hd, before, u, after, heq, hbefore, hu, hvis⟩
    cases before with
    | nil =>
        obtain ⟨rfl, -⟩ := List.cons.inj heq
        exact absurd hl hu
    | cons v before =>
        obtain ⟨rfl, rfl⟩ := List.cons.inj heq
        refine ⟨hd, before, u, after, rfl, fun w hw => hbefore w (List.mem_cons_of_mem _ hw), hu, ?_⟩
        rw [textOf_cons] at hvis
        simpa [List.append_assoc] using hvis
  · rintro ⟨hd, before, u, after, rfl, hbefore, hu, hvis⟩
    refine ⟨hd, t :: before, u, after, rfl, ?_, hu, ?_⟩
    · intro w hw
      rcases List.mem_cons.mp hw with rfl | hw
      · exact hl
      · exact hbefore w hw
    · rw [textOf_cons]
      simpa [List.append_assoc] using hvis

/-- Lanes that are alike stay so through all tokens, unless there is a first label after text. -/
theorem Alike.run (h : Alike d st) (hsegs : d.speaker = none → d.segments = [])
    (hs : ∀ t ∈ ts, t.isSpecial = false) (hno : NoSentence d ts) :
    heard ((ts.foldl Accumulator.pushTail st).1.map Run.row) = heard (ts.foldl Durable.step d).rows ↔
      ¬ UnlabelledHead d ts := by
  induction ts generalizing d st with
  | nil => exact iff_of_true h.heard_eq not_unlabelledHead_nil
  | cons t ts ih =>
      obtain ⟨he, hno'⟩ := noSentence_cons_iff.mp hno
      have ht := hs t List.mem_cons_self
      have hts : ∀ u ∈ ts, u.isSpecial = false := fun u hu => hs u (List.mem_cons_of_mem _ hu)
      have hstep := Durable.step_eq ht he
      rw [List.foldl_cons, List.foldl_cons]
      cases hl : t.normalizedSpeaker with
      | none =>
          rw [Durable.adoptSpeaker_none hl] at hstep
          rw [unlabelledHead_text hl, ← hstep]
          refine ih (h.step ht he fun _ hne => absurd hl hne) ?_ hts hno'
          rw [hstep]
          exact hsegs
      | some s =>
          have hne : t.normalizedSpeaker ≠ none := by
            rw [hl]
            simp
          have hspeaker : (d.step t).speaker = some s := by
            rw [hstep]
            simp [Durable.adoptSpeaker, hl]
          -- from here on there is a speaker
          have hrest : ¬ UnlabelledHead (d.step t) ts := by
            rintro ⟨hnone, -⟩
            rw [hspeaker] at hnone
            cases hnone
          have halike (hhead : d.speaker = none → t.normalizedSpeaker ≠ none → visible d.pending = []) :
              heard ((ts.foldl Accumulator.pushTail (Accumulator.pushTail st t)).1.map Run.row) =
                heard (ts.foldl Durable.step (d.step t)).rows := by
            refine (ih (h.step ht he hhead) ?_ hts hno').mpr hrest
            intro hnone
            rw [hspeaker] at hnone
            cases hnone
          cases hd : d.speaker with
          | some s' =>
              refine iff_of_true (halike fun hnone => ?_) ?_
              · rw [hd] at hnone
                cases hnone
              · rintro ⟨hnone, -⟩
                rw [hd] at hnone
                cases hnone
          | none =>
              rw [unlabelledHead_label hd hne, not_not]
              constructor
              · intro heq
                cases hp : visible d.pending with
                | nil => rfl
                | cons c cs =>
                    have hpart := h.part ht he hd (hsegs hd) hne (by rw [hp]; simp)
                    exact absurd heq (hpart.run hts hno').heard_ne
              · intro hp
                exact halike fun _ _ => hp

/-! ## The two ways in -/

theorem drafts_append (us vs : List TranscriptUpdate) : drafts (us ++ vs) = drafts us ++ drafts vs := by
  simp [drafts]

theorem drafts_retractions (ids : List ℕ) : drafts (ids.map retraction) = [] := by
  simp [drafts, retraction]

theorem drafts_updates {runs : List Run} {ids : List ℕ} (h : runs.length ≤ ids.length) :
    drafts (List.zipWith (fun run id => run.update id false) runs ids) = runs.map Run.row := by
  induction runs generalizing ids with
  | nil => rfl
  | cons run runs ih =>
      cases ids with
      | nil => simp at h
      | cons id ids =>
          have hlen : runs.length ≤ ids.length := by simpa using h
          rw [List.zipWith_cons_cons, List.map_cons, ← ih hlen]
          rfl

/-- Every open run is shown, with its speaker, and nothing else is. -/
theorem publishOpen_drafts {a : Accumulator} {runs : List Run} {ids : SegmentIds} {w : Work}
    (h : a.publishOpen runs ids = some w) : drafts w.out = runs.map Run.row := by
  have hs := Accumulator.showRuns_spec (w := ⟨a, ids, []⟩) (i := 0) (Nat.zero_le _) runs
  generalize hw : (runs.zipIdx 0).foldl Accumulator.showRun ⟨a, ids, []⟩ = shown at hs
  have hlen : runs.length ≤ shown.acc.openIds.length := by
    rw [hs.grows]
    omega
  simp only [Accumulator.publishOpen, hw, splitOff, if_pos hlen, Option.map_some,
    Option.some.injEq] at h
  subst h
  show drafts (shown.out ++ _) = _
  rw [drafts_append, drafts_retractions, List.append_nil, hs.out, List.nil_append, List.drop_zero]
  exact drafts_updates hlen

theorem provisional_withFinal (h : ∀ t ∈ ts, t.isSpecial = false) :
    Accumulator.provisional { tokens := ts.map (SonioxToken.withFinal false) } =
      ts.map (SonioxToken.withFinal false) := by
  refine List.filter_eq_self.mpr ?_
  intro u hu
  obtain ⟨t, ht, rfl⟩ := List.mem_map.mp hu
  have hspecial : (t.withFinal false).isSpecial = false := h t ht
  rw [hspecial]
  rfl

/-- Nothing is final in a provisional response: the open runs are shown, and that is all. -/
theorem ingest_provisional {a : Accumulator} {ids : SegmentIds} {w : Work}
    (hs : ∀ t ∈ ts, t.isSpecial = false)
    (h : a.ingest { tokens := ts.map (SonioxToken.withFinal false) } ids = some w) :
    heard (drafts w.out) = heard (((ts.foldl Accumulator.pushTail
      (if a.pending.isEmpty then [] else [⟨a.pendingSpeaker, a.pending⟩], a.pendingSpeaker)).1).map
        Run.row) := by
  have hfinals : (ts.map (SonioxToken.withFinal false)).filter SonioxToken.isFinal = [] := by
    refine List.filter_eq_nil_iff.mpr ?_
    intro u hu
    obtain ⟨t, -, rfl⟩ := List.mem_map.mp hu
    simp [SonioxToken.withFinal]
  simp only [Accumulator.ingest, hfinals, List.foldlM_nil] at h
  obtain ⟨p, hp, rfl⟩ : ∃ p, a.publishOpen (a.buildOpenRuns
      { tokens := ts.map (SonioxToken.withFinal false) }) ids = some p ∧ p = w := by
    cases hp : a.publishOpen (a.buildOpenRuns
      { tokens := ts.map (SonioxToken.withFinal false) }) ids with
    | none => simp [hp] at h
    | some p => exact ⟨p, rfl, by simpa [hp] using h⟩
  rw [publishOpen_drafts hp, Accumulator.buildOpenRuns, provisional_withFinal hs, List.foldl_map]
  exact heard_runs_filter _

/-- The volatile lane shows nothing but what is pending. -/
def NoTail (a : Accumulator) : Prop := a.openRuns = a.buildOpenRuns {}

instance (a : Accumulator) : Decidable (NoTail a) := inferInstanceAs (Decidable (_ = _))

/-- The durable lane an accumulator goes on with. -/
def Accumulator.lane (a : Accumulator) : Durable := ⟨[], a.pending, a.pendingSpeaker⟩

/-- Segments closed by a response, and the text it leaves pending. -/
def Work.settled (w : Work) : List (String × Option SpeakerId) :=
  finalTexts w.out ++ [(w.acc.pending, w.acc.pendingSpeaker.map SpeakerId.mk)]

/-- From any state the operations can lead to, the same tokens show the same turns as a hypothesis
and as final ones, if and only if there is no first label after text. -/
theorem turns_agree_iff (n₀ : SegmentIds) (ops : List Op) (s : Accumulator × SegmentIds)
    (us : List TranscriptUpdate) (hr : Mealy.run opStep (Accumulator.new, n₀) ops = some (s, us))
    (ts : List SonioxToken) (hs : ∀ t ∈ ts, t.isSpecial = false) (hno : NoSentence s.1.lane ts) :
    ∃ v f, s.1.ingest { tokens := ts.map (SonioxToken.withFinal false) } s.2 = some v ∧
      s.1.ingest { tokens := ts.map (SonioxToken.withFinal true) } s.2 = some f ∧
      (heard (drafts v.out) = heard f.settled ↔ ¬ UnlabelledHead s.1.lane ts) := by
  obtain ⟨s', us', hr', lost, h⟩ := op_run n₀ ops
  rw [hr] at hr'
  cases hr'
  obtain ⟨v, hv⟩ := Accumulator.ingest_spec h.aligned (Written.ordered h.written)
    { tokens := ts.map (SonioxToken.withFinal false) }
  obtain ⟨f, hf⟩ := Accumulator.ingest_spec h.aligned (Written.ordered h.written)
    { tokens := ts.map (SonioxToken.withFinal true) }
  refine ⟨v, f, hv.eq, hf.eq, ?_⟩
  have hfinals : (ts.map (SonioxToken.withFinal true)).filter SonioxToken.isFinal =
      ts.map (SonioxToken.withFinal true) := by
    refine List.filter_eq_self.mpr ?_
    intro u hu
    obtain ⟨t, -, rfl⟩ := List.mem_map.mp hu
    rfl
  have hdurable : f.durable = ts.foldl Durable.step s.1.lane := by
    rw [hf.durable, hfinals, List.foldl_map]
    rfl
  have hsettled : f.settled = (ts.foldl Durable.step s.1.lane).rows := by
    rw [← hdurable]
    rfl
  rw [ingest_provisional hs hv.eq, hsettled]
  exact (Alike.start s.1.pending s.1.pendingSpeaker).run (fun _ => rfl) hs hno

/-- Two turns and a token without a label, on text of the first speaker. -/
theorem turns_agree_labelled :
    ∃ v f, (Accumulator.new.ingest { tokens := [⟨"I say", false, some "1"⟩, ⟨" so", false, none⟩,
          ⟨" Yes", false, some "2"⟩] } 1) = some v ∧
      (Accumulator.new.ingest { tokens := [⟨"I say", true, some "1"⟩, ⟨" so", true, none⟩,
          ⟨" Yes", true, some "2"⟩] } 1) = some f ∧
      (heard (drafts v.out) = heard f.settled ↔ ¬ UnlabelledHead Accumulator.new.lane
        [⟨"I say", false, some "1"⟩, ⟨" so", false, none⟩, ⟨" Yes", false, some "2"⟩]) :=
  turns_agree_iff 1 [] (Accumulator.new, 1) [] rfl
    [⟨"I say", false, some "1"⟩, ⟨" so", false, none⟩, ⟨" Yes", false, some "2"⟩]
    (by decide +kernel) (by
      simp only [noSentence_cons_iff]
      exact ⟨by decide +kernel, by decide +kernel, by decide +kernel, noSentence_nil⟩)

/-- Text comes before the first label: shown as two runs, closed as one segment. -/
theorem turns_part_at_first_label :
    ¬ ∀ (n₀ : SegmentIds) (ops : List Op) (s : Accumulator × SegmentIds) (us : List TranscriptUpdate),
      Mealy.run opStep (Accumulator.new, n₀) ops = some (s, us) → NoTail s.1 →
      ∀ ts : List SonioxToken, (∀ t ∈ ts, t.isSpecial = false) → NoSentence s.1.lane ts →
      ∃ v f, s.1.ingest { tokens := ts.map (SonioxToken.withFinal false) } s.2 = some v ∧
        s.1.ingest { tokens := ts.map (SonioxToken.withFinal true) } s.2 = some f ∧
        heard (drafts v.out) = heard f.settled := by
  intro h
  obtain ⟨v, f, hv, hf, heq⟩ := h 1 [] (Accumulator.new, 1) [] rfl (by decide +kernel)
    [⟨"Hello", false, none⟩, ⟨" there", false, some "1"⟩] (by decide +kernel) (by
      simp only [noSentence_cons_iff]
      exact ⟨by decide +kernel, by decide +kernel, noSentence_nil⟩)
  have hshown : (Accumulator.new.ingest { tokens := [⟨"Hello", false, none⟩,
      ⟨" there", false, some "1"⟩] } 1).map (fun w => (heard (drafts w.out)).length) = some 2 := by
    decide +kernel
  have hclosed : (Accumulator.new.ingest { tokens := [⟨"Hello", true, none⟩,
      ⟨" there", true, some "1"⟩] } 1).map (fun w => (heard w.settled).length) = some 1 := by
    decide +kernel
  have hv' : (heard (drafts v.out)).length = 2 := by
    have hmap := congrArg (Option.map fun w => (heard (drafts w.out)).length) hv
    exact Option.some.inj (hmap.symm.trans hshown)
  have hf' : (heard f.settled).length = 1 := by
    have hmap := congrArg (Option.map fun w => (heard w.settled).length) hf
    exact Option.some.inj (hmap.symm.trans hclosed)
  rw [heq, hf'] at hv'
  cases hv'

end Larmindon.Soniox
