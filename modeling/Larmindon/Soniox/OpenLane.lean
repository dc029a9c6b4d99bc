/-
# `Soniox.OpenLane` — what the open lane shows, and what the client's filter hides

`build_open_runs` starts from the pending text and pushes the provisional tail
onto it token by token.  `foldl_pushTail` says what comes out: the pending text
with the tokens that inherit its speaker, then runs of the other tokens.

The client drops responses without tokens.  The accumulator takes every response
for the complete tail, one without tokens included, so the filter is seen when
such a response comes last and the tail before it showed something.
`filter_unobservable_iff` is the exact condition, `Unobservable`: the last
response bears tokens, or the last tail was `Unseen`.
-/
import Larmindon.Soniox.Client
import Larmindon.Soniox.Durable

namespace Larmindon.Soniox

open Journal Accumulator

/-! ## Texts of tokens -/

theorem foldl_text (ts : List SonioxToken) (s : String) :
    ts.foldl (fun s t => s ++ t.text) s = s ++ textOf ts := by
  induction ts using List.reverseRecOn with
  | nil => simp [textOf]
  | append_singleton ts t ih => rw [List.foldl_append, ih, textOf_snoc]; simp [String.append_assoc]

theorem textOf_cons (t : SonioxToken) (ts : List SonioxToken) :
    textOf (t :: ts) = t.text ++ textOf ts := by
  rw [textOf, List.foldl_cons, foldl_text]; simp

theorem textOf_eq_empty {ts : List SonioxToken} : textOf ts = "" ↔ ∀ t ∈ ts, t.text = "" := by
  induction ts with
  | nil => simp [textOf]
  | cons t ts ih => rw [textOf_cons, String.append_eq_empty_iff, ih]; simp

theorem isBlank_append {s t : String} : isBlank (s ++ t) = true ↔ isBlank s = true ∧ isBlank t = true := by
  simp [isBlank_iff]

theorem isBlank_textOf {ts : List SonioxToken} :
    isBlank (textOf ts) = true ↔ ∀ t ∈ ts, isBlank t.text = true := by
  induction ts with
  | nil => simp [textOf]
  | cons t ts ih => rw [textOf_cons, isBlank_append, ih]; simp

/-! ## The runs of a tail -/

/-- The token is attributed to `speaker` when it comes next after it. -/
def inherits (speaker : Option String) (t : SonioxToken) : Bool :=
  t.normalizedSpeaker.or speaker == speaker

theorem pushTail_inherits {speaker : Option String} {t : SonioxToken} (h : inherits speaker t = true)
    (init : List Run) (text : String) :
    pushTail (init ++ [⟨speaker, text⟩], speaker) t = (init ++ [⟨speaker, text ++ t.text⟩], speaker) := by
  have h' : t.normalizedSpeaker.or speaker = speaker := by simpa [inherits] using h
  simp [pushTail, h']

theorem pushTail_turn {speaker : Option String} {t : SonioxToken} (h : ¬ inherits speaker t = true)
    (init : List Run) (text : String) :
    pushTail (init ++ [⟨speaker, text⟩], speaker) t
      = ((init ++ [⟨speaker, text⟩]) ++ [⟨t.normalizedSpeaker.or speaker, t.text⟩],
          t.normalizedSpeaker.or speaker) := by
  have h' : speaker ≠ t.normalizedSpeaker.or speaker := fun he => h (by simp [inherits, ← he])
  simp [pushTail, h']

theorem forall_split {ts : List SonioxToken} {P : SonioxToken → Prop} (p : SonioxToken → Bool) :
    (∀ t ∈ ts, P t) ↔ (∀ t ∈ ts.takeWhile p, P t) ∧ ∀ t ∈ ts.dropWhile p, P t := by
  conv_lhs => rw [← List.takeWhile_append_dropWhile (p := p) (l := ts)]
  simp only [List.mem_append, or_imp, forall_and]

/-- Pushing a tail onto runs that end with a run of `speaker`: it takes what inherits that speaker,
and the rest makes runs of its own, which are all blank exactly when the rest is. -/
theorem foldl_pushTail (tail : List SonioxToken) (init : List Run) (speaker : Option String)
    (text : String) :
    ∃ rest, (tail.foldl pushTail (init ++ [⟨speaker, text⟩], speaker)).1
        = init ++ ⟨speaker, text ++ textOf (tail.takeWhile (inherits speaker))⟩ :: rest ∧
      ((∀ run ∈ rest, isBlank run.text = true) ↔
        ∀ t ∈ tail.dropWhile (inherits speaker), isBlank t.text = true) := by
  induction tail generalizing init speaker text with
  | nil => exact ⟨[], by simp [textOf], by simp⟩
  | cons t tail ih =>
      rw [List.foldl_cons]
      by_cases h : inherits speaker t = true
      · obtain ⟨rest, heq, hblank⟩ := ih init speaker (text ++ t.text)
        refine ⟨rest, ?_, ?_⟩
        · rw [pushTail_inherits h, heq, List.takeWhile_cons_of_pos h, textOf_cons, String.append_assoc]
        · rw [List.dropWhile_cons_of_pos h]; exact hblank
      · obtain ⟨rest, heq, hblank⟩ :=
          ih (init ++ [⟨speaker, text⟩]) (t.normalizedSpeaker.or speaker) t.text
        refine ⟨⟨t.normalizedSpeaker.or speaker,
          t.text ++ textOf (tail.takeWhile (inherits (t.normalizedSpeaker.or speaker)))⟩ :: rest, ?_, ?_⟩
        · rw [pushTail_turn h, heq, List.takeWhile_cons_of_neg h, List.append_assoc]
          simp [textOf]
        · rw [List.dropWhile_cons_of_neg h]
          simp only [List.mem_cons, forall_eq_or_imp, hblank, isBlank_append, isBlank_textOf]
          rw [and_assoc, ← forall_split]

/-- The text shown by runs. -/
def runsVisible (runs : List Run) : List Char := runs.flatMap fun run => visible run.text

theorem pushTail_visible (st : List Run × Option String) (t : SonioxToken) :
    runsVisible (pushTail st t).1 = runsVisible st.1 ++ visible t.text := by
  obtain ⟨runs, speaker⟩ := st
  induction runs using List.reverseRecOn with
  | nil => simp [pushTail, runsVisible]
  | append_singleton init last _ =>
      by_cases h : last.speaker = t.normalizedSpeaker.or speaker
      · simp [pushTail, h, runsVisible]
      · simp [pushTail, h, runsVisible]

theorem foldl_pushTail_visible (tail : List SonioxToken) (st : List Run × Option String) :
    runsVisible (tail.foldl pushTail st).1 = runsVisible st.1 ++ visible (textOf tail) := by
  induction tail generalizing st with
  | nil => simp [textOf]
  | cons t tail ih => rw [List.foldl_cons, ih, pushTail_visible, textOf_cons, visible_append,
      List.append_assoc]

theorem runsVisible_filter (runs : List Run) :
    runsVisible (runs.filter fun run => !isBlank run.text) = runsVisible runs := by
  induction runs with
  | nil => rfl
  | cons run runs ih =>
      cases hb : isBlank run.text with
      | true =>
          have hv : visible run.text = [] := isBlank_iff.mp hb
          rw [List.filter_cons_of_neg (by simp [hb]), ih]
          simp [runsVisible, hv]
      | false =>
          rw [List.filter_cons_of_pos (by simp [hb])]
          exact congrArg (visible run.text ++ ·) ih

/-- The open lane shows the pending text and the provisional tail. -/
theorem buildOpenRuns_visible (a : Accumulator) (r : SonioxResponse) :
    runsVisible (a.buildOpenRuns r) = visible a.pending ++ visible (textOf (provisional r)) := by
  rw [buildOpenRuns, runsVisible_filter, foldl_pushTail_visible]
  split
  · next h => rw [String.isEmpty_iff.mp h]; rfl
  · simp [runsVisible]

/-! ## A tail that shows nothing -/

/-- Provisional tokens that add nothing to an open lane begun from `pending`: none of them shows
anything, and what joins text that is shown is empty. -/
def Unseen (pending : String) (speaker : Option String) (tail : List SonioxToken) : Prop :=
  (∀ t ∈ tail, isBlank t.text = true) ∧
    (isBlank pending = false → ∀ t ∈ tail.takeWhile (inherits speaker), t.text = "")

theorem filter_blank_eq_nil {runs : List Run} :
    (runs.filter fun run => !isBlank run.text) = [] ↔ ∀ run ∈ runs, isBlank run.text = true := by
  simp [List.filter_eq_nil_iff]

/-- The runs of a tail pushed onto nothing are blank exactly when the tail is. -/
theorem foldl_pushTail_blank (tail : List SonioxToken) (speaker : Option String) :
    (∀ run ∈ (tail.foldl pushTail ([], speaker)).1, isBlank run.text = true) ↔
      ∀ t ∈ tail, isBlank t.text = true := by
  cases tail with
  | nil => simp
  | cons t tail =>
      have h₀ : pushTail ([], speaker) t
          = ([] ++ [⟨t.normalizedSpeaker.or speaker, t.text⟩], t.normalizedSpeaker.or speaker) := by
        simp [pushTail]
      obtain ⟨rest, heq, hblank⟩ := foldl_pushTail tail [] (t.normalizedSpeaker.or speaker) t.text
      rw [List.foldl_cons, h₀, heq]
      simp only [List.nil_append, List.mem_cons, forall_eq_or_imp, hblank, isBlank_append,
        isBlank_textOf]
      rw [and_assoc, ← forall_split]

/-- The open lane is what the pending text alone would make it exactly when the tail is unseen. -/
theorem buildOpenRuns_eq_iff (a : Accumulator) (r : SonioxResponse) :
    a.buildOpenRuns r = a.buildOpenRuns {} ↔ Unseen a.pending a.pendingSpeaker (provisional r) := by
  generalize htail : provisional r = tail
  have hnil : provisional {} = [] := rfl
  by_cases he : a.pending = ""
  · have hb : isBlank a.pending = true := by rw [he]; rfl
    simp only [buildOpenRuns, htail, hnil, he, Unseen]
    simp [foldl_pushTail_blank]
  · obtain ⟨rest, heq, hrest⟩ := foldl_pushTail tail [] a.pendingSpeaker a.pending
    rw [List.nil_append, List.nil_append] at heq
    have hne : a.pending.isEmpty = false := by simpa [String.isEmpty_iff] using he
    simp only [buildOpenRuns, htail, hnil, hne, Bool.false_eq_true, if_false, heq, List.foldl_nil]
    cases hb : isBlank a.pending with
    | true =>
        -- nothing pending shows: both lanes are empty when the whole tail is blank
        have hr : ([⟨a.pendingSpeaker, a.pending⟩] : List Run).filter (fun run => !isBlank run.text) = [] := by
          simp [hb]
        rw [hr, filter_blank_eq_nil]
        simp only [List.mem_cons, forall_eq_or_imp, hrest, isBlank_append, isBlank_textOf, hb,
          true_and, Unseen, Bool.true_eq_false, false_implies, and_true]
        rw [← forall_split]
    | false =>
        have hl : isBlank (a.pending ++ textOf (tail.takeWhile (inherits a.pendingSpeaker))) = false := by
          rw [← Bool.not_eq_true, isBlank_append]; simp [hb]
        have hr : ([⟨a.pendingSpeaker, a.pending⟩] : List Run).filter (fun run => !isBlank run.text)
            = [⟨a.pendingSpeaker, a.pending⟩] := by simp [hb]
        rw [hr, List.filter_cons_of_pos (by simp [hl]), List.cons.injEq, filter_blank_eq_nil, hrest]
        simp only [Run.mk.injEq, true_and, Unseen, hb, true_implies, String.append_eq_left_iff,
          textOf_eq_empty]
        constructor
        · rintro ⟨hlead, hdrop⟩
          have hblank : ∀ t ∈ tail.takeWhile (inherits a.pendingSpeaker), isBlank t.text = true :=
            fun t ht => by rw [hlead t ht]; rfl
          exact ⟨(forall_split _).mpr ⟨hblank, hdrop⟩, hlead⟩
        · rintro ⟨hall, hlead⟩
          exact ⟨hlead, ((forall_split _).mp hall).2⟩

/-! ## Dropping responses without tokens -/

theorem finalTokens_forward (rs : List SonioxResponse) :
    finalTokens (rs.flatMap forward) = finalTokens rs := by
  induction rs using List.reverseRecOn with
  | nil => rfl
  | append_singleton rs r ih =>
      rw [List.flatMap_append, List.flatMap_singleton, finalTokens_snoc, ← ih]
      by_cases h : r.tokens = []
      · simp [forward, h]
      · have hf : forward r = [r] := by simp [forward, h]
        rw [hf, finalTokens_snoc]

theorem lastResponse_forward {rs : List SonioxResponse} (h : (lastResponse rs).tokens ≠ []) :
    lastResponse (rs.flatMap forward) = lastResponse rs := by
  induction rs using List.reverseRecOn with
  | nil => exact absurd rfl h
  | append_singleton rs r _ =>
      rw [lastResponse_snoc] at h ⊢
      have hf : forward r = [r] := by simp [forward, h]
      rw [List.flatMap_append, List.flatMap_singleton, hf, lastResponse_snoc]

/-- The open lane reads the tokens of a response and nothing else of it. -/
theorem buildOpenRuns_tokens (a : Accumulator) {r r' : SonioxResponse} (h : r.tokens = r'.tokens) :
    a.buildOpenRuns r = a.buildOpenRuns r' := by
  simp only [buildOpenRuns, provisional, h]

theorem finalTexts_settles {runs : List Run} {ids : List ℕ} (h : runs.length = ids.length) :
    finalTexts (List.zipWith (fun run id => run.update id true) runs ids)
      = (runs.filter fun run => !run.text.isEmpty).map fun run =>
          (run.text, run.speaker.map SpeakerId.mk) := by
  induction runs generalizing ids with
  | nil => rfl
  | cons run runs ih => cases ids with
    | nil => simp at h
    | cons id ids =>
        have hlen : runs.length = ids.length := by simpa using h
        have hih := ih hlen
        simp only [finalTexts] at hih ⊢
        rw [List.zipWith_cons_cons, List.filter_cons, List.filter_cons]
        cases he : run.text.isEmpty with
        | true => simpa [Run.update, he] using hih
        | false => simpa [Run.update, he] using hih

/-- The texts closed by a run of `ingest` and by a `finish` after it. -/
def closedTexts (s : Accumulator × SegmentIds) (us : List TranscriptUpdate) : List String :=
  (finalTexts (us ++ (s.1.finish s.2).out)).map Prod.fst

theorem closedTexts_eq {s : Accumulator × SegmentIds} (h : s.1.Aligned) (us : List TranscriptUpdate) :
    closedTexts s us = (finalTexts us).map Prod.fst ++
      (s.1.openRuns.filter fun run => !run.text.isEmpty).map Run.text := by
  rw [closedTexts, finalTexts_append, List.map_append, finish_eq h, finalTexts_settles h,
    List.map_map]
  rfl

/-- Whether the accumulator is given every response or those the client forwards, the open runs and
the texts closed by a `finish` are the same, and the lane shows the tail of the last response. -/
def FilterUnobservable (n n' : SegmentIds) (rs : List SonioxResponse) : Prop :=
  ∃ s us s' us', Mealy.run ingestStep (Accumulator.new, n) rs = some (s, us) ∧
    Mealy.run ingestStep (Accumulator.new, n') (rs.flatMap forward) = some (s', us') ∧
    s.1.openRuns = s'.1.openRuns ∧
    (∀ text, text ∈ closedTexts s us ↔ text ∈ closedTexts s' us') ∧
    s'.1.openRuns = s'.1.buildOpenRuns (lastResponse rs)

/-- The last response bears tokens, or the last tail that did showed nothing over the text that was
pending. -/
def Unobservable (rs : List SonioxResponse) : Prop :=
  (lastResponse rs).tokens ≠ [] ∨
    let durable := (finalTokens rs).foldl Durable.step Durable.new
    Unseen durable.pending durable.speaker (provisional (lastResponse (rs.flatMap forward)))

/-- **When the client's filter cannot be seen**, exactly. -/
theorem filter_unobservable_iff (n n' : SegmentIds) (rs : List SonioxResponse) :
    FilterUnobservable n n' rs ↔ Unobservable rs := by
  obtain ⟨s, us, hr, hi⟩ := ingest_run n rs
  obtain ⟨s', us', hr', hi'⟩ := ingest_run n' (rs.flatMap forward)
  have hd : durableOf s.1 us = durableOf s'.1 us' := by
    rw [hi.durable, hi'.durable, finalTokens_forward]
  have hp : s.1.pending = s'.1.pending := congrArg Durable.pending hd
  have hs : s.1.pendingSpeaker = s'.1.pendingSpeaker := congrArg Durable.speaker hd
  -- the open runs decide: the closed texts follow from them and the durable lane
  have hruns : FilterUnobservable n n' rs ↔ s.1.openRuns = s'.1.openRuns := by
    constructor
    · rintro ⟨t, vs, t', vs', hrun, hrun', heq, -, -⟩
      rw [hr] at hrun
      rw [hr'] at hrun'
      cases hrun
      cases hrun'
      exact heq
    · intro heq
      refine ⟨s, us, s', us', hr, hr', heq, ?_, ?_⟩
      · intro text
        rw [closedTexts_eq hi.aligned, closedTexts_eq hi'.aligned, heq,
          show finalTexts us = finalTexts us' from congrArg Durable.segments hd]
      · rw [← heq, hi.runs]
        exact buildOpenRuns_congr hp hs _
  have hdur : (finalTokens rs).foldl Durable.step Durable.new = durableOf s.1 us := hi.durable.symm
  rw [hruns, Unobservable, hdur]
  show _ ↔ _ ∨ Unseen s.1.pending s.1.pendingSpeaker _
  by_cases h : (lastResponse rs).tokens = []
  · have hnone : (lastResponse rs).tokens = ({} : SonioxResponse).tokens := h
    have hempty : s.1.openRuns = s'.1.buildOpenRuns {} := by
      rw [hi.runs, buildOpenRuns_tokens s.1 hnone]
      exact buildOpenRuns_congr hp hs _
    rw [hempty, hi'.runs, eq_comm, buildOpenRuns_eq_iff, hp, hs]
    simp [h]
  · have hlast : s.1.openRuns = s'.1.openRuns := by
      rw [hi.runs, hi'.runs, lastResponse_forward h]
      exact buildOpenRuns_congr hp hs _
    exact ⟨fun _ => .inl h, fun _ => hlast⟩

/-- A guess followed by a response without tokens: the accumulator would take it back, the client
keeps it on screen. -/
theorem filter_observed :
    ¬ ∀ rs : List SonioxResponse, (∀ r ∈ rs, r.error = none) → FilterUnobservable 1 1 rs := by
  intro h
  obtain ⟨s, us, s', us', hr, hr', heq, -⟩ :=
    h [{ tokens := [⟨"hello", false, none⟩] }, {}] (by decide)
  have hall : (Mealy.run ingestStep (Accumulator.new, 1)
      [{ tokens := [⟨"hello", false, none⟩] }, {}]).map (fun r => r.1.1.openRuns) = some [] := by
    decide +kernel
  have hfwd : (Mealy.run ingestStep (Accumulator.new, 1)
      ([{ tokens := [⟨"hello", false, none⟩] }, {}].flatMap forward)).map (fun r => r.1.1.openRuns)
      = some [⟨none, "hello"⟩] := by
    decide +kernel
  rw [hr, Option.map_some, Option.some.injEq] at hall
  rw [hr', Option.map_some, Option.some.injEq, ← heq, hall] at hfwd
  cases hfwd

end Larmindon.Soniox
