/-
# `Soniox.Segments` — a segment is made on one connection

The messages reach the accumulator through two loops: `fold`, called by
`process` and `poll`, and the loop of `end_session`, which reads on until the
last word or until it has waited long enough.  Both close what is open at a
`Reconnecting`, so between two closings the accumulator has read responses of
one epoch only, and `Epoch` says what it made of them.  `Heard` is that for the
updates of all epochs: the text of a final one is made of tokens of one epoch
(`Voiced`), whichever of `flush`, `ingest` and `finish` has emitted it.

An epoch of the messages is a group of `Messages`, and so it was received on one
connection.
-/
import Larmindon.Soniox.Messages
import Larmindon.Soniox.Transcript

namespace Larmindon.Soniox

/-! ## `end_session` -/

/-- The loop body of `end_session`; the loop breaks on the last two. -/
def endMessage : Mealy.Step (SonioxBackend × SegmentIds) Inbound TranscriptUpdate
  | (b, ids), .response r =>
      (b.accumulator.ingest r ids).map fun w => (({ b with accumulator := w.acc }, w.ids), w.out)
  | (b, ids), .reconnecting _ =>
      let w := b.accumulator.finish ids
      some (({ b with accumulator := w.acc.reset }, w.ids), w.out)
  | s, .finished | s, .fatal _ => some (s, [])

/-- `end_session`, given what arrives before it stops waiting.  The frame it sends first, the
`finish` and the drop of the client are moves of `Upload`. -/
def SonioxBackend.endSession (b : SonioxBackend) (received : List Inbound) (ids : SegmentIds) :
    Option ((SonioxBackend × SegmentIds) × List TranscriptUpdate) :=
  match b.client with
  | none =>
      let w := b.accumulator.finish ids
      some (({ b with accumulator := w.acc }, w.ids), w.out)
  | some _ => do
      let b := { b with client := none, staged := [], stagedSamples := 0 }
      let (s, updates) ← Mealy.run endMessage (b, ids) (received.takeWhile fun m => !m.terminal)
      let w := s.1.accumulator.finish s.2
      some (({ s.1 with
        accumulator := w.acc.reset
        lastSpeechAt := none
        pendingTransient := none
        pendingFatal := none }, w.ids), updates ++ w.out)

/-! ## Texts made of tokens -/

/-- The tokens of some responses. -/
def tokensOf (rs : List SonioxResponse) : List SonioxToken := rs.flatMap SonioxResponse.tokens

/-- The text is made of tokens of `ts`. -/
def Voiced (ts : List SonioxToken) (text : String) : Prop :=
  ∃ made, text = textOf made ∧ ∀ t ∈ made, t ∈ ts

theorem Voiced.empty (ts : List SonioxToken) : Voiced ts "" := ⟨[], rfl, by simp⟩

theorem Voiced.snoc {ts : List SonioxToken} {text : String} (h : Voiced ts text) {t : SonioxToken}
    (ht : t ∈ ts) : Voiced ts (text ++ t.text) := by
  obtain ⟨made, rfl, hmem⟩ := h
  refine ⟨made ++ [t], (textOf_snoc made t).symm, ?_⟩
  intro u hu
  rcases List.mem_append.mp hu with hu | hu
  · exact hmem u hu
  · rw [List.mem_singleton.mp hu]
    exact ht

theorem Voiced.token {ts : List SonioxToken} {t : SonioxToken} (ht : t ∈ ts) : Voiced ts t.text :=
  ⟨[t], by simp [textOf], by simpa using ht⟩

/-! ## What an epoch shows -/

theorem mem_tokensOf_of_final {rs : List SonioxResponse} {t : SonioxToken} (h : t ∈ finalTokens rs) :
    t ∈ tokensOf rs := by
  obtain ⟨r, hr, ht⟩ := List.mem_flatMap.mp h
  exact List.mem_flatMap.mpr ⟨r, hr, List.mem_of_mem_filter ht⟩

theorem mem_tokensOf_of_provisional {rs : List SonioxResponse} {t : SonioxToken}
    (h : t ∈ Accumulator.provisional (lastResponse rs)) : t ∈ tokensOf rs := by
  cases rs using List.reverseRecOn with
  | nil => simp [lastResponse, Accumulator.provisional] at h
  | append_singleton rs r =>
      rw [lastResponse_snoc] at h
      exact List.mem_flatMap.mpr ⟨r, by simp, List.mem_of_mem_filter h⟩

namespace Sourced

variable {d : Durable} {ts rest : List SonioxToken} {groups : List TokenGroup}

theorem group_mem (h : Sourced d ts groups rest) {g : TokenGroup} (hg : g ∈ groups) {t : SonioxToken}
    (ht : t ∈ g.tokens) : t ∈ ts := by
  have hmem : t ∈ groups.flatMap TokenGroup.tokens ++ rest :=
    List.mem_append_left _ (List.mem_flatMap.mpr ⟨g, hg, ht⟩)
  rw [h.parts] at hmem
  exact List.mem_of_mem_filter hmem

theorem rest_mem (h : Sourced d ts groups rest) {t : SonioxToken} (ht : t ∈ rest) : t ∈ ts := by
  have hmem : t ∈ groups.flatMap TokenGroup.tokens ++ rest := List.mem_append_right _ ht
  rw [h.parts] at hmem
  exact List.mem_of_mem_filter hmem

end Sourced

theorem pushTail_voiced {ts : List SonioxToken} {st : List Run × Option String} {t : SonioxToken}
    (h : ∀ run ∈ st.1, Voiced ts run.text) (ht : t ∈ ts) :
    ∀ run ∈ (Accumulator.pushTail st t).1, Voiced ts run.text := by
  obtain ⟨runs, speaker⟩ := st
  have fresh : ∀ run ∈ runs ++ [⟨t.normalizedSpeaker.or speaker, t.text⟩], Voiced ts run.text := by
    intro run hrun
    rcases List.mem_append.mp hrun with hrun | hrun
    · exact h run hrun
    · rw [List.mem_singleton.mp hrun]
      exact .token ht
  cases runs using List.reverseRecOn with
  | nil => simpa [Accumulator.pushTail] using fresh
  | append_singleton init last =>
      rcases Classical.em (last.speaker = t.normalizedSpeaker.or speaker) with hs | hs
      · simp only [Accumulator.pushTail, List.getLast?_concat, if_pos hs, List.dropLast_concat]
        intro run hrun
        rcases List.mem_append.mp hrun with hrun | hrun
        · exact h run (List.mem_append_left _ hrun)
        · rw [List.mem_singleton.mp hrun]
          exact (h last (by simp)).snoc ht
      · simpa only [Accumulator.pushTail, List.getLast?_concat, if_neg hs] using fresh

namespace Epoch

variable {rs : List SonioxResponse} {a : Accumulator} {us : List TranscriptUpdate}

/-- A final update of the epoch is made of its tokens. -/
theorem voiced (h : Epoch rs a us) {u : TranscriptUpdate} (hu : u ∈ us) (hf : u.isFinal = true) :
    Voiced (tokensOf rs) u.text := by
  obtain ⟨groups, rest, hs⟩ := durable_sourced (finalTokens rs)
  rw [← h.durable] at hs
  cases he : u.text.isEmpty with
  | true =>
      rw [String.isEmpty_iff.mp he]
      exact .empty _
  | false =>
      have hmem : (u.text, u.speaker) ∈ finalTexts us :=
        List.mem_map.mpr ⟨u, List.mem_filter.mpr ⟨hu, by simp [hf, he]⟩, rfl⟩
      have hseg : (u.text, u.speaker) ∈ segmentsOf groups := hs.segments ▸ hmem
      obtain ⟨g, hg, heq⟩ := List.mem_map.mp hseg
      rw [← (Prod.mk.inj heq).1]
      exact ⟨g.tokens, rfl, fun t ht =>
        mem_tokensOf_of_final (hs.group_mem (List.mem_of_mem_filter hg) ht)⟩

/-- So is a run that is open. -/
theorem runs_voiced (h : Epoch rs a us) : ∀ run ∈ a.openRuns, Voiced (tokensOf rs) run.text := by
  obtain ⟨groups, rest, hs⟩ := durable_sourced (finalTokens rs)
  rw [← h.durable] at hs
  have hpending : Voiced (tokensOf rs) a.pending :=
    ⟨rest, hs.pending, fun t ht => mem_tokensOf_of_final (hs.rest_mem ht)⟩
  have hfold : ∀ (tail : List SonioxToken) (st : List Run × Option String),
      (∀ t ∈ tail, t ∈ tokensOf rs) → (∀ run ∈ st.1, Voiced (tokensOf rs) run.text) →
      ∀ run ∈ (tail.foldl Accumulator.pushTail st).1, Voiced (tokensOf rs) run.text := by
    intro tail
    induction tail with
    | nil => exact fun st _ hst => hst
    | cons t tail ih =>
        intro st htail hst
        exact ih _ (fun u hu => htail u (List.mem_cons_of_mem _ hu))
          (pushTail_voiced hst (htail t List.mem_cons_self))
  rw [h.runs]
  intro run hrun
  refine hfold _ _ (fun t => mem_tokensOf_of_provisional) ?_ run (List.mem_of_mem_filter hrun)
  intro run hrun
  simp only at hrun
  split at hrun
  · cases hrun
  · rw [List.mem_singleton.mp hrun]
    exact hpending

end Epoch

/-! ## What the two loops emit -/

/-- What reading `ms` leaves: every final update is made of tokens of one epoch; the epochs closed
account for those before, and the one in progress for those during it. -/
structure Heard (n₀ : SegmentIds) (ms : List Inbound) (s : Accumulator × SegmentIds)
    (us : List TranscriptUpdate) : Prop where
  screen : Screen n₀ s us
  epochs : ∃ before during, us = before ++ during ∧
    (∀ u ∈ before, u.isFinal = true →
      ∃ rs ∈ (ms.foldl pushMessage ([], [])).1, Voiced (tokensOf rs) u.text) ∧
    Epoch (ms.foldl pushMessage ([], [])).2 s.1 during

namespace Heard

variable {n₀ ids : SegmentIds} {ms : List Inbound} {a : Accumulator} {us : List TranscriptUpdate}

theorem new (n₀ : SegmentIds) : Heard n₀ [] (Accumulator.new, n₀) [] where
  screen := screen_new n₀
  epochs := ⟨[], [], rfl, by simp, epoch_new⟩

theorem response (h : Heard n₀ ms (a, ids) us) {r : SonioxResponse} {w : Work}
    (hw : Accumulator.Ingested a r ids w) (hscreen : Screen n₀ (w.acc, w.ids) (us ++ w.out)) :
    Heard n₀ (ms ++ [.response r]) (w.acc, w.ids) (us ++ w.out) := by
  obtain ⟨before, during, rfl, hbefore, hduring⟩ := h.epochs
  refine ⟨hscreen, before, during ++ w.out, by rw [List.append_assoc], ?_, ?_⟩
  · rw [List.foldl_append]
    exact hbefore
  · rw [List.foldl_append]
    exact hduring.ingest hw

/-- What `finish` closes is made of tokens of the epoch in progress. -/
theorem finish_voiced (h : Heard n₀ ms (a, ids) us) :
    ∀ u ∈ (a.finish ids).out, Voiced (tokensOf (ms.foldl pushMessage ([], [])).2) u.text := by
  obtain ⟨before, during, rfl, -, hduring⟩ := h.epochs
  rw [Accumulator.finish_eq h.screen.aligned]
  intro u hu
  rw [← List.map_uncurry_zip_eq_zipWith] at hu
  obtain ⟨⟨run, id⟩, hmem, rfl⟩ := List.mem_map.mp hu
  exact hduring.runs_voiced run (List.of_mem_zip hmem).1

/-- All final updates so far, and those `finish` would add. -/
theorem voiced (h : Heard n₀ ms (a, ids) us) :
    ∀ u ∈ us ++ (a.finish ids).out, u.isFinal = true →
      ∃ rs ∈ Soniox.epochs ms, Voiced (tokensOf rs) u.text := by
  have hfinish := h.finish_voiced
  obtain ⟨before, during, rfl, hbefore, hduring⟩ := h.epochs
  intro u hu hf
  rcases List.mem_append.mp hu with hu | hu
  · rcases List.mem_append.mp hu with hu | hu
    · obtain ⟨rs, hrs, hv⟩ := hbefore u hu hf
      exact ⟨rs, List.mem_append_left _ hrs, hv⟩
    · exact ⟨_, List.mem_append_right _ List.mem_cons_self, hduring.voiced hu hf⟩
  · exact ⟨_, List.mem_append_right _ List.mem_cons_self, hfinish u hu⟩

theorem close (h : Heard n₀ ms (a, ids) us) {m : Inbound} (hm : m.closes = true) :
    Heard n₀ (ms ++ [m]) ((a.finish ids).acc.reset, (a.finish ids).ids) (us ++ (a.finish ids).out) := by
  have hpush : (ms ++ [m]).foldl pushMessage ([], [])
      = ((ms.foldl pushMessage ([], [])).1 ++ [(ms.foldl pushMessage ([], [])).2], []) := by
    rw [List.foldl_append]
    cases m <;> first | rfl | cases hm
  refine ⟨h.screen.finish, us ++ (a.finish ids).out, [], (List.append_nil _).symm, ?_, ?_⟩
  · rw [hpush]
    exact h.voiced
  · rw [hpush]
    exact epoch_new

theorem pass (h : Heard n₀ ms (a, ids) us) : Heard n₀ (ms ++ [.finished]) (a, ids) us := by
  refine ⟨h.screen, ?_⟩
  rw [List.foldl_append]
  exact h.epochs

/-- One message read by `fold`. -/
theorem fold {b : SonioxBackend} (h : Heard n₀ ms (b.accumulator, ids) us) (now : Instant)
    (m : Inbound) :
    ∃ b' ids' vs, SonioxBackend.foldMessage (b, ids) (now, m) = some ((b', ids'), vs) ∧
      b'.client = b.client ∧ Heard n₀ (ms ++ [m]) (b'.accumulator, ids') (us ++ vs) := by
  obtain ⟨b', ids', vs, hf, hm, hscreen⟩ := foldMessage_spec h.screen now m
  refine ⟨b', ids', vs, hf, ?_⟩
  cases hm with
  | response hw ha hc _ =>
      rw [ha] at hscreen ⊢
      exact ⟨hc, h.response hw hscreen⟩
  | finished => exact ⟨rfl, by rw [List.append_nil]; exact h.pass⟩
  | closes hm ha hc _ =>
      rw [ha]
      exact ⟨hc, h.close hm⟩

/-- One message read by `end_session`. -/
theorem endMessage {b : SonioxBackend} (h : Heard n₀ ms (b.accumulator, ids) us) {m : Inbound}
    (hm : m.terminal = false) :
    ∃ b' ids' vs, Soniox.endMessage (b, ids) m = some ((b', ids'), vs) ∧
      Heard n₀ (ms ++ [m]) (b'.accumulator, ids') (us ++ vs) := by
  cases m with
  | response r =>
      obtain ⟨w, hw, hscreen⟩ := h.screen.ingest_spec r
      refine ⟨{ b with accumulator := w.acc }, w.ids, w.out, ?_, h.response hw hscreen⟩
      simp only [Soniox.endMessage, hw.eq]
      rfl
  | reconnecting reason => exact ⟨_, _, _, rfl, h.close rfl⟩
  | finished => cases hm
  | fatal message => cases hm

end Heard

theorem fold_heard (b : SonioxBackend) (n₀ : SegmentIds) (ms : List (Instant × Inbound)) :
    ∃ s us, b.beginSession.fold ms n₀ = some (s, us) ∧ s.1.client ≠ none ∧
      Heard n₀ (ms.map Prod.snd) (s.1.accumulator, s.2) us := by
  apply Mealy.run_total (P := fun (ms : List (Instant × Inbound)) (s : SonioxBackend × SegmentIds) us =>
    s.1.client ≠ none ∧ Heard n₀ (ms.map Prod.snd) (s.1.accumulator, s.2) us)
  · rintro ms ⟨b, ids⟩ us ⟨now, m⟩ ⟨hc, h⟩
    obtain ⟨b', ids', vs, hf, hc', h'⟩ := h.fold now m
    exact ⟨(b', ids'), vs, hf, by rw [hc']; exact hc, by simpa using h'⟩
  · exact ⟨by simp [SonioxBackend.beginSession], Heard.new n₀⟩

theorem end_heard {b : SonioxBackend} {n₀ ids : SegmentIds} {ms received : List Inbound}
    {us : List TranscriptUpdate} (h : Heard n₀ ms (b.accumulator, ids) us)
    (hr : ∀ m ∈ received, m.terminal = false) :
    ∃ s vs, Mealy.run endMessage (b, ids) received = some (s, vs) ∧
      Heard n₀ (ms ++ received) (s.1.accumulator, s.2) (us ++ vs) := by
  refine Mealy.run_within (G := fun ms => ∀ m ∈ ms, Inbound.terminal m = false)
    (P := fun read (s : SonioxBackend × SegmentIds) vs =>
      Heard n₀ (ms ++ read) (s.1.accumulator, s.2) (us ++ vs)) ?_ ?_ (by simpa using h) received hr
  · intro xs ys hxy m hm
    exact hxy m (List.mem_append_left _ hm)
  · rintro read ⟨b, ids⟩ vs m hp hg
    obtain ⟨b', ids', ws, he, h'⟩ := hp.endMessage (hg m (by simp))
    exact ⟨(b', ids'), ws, he, by simpa using h'⟩

/-- What is closed at the end of a session is added to what its messages gave. -/
theorem SonioxBackend.endSession_run {b : SonioxBackend} {ids : SegmentIds} {received : List Inbound}
    (hc : b.client ≠ none) {s : SonioxBackend × SegmentIds} {us : List TranscriptUpdate}
    (hrun : Mealy.run endMessage ({ b with client := none, staged := [], stagedSamples := 0 }, ids)
      (received.takeWhile fun m => !m.terminal) = some (s, us)) :
    ∃ s', b.endSession received ids = some (s', us ++ (s.1.accumulator.finish s.2).out) := by
  obtain ⟨client, hclient⟩ := Option.ne_none_iff_exists'.mp hc
  refine ⟨({ s.1 with
    accumulator := (s.1.accumulator.finish s.2).acc.reset
    lastSpeechAt := none
    pendingTransient := none
    pendingFatal := none }, (s.1.accumulator.finish s.2).ids), ?_⟩
  simp only [SonioxBackend.endSession, hclient, hrun]
  rfl

/-- `end_session` never panics, and whatever it and the folds before it have closed is made of the
tokens of one epoch. -/
theorem endSession_voiced {b : SonioxBackend} {n₀ ids : SegmentIds} {ms : List Inbound}
    {us : List TranscriptUpdate} (h : Heard n₀ ms (b.accumulator, ids) us) (hc : b.client ≠ none)
    (received : List Inbound) :
    ∃ s vs, b.endSession received ids = some (s, vs) ∧ ∀ u ∈ us ++ vs, u.isFinal = true →
      ∃ rs ∈ epochs (ms ++ received.takeWhile fun m => !m.terminal), Voiced (tokensOf rs) u.text := by
  have h' : Heard n₀ ms
      ({ b with client := none, staged := [], stagedSamples := 0 }.accumulator, ids) us := h
  have hread : ∀ m ∈ received.takeWhile fun m => !m.terminal, m.terminal = false := by
    intro m hm
    simpa using List.mem_takeWhile_imp hm
  obtain ⟨s, vs, hrun, hheard⟩ := end_heard h' hread
  obtain ⟨s', hs'⟩ := SonioxBackend.endSession_run hc hrun
  refine ⟨s', _, hs', ?_⟩
  rw [← List.append_assoc]
  exact hheard.voiced

/-! ## Epochs and connections -/

/-- One message more only lengthens an epoch, or adds one. -/
theorem epochs_snoc (ms : List Inbound) (m : Inbound) :
    ∀ rs ∈ epochs ms, ∃ rs' ∈ epochs (ms ++ [m]), rs <+: rs' := by
  intro rs hrs
  simp only [epochs, List.foldl_append, List.foldl_cons, List.foldl_nil] at hrs ⊢
  generalize ms.foldl pushMessage ([], []) = e at hrs ⊢
  cases m with
  | response r =>
      rcases List.mem_append.mp hrs with hrs | hrs
      · exact ⟨rs, List.mem_append_left _ hrs, List.prefix_rfl⟩
      · rw [List.mem_singleton.mp hrs]
        exact ⟨e.2 ++ [r], List.mem_append_right _ List.mem_cons_self, List.prefix_append _ _⟩
  | finished => exact ⟨rs, hrs, List.prefix_rfl⟩
  | reconnecting | fatal => exact ⟨rs, List.mem_append_left _ hrs, List.prefix_rfl⟩

theorem epochs_append (ms ms' : List Inbound) :
    ∀ rs ∈ epochs ms, ∃ rs' ∈ epochs (ms ++ ms'), rs <+: rs' := by
  induction ms' using List.reverseRecOn with
  | nil => exact fun rs hrs => ⟨rs, by simpa using hrs, List.prefix_rfl⟩
  | append_singleton ms' m ih =>
      intro rs hrs
      obtain ⟨rs₁, h₁, hp₁⟩ := ih rs hrs
      obtain ⟨rs₂, h₂, hp₂⟩ := epochs_snoc _ m rs₁ h₁
      exact ⟨rs₂, by rwa [← List.append_assoc], hp₁.trans hp₂⟩

theorem foldl_pushMessage_responses (e : List (List SonioxResponse) × List SonioxResponse)
    (rs : List SonioxResponse) : (rs.map Inbound.response).foldl pushMessage e = (e.1, e.2 ++ rs) := by
  induction rs generalizing e with
  | nil => simp
  | cons r rs ih => simp [pushMessage, ih]

theorem foldl_pushMessage_groups (done : List (List SonioxResponse))
    (groups : List (List SonioxResponse × String)) :
    (ofGroups groups).foldl pushMessage (done, []) = (done ++ groups.map Prod.fst, []) := by
  induction groups generalizing done with
  | nil => simp
  | cons g groups ih =>
      have hcons : ofGroups (g :: groups)
          = g.1.map Inbound.response ++ .reconnecting g.2 :: ofGroups groups := by simp [ofGroups]
      rw [hcons, List.foldl_append, foldl_pushMessage_responses, List.foldl_cons]
      show (ofGroups groups).foldl pushMessage (done ++ [[] ++ g.1], []) = _
      rw [ih]
      simp

/-- The epochs of what a task says are its groups and the responses after them. -/
theorem Framed.epochs {acts : List Act} {t : Task} {groups : List (List SonioxResponse × String)}
    {rs : List SonioxResponse} {last : List Inbound} (h : Framed acts t groups rs last)
    (hl : LastWord last) :
    ∀ e ∈ Soniox.epochs (messages acts), e ∈ groups.map Prod.fst ∨ e = rs ∨ e = [] := by
  rw [h.told, Soniox.epochs, List.foldl_append, List.foldl_append, foldl_pushMessage_groups,
    foldl_pushMessage_responses]
  intro e he
  rcases hl with rfl | rfl | ⟨message, rfl⟩
  · simp at he ⊢
    tauto
  · simp [pushMessage] at he ⊢
    tauto
  · simp [pushMessage] at he ⊢
    tauto

theorem Framed.lastWord {acts : List Act} {t : Task} {groups : List (List SonioxResponse × String)}
    {rs : List SonioxResponse} {last : List Inbound} (h : Framed acts t groups rs last) :
    LastWord last := by
  have hf := h.frames
  cases hp : t.phase with
  | spawned | waiting => rw [hp] at hf; exact .inl hf.2.1
  | connected => rw [hp] at hf; exact .inl hf.1
  | returned | gone => rw [hp] at hf; exact hf

/-- All responses of an epoch were received on one connection. -/
theorem Framed.epoch_heard {acts : List Act} {t : Task}
    {groups : List (List SonioxResponse × String)} {rs : List SonioxResponse} {last : List Inbound}
    (h : Framed acts t groups rs last) :
    ∀ e ∈ Soniox.epochs (messages acts), ∃ k, ∀ r ∈ e, .received r ∈ onConnection k acts := by
  intro e he
  rcases h.epochs h.lastWord e he with hmem | rfl | rfl
  · obtain ⟨g, hg, rfl⟩ := List.mem_map.mp hmem
    obtain ⟨i, hi, rfl⟩ := List.mem_iff_getElem.mp hg
    exact ⟨i + 1, h.heard i _ (List.getElem?_eq_getElem hi)⟩
  · exact ⟨_, h.hears⟩
  · exact ⟨0, by simp⟩

/-! ## The claim on connections -/

/-- **Connections never mix in a segment.**  What the task queues are groups of responses, each
closed by a `Reconnecting`, then responses, then at most one `Finished` or `Fatal`; before another
connection is opened a `Reconnecting` is the last thing queued.  So wherever the messages are divided
between `fold` and the loop of `end_session`, and however many that loop still reads, the text of
every segment they finalize is made of tokens received on one connection. -/
theorem connections_apart {es : List Event} {t : Task} {acts : List Act}
    (h : Mealy.run Task.step .new es = some (t, acts)) :
    (∃ groups, ∃ rs : List SonioxResponse, ∃ last,
      messages acts = ofGroups groups ++ rs.map .response ++ last ∧ LastWord last) ∧
    (∀ xs ys, acts = xs ++ .connect :: ys →
      messages xs = [] ∨ ∃ ms reason, messages xs = ms ++ [.reconnecting reason]) ∧
    ∀ (b : SonioxBackend) (n : SegmentIds) (folded : List (Instant × Inbound))
      (received unread : List Inbound),
      messages acts = folded.map Prod.snd ++ received ++ unread →
      ∃ s us s' vs, b.beginSession.fold folded n = some (s, us) ∧
        s.1.endSession received s.2 = some (s', vs) ∧
        ∀ u ∈ us ++ vs, u.isFinal = true → ∃ k made, u.text = textOf made ∧
          ∀ t ∈ made, ∃ r, .received r ∈ onConnection k acts ∧ t ∈ r.tokens := by
  obtain ⟨⟨groups, rs, last, hf⟩, hb⟩ := framed_run h
  refine ⟨⟨groups, rs, last, hf.told, hf.lastWord⟩, hb, ?_⟩
  intro b n folded received unread hdiv
  obtain ⟨s, us, hfold, hc, hheard⟩ := fold_heard b n folded
  obtain ⟨s', vs, hend, hv⟩ := endSession_voiced hheard hc received
  refine ⟨s, us, s', vs, hfold, hend, ?_⟩
  intro u hu hfin
  obtain ⟨e, he, made, htext, hmade⟩ := hv u hu hfin
  -- the epochs read are prefixes of the epochs of all messages
  have hsplit : messages acts = (folded.map Prod.snd ++ received.takeWhile fun m => !m.terminal)
      ++ (received.dropWhile (fun m => !m.terminal) ++ unread) := by
    have hread : received
        = (received.takeWhile fun m => !m.terminal) ++ received.dropWhile fun m => !m.terminal :=
      List.takeWhile_append_dropWhile.symm
    rw [hdiv]
    conv_lhs => rw [hread]
    simp only [List.append_assoc]
  obtain ⟨e', he', hpre⟩ := epochs_append _ (received.dropWhile (fun m => !m.terminal) ++ unread) e he
  rw [← hsplit] at he'
  obtain ⟨k, hk⟩ := hf.epoch_heard e' he'
  refine ⟨k, made, htext, ?_⟩
  intro t ht
  obtain ⟨r, hr, hrt⟩ := List.mem_flatMap.mp (hmade t ht)
  exact ⟨r, hk r (hpre.subset hr), hrt⟩

/-- Two connections; the first two messages are folded and `end_session` reads the third. -/
theorem connections_apart_reconnect :
    ∃ t acts, Mealy.run Task.step .new
        [.runtime (.ok ()), .opened (.ok ()), .written (.ok ()), .turn,
          .incoming (.text (.ok { tokens := [⟨"Hello", true, none⟩] })), .incoming .ended, .slept,
          .opened (.ok ()), .written (.ok ()), .turn,
          .incoming (.text (.ok { tokens := [⟨"there", true, none⟩] }))] = some (t, acts) ∧
      opened acts = 2 ∧
      ∃ s us s' vs, SonioxBackend.new.beginSession.fold
          [(0, .response { tokens := [⟨"Hello", true, none⟩] }),
            (1, .reconnecting "Soniox closed the connection")] 1 = some (s, us) ∧
        s.1.endSession [.response { tokens := [⟨"there", true, none⟩] }] s.2 = some (s', vs) ∧
        ∀ u ∈ us ++ vs, u.isFinal = true → ∃ k made, u.text = textOf made ∧
          ∀ t ∈ made, ∃ r, .received r ∈ onConnection k acts ∧ t ∈ r.tokens := by
  refine ⟨_, _, rfl, rfl, ?_⟩
  exact (connections_apart (show Mealy.run Task.step .new
    [.runtime (.ok ()), .opened (.ok ()), .written (.ok ()), .turn,
      .incoming (.text (.ok { tokens := [⟨"Hello", true, none⟩] })), .incoming .ended, .slept,
      .opened (.ok ()), .written (.ok ()), .turn,
      .incoming (.text (.ok { tokens := [⟨"there", true, none⟩] }))]
      = some (_, _) from rfl)).2.2 .new 1 _ [.response { tokens := [⟨"there", true, none⟩] }] [] rfl

end Larmindon.Soniox
