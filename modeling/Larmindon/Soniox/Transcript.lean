/-
# `Soniox.Transcript` — the screen shows the transcript

A store keeps the latest text of every segment and shows them by increasing id
(`Journal.read`).  Fed with what `fold` emits, it shows, white space aside, the
transcript of the messages folded: epoch by epoch, the text of the final tokens
in arrival order, then the provisional tail of the epoch's last response.  An
epoch ends where the stream does, at `Reconnecting` or `Fatal`.

The two sides meet in the middle.  `Written.read_eq` turns the order of ids into
the order of settlement; the settled texts are those of `finalTexts`, and what
is still open is the pending text and the tail.  So an epoch shows its final
tokens whichever of them were flushed (`Epoch.visible_eq`), and closing it moves
all of it to the settled side.
-/
import Larmindon.Soniox.Backend
import Larmindon.Soniox.OpenLane

namespace Larmindon.Soniox

open Journal

/-! ## What the messages say -/

/-- The epochs closed so far, and the responses of the one in progress. -/
def pushMessage (e : List (List SonioxResponse) × List SonioxResponse) (m : Inbound) :
    List (List SonioxResponse) × List SonioxResponse :=
  match m with
  | .response r => (e.1, e.2 ++ [r])
  | .reconnecting _ | .fatal _ => (e.1 ++ [e.2], [])
  | .finished => e

/-- The responses of each epoch, the one in progress last. -/
def epochs (ms : List Inbound) : List (List SonioxResponse) :=
  let e := ms.foldl pushMessage ([], [])
  e.1 ++ [e.2]

/-- The final tokens of an epoch in arrival order, then the tail of its last response. -/
def epochText (rs : List SonioxResponse) : String :=
  textOf ((finalTokens rs).filter fun t => !t.isSpecial) ++
    textOf (Accumulator.provisional (lastResponse rs))

/-- What a store shows that was fed the updates. -/
def rendered (us : List TranscriptUpdate) : List Char :=
  (Journal.read (journal us)).filter fun c => !isWhitespace c

/-! ## What has been settled -/

/-- The text of the final updates. -/
def settledVisible (us : List TranscriptUpdate) : List Char :=
  (finalTexts us).flatMap fun p => visible p.1

@[simp] theorem settledVisible_nil : settledVisible [] = [] := rfl

@[simp] theorem settledVisible_append (us vs : List TranscriptUpdate) :
    settledVisible (us ++ vs) = settledVisible us ++ settledVisible vs := by
  simp [settledVisible]

theorem settled_visible (us : List TranscriptUpdate) :
    ((settled (journal us)).filter fun c => !isWhitespace c) = settledVisible us := by
  induction us with
  | nil => rfl
  | cons u us ih =>
      have hsplit : journal (u :: us) = journal [u] ++ journal us := rfl
      rw [hsplit, settled_append, List.filter_append, ih,
        show settledVisible (u :: us) = settledVisible [u] ++ settledVisible us from
          settledVisible_append [u] us]
      congr 1
      cases hf : u.isFinal with
      | false => simp [settled, settledVisible, finalTexts, TranscriptUpdate.entry, hf]
      | true =>
          cases he : u.text.isEmpty with
          | false => simp [settled, settledVisible, finalTexts, TranscriptUpdate.entry, hf, he, visible]
          | true =>
              have hu : u.text = "" := String.isEmpty_iff.mp he
              simp [settled, settledVisible, finalTexts, TranscriptUpdate.entry, hf, hu]

/-- Segments and pending text together show the final tokens. -/
theorem Sourced.visible_eq {d : Durable} {ts rest : List SonioxToken} {groups : List TokenGroup}
    (h : Sourced d ts groups rest) :
    (d.segments.flatMap fun p => visible p.1) ++ visible d.pending
      = visible (textOf (ts.filter fun t => !t.isSpecial)) := by
  have htext : ∀ ts : List SonioxToken, visible (textOf ts) = ts.flatMap fun t => visible t.text := by
    intro ts
    induction ts with
    | nil => rfl
    | cons t ts ih => rw [textOf_cons, visible_append, ih]; rfl
  have hsegs : ∀ groups : List TokenGroup, ((segmentsOf groups).flatMap fun p => visible p.1)
      = groups.flatMap fun g => visible g.text := by
    intro groups
    induction groups with
    | nil => rfl
    | cons g groups ih =>
        cases hb : isBlank g.text with
        | true =>
            have hv : visible g.text = [] := isBlank_iff.mp hb
            simpa [segmentsOf, hb, hv] using ih
        | false => simpa [segmentsOf, hb] using ih
  have hgroups : (groups.flatMap fun g => visible g.text)
      = (groups.flatMap TokenGroup.tokens).flatMap fun t => visible t.text := by
    rw [List.flatMap_assoc]
    exact List.flatMap_congr fun g _ => htext g.tokens
  rw [h.segments, hsegs, h.pending, htext, htext, hgroups, ← List.flatMap_append, h.parts]

/-- What an epoch has settled and what it has open are together its text. -/
theorem Epoch.visible_eq {rs : List SonioxResponse} {a : Accumulator} {us : List TranscriptUpdate}
    (h : Epoch rs a us) : settledVisible us ++ runsVisible a.openRuns = visible (epochText rs) := by
  obtain ⟨groups, rest, hs⟩ := durable_sourced (finalTokens rs)
  rw [← h.durable] at hs
  rw [h.runs, buildOpenRuns_visible, epochText, visible_append, ← hs.visible_eq, List.append_assoc]
  rfl

theorem settledVisible_finish {a : Accumulator} (h : a.Aligned) (ids : SegmentIds) :
    settledVisible (a.finish ids).out = runsVisible a.openRuns := by
  rw [Accumulator.finish_eq h, settledVisible, finalTexts_settles h]
  induction a.openRuns with
  | nil => rfl
  | cons run runs ih =>
      cases he : run.text.isEmpty with
      | false => simpa [he, runsVisible] using ih
      | true =>
          have hu : run.text = "" := String.isEmpty_iff.mp he
          simpa [hu, runsVisible] using ih

/-! ## A run of `fold` -/

/-- What folding `ms` leaves: the screen, and on it the closed epochs settled and the epoch in
progress part settled and part open. -/
structure Rendered (n₀ : SegmentIds) (ms : List (Instant × Inbound))
    (s : SonioxBackend × SegmentIds) (us : List TranscriptUpdate) : Prop where
  screen : Screen n₀ (s.1.accumulator, s.2) us
  epochs : ∃ before during, us = before ++ during ∧
    settledVisible before
      = ((ms.map Prod.snd).foldl pushMessage ([], [])).1.flatMap (fun rs => visible (epochText rs)) ∧
    Epoch ((ms.map Prod.snd).foldl pushMessage ([], [])).2 s.1.accumulator during

theorem Rendered.step {n₀ : SegmentIds} {ms : List (Instant × Inbound)}
    {s : SonioxBackend × SegmentIds} {us : List TranscriptUpdate} (h : Rendered n₀ ms s us)
    (m : Instant × Inbound) :
    ∃ s' vs, SonioxBackend.foldMessage s m = some (s', vs) ∧
      Rendered n₀ (ms ++ [m]) s' (us ++ vs) := by
  obtain ⟨b, ids⟩ := s
  obtain ⟨now, m⟩ := m
  obtain ⟨before, during, rfl, hbefore, hduring⟩ := h.epochs
  obtain ⟨b', ids', vs, hf, hm, hscreen⟩ := foldMessage_spec h.screen now m
  refine ⟨(b', ids'), vs, hf, hscreen, ?_⟩
  rw [List.map_append, List.foldl_append]
  cases hm with
  | response hw ha _ _ =>
      refine ⟨before, during ++ _, by rw [List.append_assoc], hbefore, ?_⟩
      show Epoch _ b'.accumulator _
      rw [ha]
      exact hduring.ingest hw
  | finished => exact ⟨before, during, by simp, hbefore, hduring⟩
  | closes hc ha _ _ =>
      -- the epoch is settled whole, and the next one begins on an empty accumulator
      refine ⟨before ++ during ++ (b.accumulator.finish ids).out, [], by simp, ?_, ?_⟩
      · rw [settledVisible_append, settledVisible_append, hbefore,
          settledVisible_finish h.screen.aligned, List.append_assoc, hduring.visible_eq]
        cases m <;> simp_all [pushMessage, Inbound.closes]
      · show Epoch _ b'.accumulator _
        rw [ha]
        cases m <;> simp_all [pushMessage, Inbound.closes, epoch_new]

theorem fold_rendered (n₀ : SegmentIds) (ms : List (Instant × Inbound)) :
    ∃ s us, SonioxBackend.new.fold ms n₀ = some (s, us) ∧ Rendered n₀ ms s us := by
  apply Mealy.run_total (P := fun ms s us => Rendered n₀ ms s us)
  · intro ms s us m h
    exact h.step m
  · exact ⟨screen_new n₀, [], [], rfl, rfl, epoch_new⟩

/-- The open segments show the open runs. -/
theorem Screen.open_visible {n₀ : SegmentIds} {s : Accumulator × SegmentIds}
    {us : List TranscriptUpdate} (h : Screen n₀ s us) :
    ((s.1.openIds.flatMap (latest (journal us))).filter fun c => !isWhitespace c)
      = runsVisible s.1.openRuns := by
  rw [List.flatMap_def, h.shows, ← List.flatMap_def, List.filter_flatMap]
  rfl

theorem Rendered.rendered_eq {n₀ : SegmentIds} {ms : List (Instant × Inbound)}
    {s : SonioxBackend × SegmentIds} {us : List TranscriptUpdate} (h : Rendered n₀ ms s us) :
    rendered us = (Soniox.epochs (ms.map Prod.snd)).flatMap fun rs => visible (epochText rs) := by
  obtain ⟨before, during, rfl, hbefore, hduring⟩ := h.epochs
  rw [rendered, h.screen.written.read_eq, List.filter_append, settled_visible]
  show _ ++ (List.flatMap _ s.1.accumulator.openIds).filter _ = _
  rw [h.screen.open_visible, settledVisible_append, List.append_assoc, hduring.visible_eq, hbefore,
    Soniox.epochs, List.flatMap_append, List.flatMap_singleton]

/-- **The transcript is rendered exactly.**  Whatever is folded from a fresh backend, after every
prefix of it the updates emitted so far are a prefix of all, and a store fed with them shows the
transcript of that prefix. -/
theorem transcript_rendered (n₀ : SegmentIds) (ms before : List (Instant × Inbound))
    (h : before <+: ms) :
    ∃ s us s' us', SonioxBackend.new.fold before n₀ = some (s, us) ∧
      SonioxBackend.new.fold ms n₀ = some (s', us') ∧ us <+: us' ∧
      rendered us = (epochs (before.map Prod.snd)).flatMap fun rs => visible (epochText rs) := by
  obtain ⟨after, rfl⟩ := h
  obtain ⟨s', us', hall, -⟩ := fold_rendered n₀ (before ++ after)
  obtain ⟨s, us, hr⟩ := fold_rendered n₀ before
  obtain ⟨t, vs, ws, ht, -, rfl⟩ := Mealy.run_append_inv hall
  have heq : some (s, us) = some (t, vs) := hr.1.symm.trans ht
  cases heq
  exact ⟨s, us, s', us ++ ws, hr.1, hall, List.prefix_append _ _, hr.2.rendered_eq⟩

/-- Two speakers, a sentence end, a guess and a reconnect, read after all of it. -/
theorem transcript_rendered_reconnect :
    ∃ s us, SonioxBackend.new.fold
        [(0, .response { tokens := [⟨"Hi.", true, some "1"⟩, ⟨" you", false, some "2"⟩] }),
          (5, .reconnecting "dropped"), (9, .response { tokens := [⟨"Bye", true, none⟩] })] 1
        = some (s, us) ∧
      rendered us = "Hi.youBye".toList := by
  obtain ⟨s, us, -, -, hr, -, -, htext⟩ := transcript_rendered 1
    [(0, .response { tokens := [⟨"Hi.", true, some "1"⟩, ⟨" you", false, some "2"⟩] }),
      (5, .reconnecting "dropped"), (9, .response { tokens := [⟨"Bye", true, none⟩] })] _
    (List.prefix_refl _)
  refine ⟨s, us, hr, htext.trans ?_⟩
  decide +kernel

end Larmindon.Soniox
