/-
# `Soniox.Teardown` — the same stream, wherever the session ends

`end_session` reads what is left with a loop of its own.  It stops at the last
message of the stream, where `fold` would have gone on, and finishes the
accumulator once, where `fold` finishes it at a `Fatal`.  Both hear the same:

                       fold              end_session
    response           ingest            ingest
    Reconnecting       finish, reset     finish, reset
    Finished           nothing           stop; finish
    Fatal              finish, reset     stop; finish

So the updates of a session are those of `transcript`, which hears the whole
stream and finishes, for every division of it.
-/
import Larmindon.Soniox.Calls

namespace Larmindon.Soniox

/-- Nothing comes after the last message of a task. -/
def LastOnly (ms : List Inbound) : Prop :=
  ∀ xs m ys, ms = xs ++ m :: ys → m.terminal = true → ys = []

/-- The updates of the stream `ms` heard as one, by a fresh accumulator with next id `n₀`. -/
def transcript (n₀ : SegmentIds) (ms : List Inbound) : Option (List TranscriptUpdate) :=
  (Mealy.run hear (Accumulator.new, n₀) ms).map fun r => r.2 ++ (r.1.1.finish r.1.2).out

theorem LastOnly.of_body {body last : List Inbound} (hbody : ∀ m ∈ body, m.terminal = false)
    (hlast : LastWord last) : LastOnly (body ++ last) := by
  intro xs m ys heq hm
  have hlen : last.length ≤ 1 := by
    rcases hlast with rfl | rfl | ⟨message, rfl⟩
    · exact Nat.zero_le 1
    · exact Nat.le_refl 1
    · exact Nat.le_refl 1
  rcases List.append_eq_append_iff.mp heq with ⟨as, rfl, hrest⟩ | ⟨bs, rfl, hrest⟩
  · rw [hrest, List.length_append, List.length_cons] at hlen
    exact List.eq_nil_of_length_eq_zero (by omega)
  · cases bs with
    | nil =>
        rw [List.nil_append] at hrest
        rw [← hrest, List.length_cons] at hlen
        exact List.eq_nil_of_length_eq_zero (by omega)
    | cons m' bs =>
        obtain ⟨rfl, -⟩ := List.cons.inj hrest
        rw [hbody m (by simp)] at hm
        cases hm

/-- What a socket task sends ends with its last message. -/
theorem task_lastOnly {es : List Event} {t : Task} {acts : List Act}
    (h : Mealy.run Task.step .new es = some (t, acts)) : LastOnly (messages acts) := by
  obtain ⟨⟨groups, rs, last, hf⟩, -⟩ := framed_run h
  rw [hf.told]
  refine .of_body ?_ hf.lastWord
  intro m hm
  rcases List.mem_append.mp hm with hm | hm
  · obtain ⟨g, -, hg⟩ := List.mem_flatMap.mp hm
    rcases List.mem_append.mp hg with hr | hr
    · obtain ⟨r, -, rfl⟩ := List.mem_map.mp hr
      rfl
    · rw [List.mem_singleton.mp hr]
      rfl
  · obtain ⟨r, -, rfl⟩ := List.mem_map.mp hm
    rfl

theorem endMessage_hear {s : SonioxBackend × SegmentIds} {m : Inbound} (hm : m.terminal = false) :
    (endMessage s m).map (fun r => (speaking r.1, r.2)) = hear (speaking s) m := by
  obtain ⟨b, ids⟩ := s
  cases m with
  | response r =>
      simp only [endMessage, hear, ingestStep, Option.map_map]
      rfl
  | reconnecting reason => rfl
  | finished => cases hm
  | fatal message => cases hm

/-- The loop of `end_session`, and the `finish` after it. -/
theorem endSession_hear {b : SonioxBackend} {ids : SegmentIds} {received : List Inbound}
    (hc : b.client ≠ none) {a : Accumulator × SegmentIds} {us : List TranscriptUpdate}
    (h : Mealy.run hear (b.accumulator, ids) (received.takeWhile fun m => !m.terminal) = some (a, us)) :
    ∃ s', b.endSession received ids = some (s', us ++ (a.1.finish a.2).out) := by
  have hstep : ∀ s : SonioxBackend × SegmentIds, ∀ m ∈ received.takeWhile fun m => !m.terminal,
      (endMessage s m).map (fun r => (speaking r.1, r.2)) = hear (speaking s) (id m) := by
    intro s m hm
    exact endMessage_hear (by simpa using List.mem_takeWhile_imp hm)
  have hproj := Mealy.run_project hstep
    ({ b with client := none, staged := [], stagedSamples := 0 }, ids)
  rw [List.map_id] at hproj
  have hproj' : _ = some (a, us) := hproj.trans h
  obtain ⟨⟨s, vs⟩, hrun, heq⟩ := Option.map_eq_some_iff.mp hproj'
  obtain ⟨rfl, rfl⟩ := Prod.mk.inj heq
  exact SonioxBackend.endSession_run hc hrun

/-- What is left after the loop: nothing, or the last message. -/
theorem LastOnly.rest {ms : List Inbound} (h : LastOnly ms) :
    (ms.dropWhile fun m => !m.terminal) = [] ∨
      ∃ m, m.terminal = true ∧ (ms.dropWhile fun m => !m.terminal) = [m] := by
  cases hd : ms.dropWhile fun m => !m.terminal with
  | nil => exact Or.inl rfl
  | cons m rest =>
      have hm : m.terminal = true := by
        have hn := List.head_dropWhile_not (fun m : Inbound => !m.terminal) (l := ms) (by simp [hd])
        simpa [hd] using hn
      have hsplit : ms = (ms.takeWhile fun m => !m.terminal) ++ m :: rest := by
        rw [← hd, List.takeWhile_append_dropWhile]
      rw [h _ m rest hsplit hm]
      exact Or.inr ⟨m, hm, rfl⟩

/-- The last message adds nothing to a `finish`. -/
theorem hear_last {s : Accumulator × SegmentIds} {m : Inbound} (hm : m.terminal = true) :
    ∃ s' us, hear s m = some (s', us) ∧ us ++ (s'.1.finish s'.2).out = (s.1.finish s.2).out := by
  cases m with
  | response r => cases hm
  | reconnecting reason => cases hm
  | finished => exact ⟨s, [], rfl, rfl⟩
  | fatal message =>
      refine ⟨_, _, rfl, ?_⟩
      show (s.1.finish s.2).out ++ [] = (s.1.finish s.2).out
      rw [List.append_nil]

/-- Hearing the stream and finishing, whether or not its last message is heard. -/
theorem transcript_of_parts {n₀ : SegmentIds} {ms : List Inbound}
    {a : Accumulator × SegmentIds} {us : List TranscriptUpdate}
    (h : Mealy.run hear (Accumulator.new, n₀) ms = some (a, us)) {last : List Inbound}
    (hl : last = [] ∨ ∃ m, m.terminal = true ∧ last = [m]) :
    transcript n₀ (ms ++ last) = some (us ++ (a.1.finish a.2).out) := by
  rcases hl with rfl | ⟨m, hm, rfl⟩
  · rw [List.append_nil, transcript, h]
    rfl
  · obtain ⟨s', vs, hs, heq⟩ := hear_last (s := a) hm
    rw [transcript, Mealy.run_append h (Mealy.run_singleton hs), ← heq, ← List.append_assoc]
    rfl

/-- **Teardown folds like the live path.**  However a stream is divided among the calls of a session
and the `end_session` after them, whatever else these calls are given, and whatever the clock says:
the updates they return are the same, ids included. -/
theorem teardown_agrees {Sample : Type} (quantize : Sample → Int16) (b : SonioxBackend)
    (n₀ : SegmentIds) (ms : List Inbound) (hms : LastOnly ms) :
    ∃ us, ∀ (rounds : List (Round Sample)) (received : List Inbound),
      rounds.flatMap Round.messages ++ received = ms →
      ∃ s os s' vs, Mealy.run (roundStep quantize) (b.beginSession, n₀) rounds = some (s, os) ∧
        s.1.endSession received s.2 = some (s', vs) ∧
        delivered (os.map Report.result) ++ vs = us := by
  obtain ⟨a, us, hrun, -⟩ := (screen_new n₀).hears ms
  refine ⟨us ++ (a.1.finish a.2).out, ?_⟩
  intro rounds received hdiv
  have htotal : transcript n₀ ms = some (us ++ (a.1.finish a.2).out) := by
    rw [transcript, hrun]
    rfl
  obtain ⟨s, os, hr, hin, hd⟩ := session_run quantize b n₀ rounds
  obtain ⟨a', vs, hloop, -⟩ := hin.screen.hears (received.takeWhile fun m => !m.terminal)
  obtain ⟨s', hend⟩ := endSession_hear hin.client hloop
  refine ⟨s, os, s', _, hr, hend, ?_⟩
  have hrest : LastOnly received := by
    intro xs m ys heq hm
    exact hms (rounds.flatMap Round.messages ++ xs) m ys (by rw [← hdiv, heq, List.append_assoc]) hm
  have hparts := transcript_of_parts (Mealy.run_append hin.heard hloop) hrest.rest
  rw [List.append_assoc, List.takeWhile_append_dropWhile, hd, hdiv, htotal] at hparts
  rw [hin.text, ← List.append_assoc]
  exact (Option.some.inj hparts).symm

/-- A stream that ends in a `Fatal`: polled to the end, and left to `end_session` after its first
message. -/
theorem teardown_agrees_fatal :
    ∃ us,
      (∃ s os s' vs, Mealy.run (roundStep fun _ : ℕ => 0) (SonioxBackend.new.beginSession, 1)
          [.poll [(0, .response { tokens := [⟨"Hi", false, none⟩] })], .poll [(5, .fatal "gone")]]
          = some (s, os) ∧
        s.1.endSession [] s.2 = some (s', vs) ∧ delivered (os.map Report.result) ++ vs = us) ∧
      ∃ s os s' vs, Mealy.run (roundStep fun _ : ℕ => 0) (SonioxBackend.new.beginSession, 1)
          [.poll [(9, .response { tokens := [⟨"Hi", false, none⟩] })]] = some (s, os) ∧
        s.1.endSession [.fatal "gone"] s.2 = some (s', vs) ∧
        delivered (os.map Report.result) ++ vs = us := by
  have hms : LastOnly ([.response { tokens := [⟨"Hi", false, none⟩] }] ++ [.fatal "gone"]) :=
    .of_body (by simp [Inbound.terminal]) (Or.inr (Or.inr ⟨"gone", rfl⟩))
  obtain ⟨us, h⟩ := teardown_agrees (fun _ : ℕ => 0) .new 1 _ hms
  exact ⟨us, h _ [] rfl, h _ [.fatal "gone"] rfl⟩

end Larmindon.Soniox
