/-
# `Soniox.Statuses` — every status is returned, and what loses one

A status is raised by a message of the socket task, or by a send that fails.
`Pursued` says what becomes of it: it has been returned, by that call or a later
one, or it is owed and every call since had text to return.  So it is returned
by the first call that has none.

    raised by a message    pursued from the fold on          always
    raised by a send       pursued from the return on        where the call is `Kept`

A call keeps the failure of its send where a status at least as severe is owed
anyway, or where it returns the failure itself: nothing to show, nothing owed.
-/
import Larmindon.Soniox.Calls

namespace Larmindon.Soniox

variable {Sample : Type} {quantize : Sample → Int16}

/-- What becomes of a status raised by `o`, the calls `ys` after it. -/
def Pursued (s : SonioxBackend × SegmentIds) (o : Report) (ys : List Report) (e : AsrError) : Prop :=
  (∃ p ∈ o :: ys, p.Returns e) ∨ s.1.Owes e ∧ ∀ p ∈ ys, p.updates ≠ []

/-- Every status of the kind `R` that was raised is pursued. -/
def AllPursued (R : Report → AsrError → Prop) (s : SonioxBackend × SegmentIds) (os : List Report) :
    Prop :=
  ∀ xs o ys, os = xs ++ o :: ys → ∀ e, R o e → Pursued s o ys e

/-- A message drained by the call brought the status. -/
def Report.Told (o : Report) (e : AsrError) : Prop := ∃ m ∈ o.drained, m.status = some e

/-- The call does not lose the failure of its send. -/
def Round.Kept (s : SonioxBackend × SegmentIds) (c : Round Sample) : Prop :=
  ∀ e, c.Refused s e →
    s.1.Owes e ∨ Brings c.messages e ∨
    (¬ s.1.Owes (.transient "") ∧ ¬ Brings c.messages (.transient "") ∧
      ∀ t us, Mealy.run hear (speaking s) c.messages = some (t, us) → us = [])

theorem Covers.refl (e : AsrError) : Covers e e := by
  cases e <;> trivial

theorem Report.Told.brings {o : Report} {e : AsrError} (h : o.Told e) : Brings o.drained e := by
  obtain ⟨m, hm, hst⟩ := h
  exact ⟨m, hm, e, hst, .refl e⟩

theorem AllPursued.nil (R : Report → AsrError → Prop) (s : SonioxBackend × SegmentIds) :
    AllPursued R s [] := by
  intro xs o ys heq
  simp at heq

/-- One call more: what is owed is returned, or the call had text. -/
theorem AllPursued.round {R : Report → AsrError → Prop} {s s' : SonioxBackend × SegmentIds}
    {c : Round Sample} {os os' : List Report} (h : AllPursued R s os) (hr : Rounded s s' c os')
    (hnew : ∀ o ∈ os', ∀ e, R o e → o.Returns e ∨ s'.1.Owes e) : AllPursued R s' (os ++ os') := by
  intro xs o ys heq e he
  cases hr with
  | push howes =>
      rw [List.append_nil] at heq
      rcases h xs o ys heq e he with hret | ⟨howed, htext⟩
      · exact Or.inl hret
      · exact Or.inr ⟨(howes e).mpr howed, htext⟩
  | @answer p ha hd hsent =>
      cases List.eq_nil_or_concat' ys with
      | inl hys =>
          -- raised by this very call
          subst hys
          obtain ⟨-, hp⟩ := List.append_inj' heq rfl
          obtain rfl := List.singleton_inj.mp hp
          rcases hnew p (List.mem_singleton_self p) e he with hret | howed
          · exact Or.inl ⟨p, List.mem_cons_self, hret⟩
          · exact Or.inr ⟨howed, by simp⟩
      | inr hys =>
          obtain ⟨zs, q, rfl⟩ := hys
          rw [← List.cons_append, ← List.append_assoc] at heq
          obtain ⟨hos, hp⟩ := List.append_inj' heq rfl
          obtain rfl := List.singleton_inj.mp hp
          rcases h xs o zs hos e he with ⟨r, hr, hret⟩ | ⟨howed, htext⟩
          · exact Or.inl ⟨r, by rw [← List.cons_append]; exact List.mem_append_left _ hr, hret⟩
          · rcases ha.owed e (Or.inl howed) with ⟨howed', hne⟩ | hret
            · refine Or.inr ⟨howed', ?_⟩
              intro r hr
              rcases List.mem_append.mp hr with hr | hr
              · exact htext r hr
              · rw [List.mem_singleton.mp hr]
                exact hne
            · exact Or.inl ⟨p, by simp, hret⟩

/-- A status told is returned or owed by the call that drained it. -/
theorem Rounded.told {s s' : SonioxBackend × SegmentIds} {c : Round Sample} {os' : List Report}
    (hr : Rounded s s' c os') : ∀ o ∈ os', ∀ e, o.Told e → o.Returns e ∨ s'.1.Owes e := by
  intro o ho e he
  cases hr with
  | push => cases ho
  | answer ha hd hsent =>
      rw [List.mem_singleton.mp ho] at he ⊢
      exact (ha.owed e (Or.inr he.brings)).symm.imp_right And.left

/-- So is the failure of a send, by a call that keeps it. -/
theorem Rounded.refused {s s' : SonioxBackend × SegmentIds} {c : Round Sample} {os' : List Report}
    (hr : Rounded s s' c os') (hk : c.Kept s) :
    ∀ o ∈ os', ∀ e, o.sendError = some e → o.Returns e ∨ s'.1.Owes e := by
  intro o ho e he
  cases hr with
  | push => cases ho
  | answer ha hd hsent =>
      rw [List.mem_singleton.mp ho] at he ⊢
      rcases hk e (hsent e he) with howed | hbrings | ⟨hnone, hbrings, hquiet⟩
      · exact (ha.owed e (Or.inl howed)).symm.imp_right And.left
      · rw [← hd] at hbrings
        exact (ha.owed e (Or.inr hbrings)).symm.imp_right And.left
      · rw [← hd] at hbrings hquiet
        exact Or.inl (ha.fallback e he (hquiet _ _ ha.heard) hnone hbrings)

/-- A status pursued is returned once a call has no text. -/
theorem AllPursued.returned {R : Report → AsrError → Prop} {s : SonioxBackend × SegmentIds}
    {os : List Report} (h : AllPursued R s os) {xs ys : List Report} {o : Report}
    (heq : os = xs ++ o :: ys) (hquiet : ∃ p ∈ ys, p.updates = []) {e : AsrError} (he : R o e) :
    ∃ p ∈ o :: ys, p.Returns e := by
  rcases h xs o ys heq e he with hret | ⟨-, htext⟩
  · exact hret
  · obtain ⟨p, hp, hempty⟩ := hquiet
    exact absurd hempty (htext p hp)

/-! ## A whole session -/

/-- **Text is never lost, and statuses are returned.**  Whatever is drained and however the sends
go, what the calls of a session return is what their folds emit, in order; a status that was drained
is returned by that call or a later one, at least as severe, once a later call folds no updates; and
so is the failure of every send, in a session whose calls keep these. -/
theorem statuses_returned (quantize : Sample → Int16) (b : SonioxBackend) (n₀ : SegmentIds)
    (rounds : List (Round Sample)) :
    ∃ s os, Mealy.run (roundStep quantize) (b.beginSession, n₀) rounds = some (s, os) ∧
      delivered (os.map Report.result) = os.flatMap Report.updates ∧
      (∀ xs o ys, os = xs ++ o :: ys → (∃ p ∈ ys, p.updates = []) →
        ∀ e, o.Told e → ∃ p ∈ o :: ys, p.Returns e) ∧
      (Mealy.Along (roundStep quantize) (fun s c => c.Kept s) (b.beginSession, n₀) rounds →
        ∀ xs o ys, os = xs ++ o :: ys → (∃ p ∈ ys, p.updates = []) →
          ∀ e, o.sendError = some e → ∃ p ∈ o :: ys, p.Returns e) := by
  obtain ⟨s, os, hrun, hsession, -⟩ := session_run quantize b n₀ rounds
  refine ⟨s, os, hrun, hsession.text, ?_, ?_⟩
  · have htold : InSession n₀ s os ∧ AllPursued Report.Told s os := by
      refine Mealy.run_sound (P := fun _ s os => InSession n₀ s os ∧ AllPursued Report.Told s os)
        ?_ ⟨.begin b n₀, .nil _ _⟩ hrun
      rintro _ s os c s' os' ⟨hin, hall⟩ hstep
      obtain ⟨s₁, os₁, hstep₁, hr, hin', -⟩ := hin.round quantize c
      rw [hstep] at hstep₁
      cases hstep₁
      exact ⟨hin', hall.round hr hr.told⟩
    intro xs o ys heq hquiet e he
    exact htold.2.returned heq hquiet he
  · intro hkept
    have hfailed : InSession n₀ s os ∧ AllPursued (fun o e => o.sendError = some e) s os := by
      refine Mealy.run_along (C := fun s (c : Round Sample) => c.Kept s)
        (P := fun _ s os => InSession n₀ s os ∧ AllPursued (fun o e => o.sendError = some e) s os)
        ?_ ⟨.begin b n₀, .nil _ _⟩ hkept hrun
      rintro _ s os c s' os' ⟨hin, hall⟩ hc hstep
      obtain ⟨s₁, os₁, hstep₁, hr, hin', -⟩ := hin.round quantize c
      rw [hstep] at hstep₁
      cases hstep₁
      exact ⟨hin', hall.round hr (hr.refused hc)⟩
    intro xs o ys heq hquiet e he
    exact hfailed.2.returned heq hquiet he

/-- A frame is refused while nothing else happens. -/
theorem statuses_returned_refusal :
    ∃ s os, Mealy.run (roundStep fun _ : ℕ => 0) (SonioxBackend.new.beginSession, 1)
        [.push [7], .process (.error (.transient "backed up")) [], .poll []] = some (s, os) ∧
      ∀ xs o ys, os = xs ++ o :: ys → (∃ p ∈ ys, p.updates = []) →
        ∀ e, o.sendError = some e → ∃ p ∈ o :: ys, p.Returns e := by
  obtain ⟨s, os, hrun, -, -, hfailed⟩ := statuses_returned (fun _ : ℕ => 0) .new 1
    [.push [7], .process (.error (.transient "backed up")) [], .poll []]
  refine ⟨s, os, hrun, hfailed ⟨fun e he => he.elim, ?_⟩⟩
  intro s₁ os₁ h₁
  cases h₁
  refine ⟨?_, fun s₂ os₂ _ => ⟨fun e he => he.elim, fun _ _ _ => trivial⟩⟩
  rintro e ⟨-, he⟩
  cases he
  refine Or.inr (Or.inr ⟨?_, brings_nil _, ?_⟩)
  · rintro (hfatal | htransient)
    · exact hfatal rfl
    · exact htransient rfl
  · intro t us hrun
    cases hrun
    rfl

/-- The same refusal, in a call that drains text: nothing is ever heard of it. -/
theorem refusal_swallowed :
    ¬ ∀ (quantize : ℕ → Int16) (b : SonioxBackend) (n₀ : SegmentIds) (rounds : List (Round ℕ))
      (s : SonioxBackend × SegmentIds) (os : List Report),
      Mealy.run (roundStep quantize) (b.beginSession, n₀) rounds = some (s, os) →
      ∀ xs o ys, os = xs ++ o :: ys → (∃ p ∈ ys, p.updates = []) →
        ∀ e, o.sendError = some e → ∃ p ∈ o :: ys, p.Returns e := by
  intro h
  have hreports : (Mealy.run (roundStep fun _ : ℕ => 0) (SonioxBackend.new.beginSession, 1)
      [.push [7], .process (.error (.transient "backed up"))
        [(0, .response { tokens := [⟨"Hi", false, none⟩] })], .poll []]).map
      (fun r => r.2.map fun o => (o.sendError, o.updates.length, o.result.isOk)) =
      some [(some (.transient "backed up"), 1, true), (none, 0, true)] := by
    decide +kernel
  obtain ⟨⟨s, os⟩, hrun, hos⟩ := Option.map_eq_some_iff.mp hreports
  obtain ⟨o, p, rfl⟩ : ∃ o p, os = [o, p] :=
    List.length_eq_two.mp (by simpa using congrArg List.length hos)
  simp only [List.map_cons, List.map_nil, List.cons.injEq, Prod.mk.injEq, and_true] at hos
  obtain ⟨⟨hsent, -, ho⟩, -, hp, hpo⟩ := hos
  obtain ⟨q, hq, e', hq', -⟩ := h _ .new 1 _ s [o, p] hrun [] o [p] rfl
    ⟨p, List.mem_singleton_self p, List.eq_nil_of_length_eq_zero hp⟩ _ hsent
  rcases List.mem_cons.mp hq with rfl | hq
  · rw [hq'] at ho
    cases ho
  · rw [List.mem_singleton.mp hq] at hq'
    rw [hq'] at hpo
    cases hpo

end Larmindon.Soniox
