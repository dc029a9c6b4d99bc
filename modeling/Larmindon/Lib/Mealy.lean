/-
# `Lib.Mealy` — runs of a machine that answers each input with a list of outputs

A `Mealy.Step S I O` reads one input from a state and returns the next state
with what it writes, or `none` where it has no step: a call that panics, an
event that is not enabled.  `run` feeds it a list of inputs and concatenates
what it writes.

    run_append     a run over `xs ++ ys` is a run over `xs`, then one over `ys`
    run_project    a machine that is another one on part of its state runs as that one
    run_track      in particular one with a history variable beside its state
    run_logged     and one with all it has written so far
    run_simulates  a machine that matches every step of another one, in related states and
                   with the same outputs, matches its runs
    run_total      a predicate of (inputs so far, state, outputs so far) that every
                   step keeps, and from which every step exists, holds of every run
    run_within     the same where only inputs that go well have a step
    run_sound      the same for machines whose steps may be missing
    run_along      the same where only steps that meet a condition keep it
    throughout_iff_along   every state on the way is as wanted exactly where all steps
                   meet the condition
    Before.append  what holds of the outputs before each occurrence of one of them
    After.append   the same of those behind it

The predicate of the rules sees the whole history, which is what a claim about
"everything written so far" needs.
-/
import Mathlib.Data.List.Induction

namespace Mealy

universe u v w

/-- One step: the next state and what is written, or `none` where there is no step. -/
abbrev Step (S : Type u) (I : Type v) (O : Type w) := S → I → Option (S × List O)

variable {S : Type u} {I : Type v} {O : Type w}

/-- The state after all inputs and everything written on the way. -/
def run (step : Step S I O) : S → List I → Option (S × List O)
  | s, [] => some (s, [])
  | s, i :: is =>
      match step s i with
      | none => none
      | some (s', os) =>
          match run step s' is with
          | none => none
          | some (s'', os') => some (s'', os ++ os')

variable {step : Step S I O}

@[simp] theorem run_nil (s : S) : run step s [] = some (s, []) := rfl

theorem run_cons {s s' : S} {i : I} {os : List O} (h : step s i = some (s', os)) (is : List I) :
    run step s (i :: is) = (run step s' is).map fun r => (r.1, os ++ r.2) := by
  cases hr : run step s' is with
  | none => simp [run, h, hr]
  | some r => simp [run, h, hr]

/-- Unpacking a run that starts with a step. -/
theorem run_cons_inv {s t : S} {i : I} {is : List I} {ps : List O}
    (h : run step s (i :: is) = some (t, ps)) :
    ∃ s' os os', step s i = some (s', os) ∧ run step s' is = some (t, os') ∧ ps = os ++ os' := by
  cases hs : step s i with
  | none => simp [run, hs] at h
  | some r =>
      obtain ⟨s', os⟩ := r
      cases hr : run step s' is with
      | none => simp [run, hs, hr] at h
      | some q =>
          obtain ⟨t', os'⟩ := q
          simp only [run, hs, hr, Option.some.injEq, Prod.mk.injEq] at h
          obtain ⟨rfl, rfl⟩ := h
          exact ⟨s', os, os', rfl, hr, rfl⟩

theorem run_append {s t u : S} {xs ys : List I} {os ps : List O}
    (hx : run step s xs = some (t, os)) (hy : run step t ys = some (u, ps)) :
    run step s (xs ++ ys) = some (u, os ++ ps) := by
  induction xs generalizing s os with
  | nil =>
      obtain ⟨rfl, rfl⟩ : s = t ∧ ([] : List O) = os := by simpa using hx
      simpa using hy
  | cons i is ih =>
      obtain ⟨s', o₁, o₂, hs, hr, rfl⟩ := run_cons_inv hx
      rw [List.cons_append, run_cons hs, ih hr]
      simp [List.append_assoc]

/-- A run over `xs ++ ys` passes through the state `xs` leaves it in. -/
theorem run_append_inv {s u : S} {xs ys : List I} {qs : List O}
    (h : run step s (xs ++ ys) = some (u, qs)) :
    ∃ t os ps, run step s xs = some (t, os) ∧ run step t ys = some (u, ps) ∧ qs = os ++ ps := by
  induction xs generalizing s qs with
  | nil => exact ⟨s, [], qs, rfl, h, rfl⟩
  | cons i is ih =>
      obtain ⟨s', o₁, o₂, hs, hr, rfl⟩ := run_cons_inv h
      obtain ⟨t, os, ps, hx, hy, rfl⟩ := ih hr
      refine ⟨t, o₁ ++ os, ps, ?_, hy, by rw [List.append_assoc]⟩
      rw [run_cons hs, hx]; rfl

theorem run_singleton {s s' : S} {i : I} {os : List O} (h : step s i = some (s', os)) :
    run step s [i] = some (s', os) := by
  rw [run_cons h]; simp

/-- A machine whose steps are those of another one on part of the state: so are its runs. -/
theorem run_project {S' : Type u} {I' : Type v} {step' : Step S' I' O} {f : S → S'} {g : I → I'}
    {is : List I} (h : ∀ s, ∀ i ∈ is, (step s i).map (fun r => (f r.1, r.2)) = step' (f s) (g i))
    (s : S) : (run step s is).map (fun r => (f r.1, r.2)) = run step' (f s) (is.map g) := by
  induction is generalizing s with
  | nil => rfl
  | cons i is ih =>
      have hi := h s i List.mem_cons_self
      cases hs : step s i with
      | none =>
          have hn : step' (f s) (g i) = none := by rw [← hi, hs, Option.map_none]
          simp [run, hs, hn]
      | some r =>
          obtain ⟨s₁, os⟩ := r
          have hn : step' (f s) (g i) = some (f s₁, os) := by rw [← hi, hs, Option.map_some]
          rw [List.map_cons, run_cons hs, run_cons hn,
            ← ih (fun t j hj => h t j (List.mem_cons_of_mem _ hj)) s₁, Option.map_map, Option.map_map]
          rfl

/-- The machine with a variable beside its state that its steps write and do not read. -/
def track {H : Type u} (step : Step S I O) (note : S → I → H → H) : Step (S × H) I O :=
  fun s i => (step s.1 i).map fun r => ((r.1, note s.1 i s.2), r.2)

theorem track_step {H : Type u} {note : S → I → H → H} {s s' : S} {h h' : H} {i : I} {os : List O}
    (hs : track step note (s, h) i = some ((s', h'), os)) :
    step s i = some (s', os) ∧ h' = note s i h := by
  obtain ⟨⟨t, ps⟩, ht, heq⟩ := Option.map_eq_some_iff.mp hs
  cases heq
  exact ⟨ht, rfl⟩

/-- A history variable can be kept along every run. -/
theorem run_track {H : Type u} (note : S → I → H → H) {s s' : S} {is : List I} {os : List O}
    (hr : run step s is = some (s', os)) (h : H) :
    ∃ h', run (track step note) (s, h) is = some ((s', h'), os) := by
  have hproject : (run (track step note) (s, h) is).map (fun r => (r.1.1, r.2)) = run step s is := by
    have hstep : ∀ t : S × H, ∀ i ∈ is,
        (track step note t i).map (fun r => (r.1.1, r.2)) = step t.1 i := by
      intro t i _
      simp [track, Function.comp_def]
    rw [run_project (f := Prod.fst) (g := id) hstep (s, h), List.map_id]
  rw [hr] at hproject
  obtain ⟨⟨⟨t, h'⟩, ps⟩, ht, heq⟩ := Option.map_eq_some_iff.mp hproject
  cases heq
  exact ⟨h', ht⟩

/-- The machine with all that it has written beside its state. -/
def logged (step : Step S I O) : Step (S × List O) I O :=
  fun s i => (step s.1 i).map fun r => ((r.1, s.2 ++ r.2), r.2)

theorem logged_step {s s' : S} {log log' : List O} {i : I} {os : List O}
    (h : logged step (s, log) i = some ((s', log'), os)) :
    step s i = some (s', os) ∧ log' = log ++ os := by
  obtain ⟨⟨t, ps⟩, ht, heq⟩ := Option.map_eq_some_iff.mp h
  cases heq
  exact ⟨ht, rfl⟩

theorem run_logged {s s' : S} {is : List I} {os : List O} (h : run step s is = some (s', os))
    (log : List O) : run (logged step) (s, log) is = some ((s', log ++ os), os) := by
  induction is generalizing s log os with
  | nil =>
      cases h
      rw [List.append_nil]
      rfl
  | cons i is ih =>
      obtain ⟨s₁, o₁, o₂, hs, hr, rfl⟩ := run_cons_inv h
      have hlogged : logged step (s, log) i = some ((s₁, log ++ o₁), o₁) := by
        rw [logged, hs]
        rfl
      rw [run_cons hlogged, ih hr, List.append_assoc]
      rfl

/-- Forward simulation: what matches every step matches every run. -/
theorem run_simulates {A : Type u} {spec : Step A I O} {R : S → A → Prop}
    (hstep : ∀ s a i a' os, R s a → spec a i = some (a', os) →
      ∃ s', step s i = some (s', os) ∧ R s' a')
    {s : S} {a a' : A} {is : List I} {os : List O} (h0 : R s a)
    (hr : run spec a is = some (a', os)) : ∃ s', run step s is = some (s', os) ∧ R s' a' := by
  induction is generalizing s a os with
  | nil =>
      cases hr
      exact ⟨s, rfl, h0⟩
  | cons i is ih =>
      obtain ⟨a₁, o₁, o₂, ha, har, rfl⟩ := run_cons_inv hr
      obtain ⟨s₁, hs, h₁⟩ := hstep s a i a₁ o₁ h0 ha
      obtain ⟨s', hsr, h'⟩ := ih h₁ har
      refine ⟨s', ?_, h'⟩
      rw [run_cons hs, hsr]
      rfl

/-- Every step on inputs that go on well exists and keeps `P`: so every run over inputs that go well
exists and ends in `P`.  To go well is about the inputs read so far, and holds of all their prefixes.
The induction is on the inputs from the last one back. -/
theorem run_within {G : List I → Prop} {P : List I → S → List O → Prop}
    (hG : ∀ xs ys, G (xs ++ ys) → G xs)
    (hstep : ∀ is s os i, P is s os → G (is ++ [i]) → ∃ s' os', step s i = some (s', os') ∧
      P (is ++ [i]) s' (os ++ os'))
    {s : S} (h0 : P [] s []) (is : List I) (hg : G is) :
    ∃ s' os, run step s is = some (s', os) ∧ P is s' os := by
  induction is using List.reverseRecOn with
  | nil => exact ⟨s, [], rfl, h0⟩
  | append_singleton is i ih =>
      obtain ⟨s₁, o₁, hr, h₁⟩ := ih (hG is [i] hg)
      obtain ⟨s₂, o₂, hs, h₂⟩ := hstep is s₁ o₁ i h₁ hg
      exact ⟨s₂, o₁ ++ o₂, run_append hr (run_singleton hs), h₂⟩

/-- Every step exists and keeps `P`: so every run exists and ends in `P`. -/
theorem run_total {P : List I → S → List O → Prop}
    (hstep : ∀ is s os i, P is s os → ∃ s' os', step s i = some (s', os') ∧
      P (is ++ [i]) s' (os ++ os'))
    {s : S} (h0 : P [] s []) (is : List I) :
    ∃ s' os, run step s is = some (s', os) ∧ P is s' os := by
  refine run_within (G := fun _ => True) (fun _ _ _ => trivial) ?_ h0 is trivial
  intro is s os i hp _
  exact hstep is s os i hp

/-- Every step of the run over `is` from `s` is taken in a state and on an input that meet `C`. -/
def Along (step : Step S I O) (C : S → I → Prop) : S → List I → Prop
  | _, [] => True
  | s, i :: is => C s i ∧ ∀ s' os, step s i = some (s', os) → Along step C s' is

theorem along_cons_iff {C : S → I → Prop} {s s' : S} {i : I} {os : List O}
    (h : step s i = some (s', os)) (is : List I) :
    Along step C s (i :: is) ↔ C s i ∧ Along step C s' is := by
  constructor
  · rintro ⟨hc, hrest⟩
    exact ⟨hc, hrest s' os h⟩
  · rintro ⟨hc, hrest⟩
    refine ⟨hc, ?_⟩
    intro t ps ht
    obtain ⟨rfl, -⟩ : s' = t ∧ os = ps := by simpa [h] using ht
    exact hrest

/-- Along two lists of inputs: along the first, and then from the state it leads to. -/
theorem along_append_iff {C : S → I → Prop} {s s' : S} {is : List I} {os : List O}
    (h : run step s is = some (s', os)) (js : List I) :
    Along step C s (is ++ js) ↔ Along step C s is ∧ Along step C s' js := by
  induction is generalizing s os with
  | nil =>
      obtain ⟨rfl, -⟩ : s = s' ∧ ([] : List O) = os := by simpa using h
      simp [Along]
  | cons j is ih =>
      obtain ⟨s₁, o₁, o₂, hs, hr, -⟩ := run_cons_inv h
      rw [List.cons_append, along_cons_iff hs, along_cons_iff hs, ih hr, and_assoc]

/-- Along one input more. -/
theorem along_snoc_iff {C : S → I → Prop} {s s' : S} {is : List I} {os : List O}
    (h : run step s is = some (s', os)) (i : I) :
    Along step C s (is ++ [i]) ↔ Along step C s is ∧ C s' i := by
  rw [along_append_iff h]
  refine and_congr_right fun _ => ⟨fun hi => hi.1, fun hi => ⟨hi, fun _ _ _ => trivial⟩⟩

/-- A decidable condition can be checked along a run. -/
instance Along.decidable {C : S → I → Prop} [∀ s i, Decidable (C s i)] :
    ∀ s is, Decidable (Along step C s is)
  | _, [] => isTrue trivial
  | s, i :: is =>
      match h : step s i with
      | none => decidable_of_iff (C s i) (by simp [Along, h])
      | some (s', _) =>
          have := Along.decidable (C := C) s' is
          decidable_of_iff (C s i ∧ Along step C s' is) (along_cons_iff h is).symm

/-- Inputs that meet the condition in every state. -/
theorem Along.of_forall {C : S → I → Prop} {is : List I} (h : ∀ i ∈ is, ∀ s, C s i) (s : S) :
    Along step C s is := by
  induction is generalizing s with
  | nil => trivial
  | cons i is ih =>
      exact ⟨h i List.mem_cons_self s, fun s' _ _ => ih (fun j hj => h j (List.mem_cons_of_mem _ hj)) s'⟩

/-- Every step that exists and meets `C` keeps `P`: so does every run that exists and meets `C` all
along. -/
theorem run_along {C : S → I → Prop} {P : List I → S → List O → Prop}
    (hstep : ∀ is s os i s' os', P is s os → C s i → step s i = some (s', os') →
      P (is ++ [i]) s' (os ++ os'))
    {s s' : S} {is : List I} {os : List O} (h0 : P [] s []) (hc : Along step C s is)
    (h : run step s is = some (s', os)) : P is s' os := by
  suffices H : ∀ (is pre : List I) (s : S) (ps os : List O), P pre s ps → Along step C s is →
      run step s is = some (s', os) → P (pre ++ is) s' (ps ++ os) from H is [] s [] os h0 hc h
  intro is
  induction is with
  | nil =>
      intro pre s ps os hp _ hr
      obtain ⟨rfl, rfl⟩ : s = s' ∧ ([] : List O) = os := by simpa using hr
      simpa using hp
  | cons i is ih =>
      intro pre s ps os hp hc hr
      obtain ⟨s₁, o₁, o₂, hs, hr', rfl⟩ := run_cons_inv hr
      have hp₁ := hstep pre s ps i s₁ o₁ hp hc.1 hs
      simpa [List.append_assoc] using ih (pre ++ [i]) s₁ (ps ++ o₁) o₂ hp₁ (hc.2 s₁ o₁ hs) hr'

/-- Every state on the way, from `s` to where the inputs lead, is as wanted. -/
def Throughout (step : Step S I O) (Q : S → Prop) (s : S) (is : List I) : Prop :=
  ∀ pre, pre <+: is → ∀ t os, run step s pre = some (t, os) → Q t

theorem throughout_nil_iff {Q : S → Prop} {s : S} : Throughout step Q s [] ↔ Q s := by
  constructor
  · intro h
    exact h [] (List.prefix_refl _) s [] rfl
  · intro h pre hpre t os hr
    obtain rfl := List.prefix_nil.mp hpre
    obtain ⟨rfl, -⟩ : s = t ∧ ([] : List O) = os := by simpa using hr
    exact h

theorem throughout_cons_iff {Q : S → Prop} {s s' : S} {i : I} {os : List O}
    (h : step s i = some (s', os)) (is : List I) :
    Throughout step Q s (i :: is) ↔ Q s ∧ Throughout step Q s' is := by
  constructor
  · intro hall
    refine ⟨hall [] List.nil_prefix s [] rfl, ?_⟩
    intro pre hpre t ps hr
    refine hall (i :: pre) (List.cons_prefix_cons.mpr ⟨rfl, hpre⟩) t (os ++ ps) ?_
    rw [run_cons h, hr]
    rfl
  · rintro ⟨hs, hall⟩ pre hpre t ps hr
    cases pre with
    | nil =>
        obtain ⟨rfl, -⟩ : s = t ∧ ([] : List O) = ps := by simpa using hr
        exact hs
    | cons j pre =>
        obtain ⟨rfl, hpre'⟩ := List.cons_prefix_cons.mp hpre
        obtain ⟨s₁, o₁, o₂, hs₁, hr', -⟩ := run_cons_inv hr
        obtain ⟨rfl, -⟩ : s' = s₁ ∧ os = o₁ := by simpa [h] using hs₁
        exact hall pre hpre' t o₂ hr'

/-- Steps that meet `C` keep an invariant, those that do not lead to a state that is not as wanted: so
all states on the way are as wanted exactly where all steps meet `C`. -/
theorem throughout_iff_along {C : S → I → Prop} {Inv Q : S → Prop} (hQ : ∀ s, Inv s → Q s)
    (hkeep : ∀ s i s' os, Inv s → C s i → step s i = some (s', os) → Inv s')
    (hbreak : ∀ s i s' os, Inv s → ¬ C s i → step s i = some (s', os) → ¬ Q s')
    {s s' : S} {is : List I} {os : List O} (h0 : Inv s) (h : run step s is = some (s', os)) :
    Throughout step Q s is ↔ Along step C s is := by
  induction is generalizing s os with
  | nil => exact ⟨fun _ => trivial, fun _ => throughout_nil_iff.mpr (hQ s h0)⟩
  | cons i is ih =>
      obtain ⟨s₁, o₁, o₂, hs, hr, -⟩ := run_cons_inv h
      rw [throughout_cons_iff hs, along_cons_iff hs]
      constructor
      · rintro ⟨-, hall⟩
        have hc : C s i := by
          by_contra hc
          exact hbreak s i s₁ o₁ h0 hc hs (hall [] List.nil_prefix s₁ [] rfl)
        exact ⟨hc, (ih (hkeep s i s₁ o₁ h0 hc hs) hr).mp hall⟩
      · rintro ⟨hc, halong⟩
        exact ⟨hQ s h0, (ih (hkeep s i s₁ o₁ h0 hc hs) hr).mpr halong⟩

/-- Every step that exists keeps `P`: so does every run that exists. -/
theorem run_sound {P : List I → S → List O → Prop}
    (hstep : ∀ is s os i s' os', P is s os → step s i = some (s', os') →
      P (is ++ [i]) s' (os ++ os'))
    {s s' : S} {is : List I} {os : List O} (h0 : P [] s []) (h : run step s is = some (s', os)) :
    P is s' os :=
  run_along (C := fun _ _ => True) (fun is s os i s' os' hp _ => hstep is s os i s' os' hp) h0
    (.of_forall (fun _ _ _ => trivial) s) h

/-- Whenever `o` was written, `P` held of what had been written before. -/
def Before (o : O) (P : List O → Prop) (os : List O) : Prop :=
  ∀ before after, os = before ++ o :: after → P before

theorem Before.nil {o : O} {P : List O → Prop} : Before o P [] := by
  intro before after h
  cases before <;> cases h

/-- A step that writes `o` writes nothing else, and `P` holds of what was written before it. -/
theorem Before.append {o : O} {P : List O → Prop} {os new : List O} (h : Before o P os)
    (hnew : o ∈ new → new = [o] ∧ P os) : Before o P (os ++ new) := by
  intro before after heq
  rcases List.append_eq_append_iff.mp heq with ⟨as, rfl, hnew'⟩ | ⟨bs, rfl, hold⟩
  · obtain ⟨hone, hp⟩ := hnew (by rw [hnew']; simp)
    cases as with
    | nil => rwa [List.append_nil]
    | cons a as => rw [hone] at hnew'; simp at hnew'
  · cases bs with
    | nil =>
        obtain ⟨-, hp⟩ := hnew (by rw [List.nil_append] at hold; rw [← hold]; simp)
        rwa [List.append_nil] at hp
    | cons b bs =>
        obtain ⟨rfl, -⟩ := List.cons.inj hold
        exact h before bs rfl

/-- `P` holds of what has been written since `o`. -/
def After (o : O) (P : List O → Prop) (os : List O) : Prop :=
  ∀ before after, os = before ++ o :: after → P after

theorem After.nil {o : O} {P : List O → Prop} : After o P [] := by
  intro before after h
  cases before <;> cases h

/-- A step that writes `o` writes nothing else, and one behind `o` keeps `P`. -/
theorem After.append {o : O} {P : List O → Prop} {os new : List O} (h : After o P os) (hnil : P [])
    (hnew : o ∈ new → new = [o]) (hkeep : o ∈ os → ∀ after, P after → P (after ++ new)) :
    After o P (os ++ new) := by
  intro before after heq
  rcases List.append_eq_append_iff.mp heq with ⟨as, rfl, hnew'⟩ | ⟨bs, rfl, hold⟩
  · have hone := hnew (by rw [hnew']; simp)
    cases as with
    | nil =>
        rw [hone] at hnew'
        obtain ⟨-, rfl⟩ := List.cons.inj hnew'
        exact hnil
    | cons a as => rw [hone] at hnew'; simp at hnew'
  · cases bs with
    | nil =>
        rw [List.nil_append] at hold
        have hone := hnew (by rw [← hold]; simp)
        rw [hone] at hold
        obtain ⟨-, rfl⟩ := List.cons.inj hold
        exact hnil
    | cons b bs =>
        obtain ⟨rfl, rfl⟩ := List.cons.inj hold
        exact hkeep (by simp) bs (h before bs rfl)

end Mealy
