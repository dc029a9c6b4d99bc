/-
# `Lib.Batches` — machines that read a stream in pieces of any size

A machine that reads a list at a time is `Divisible` when reading `xs ++ ys` is
reading `xs` and then `ys`: it carries over a cut all that matters.

    run_flatten          what it makes of a stream, however divided
    Divisible.congr      the same machine on another type of states
    Divisible.andThen    the second reads what the first writes
    divisible_run        a machine that reads one element at a time
    divisible_reblock    pieces of one size, with the rest carried over
    run_filterMap        looking at part of what a machine writes
-/
import Larmindon.Lib.Chunks
import Larmindon.Lib.Mealy
import Mathlib.Logic.Equiv.Defs

namespace Batches

open Mealy (Step run)

universe u

variable {S T I O Q : Type u}

/-- Reading in two pieces is reading in one. -/
def Divisible (f : Step S (List I) O) : Prop :=
  ∀ s xs ys, f s (xs ++ ys) = (f s xs).bind fun r => (f r.1 ys).map fun q => (q.1, r.2 ++ q.2)

/-- Behind what it has read, the machine makes nothing of nothing. -/
theorem Divisible.settled {f : Step S (List I) O} (h : Divisible f) {s t : S} {xs : List I} {os : List O}
    (hf : f s xs = some (t, os)) : f t [] = some (t, []) := by
  have hsplit := h s xs []
  rw [List.append_nil, hf, Option.bind_some] at hsplit
  cases hempty : f t [] with
  | none =>
      rw [hempty] at hsplit
      cases hsplit
  | some r =>
      rw [hempty] at hsplit
      obtain ⟨ht, hos⟩ := Prod.mk.inj (Option.some.inj hsplit)
      have hnil : r.2 = [] := List.self_eq_append_right.mp hos
      rw [← hnil, ht]

/-- A division with at least one piece does what the whole stream does at once. -/
theorem run_flatten {f : Step S (List I) O} (h : Divisible f) (s : S) (piece : List I)
    (pieces : List (List I)) : run f s (piece :: pieces) = f s (piece :: pieces).flatten := by
  induction pieces generalizing s piece with
  | nil =>
      rw [List.flatten_cons, List.flatten_nil, List.append_nil]
      cases hf : f s piece with
      | none => simp [run, hf]
      | some r => rw [Mealy.run_singleton hf]
  | cons p ps ih =>
      rw [List.flatten_cons, h]
      cases hf : f s piece with
      | none => simp [run, hf]
      | some r => rw [Mealy.run_cons hf, ih, Option.bind_some]

/-- Two divisions of one stream into pieces that are not empty. -/
theorem run_divisions {f : Step S (List I) O} (h : Divisible f) (s : S) {ps qs : List (List I)}
    (hp : ∀ p ∈ ps, p ≠ []) (hq : ∀ q ∈ qs, q ≠ []) (heq : ps.flatten = qs.flatten) :
    run f s ps = run f s qs := by
  have empty : ∀ {ps : List (List I)}, (∀ p ∈ ps, p ≠ []) → ps.flatten = [] → ps = [] := by
    intro ps hne hfl
    cases ps with
    | nil => rfl
    | cons p ps => exact absurd (List.flatten_eq_nil_iff.mp hfl p List.mem_cons_self) (hne p List.mem_cons_self)
  cases ps with
  | nil => rw [empty hq heq.symm]
  | cons p ps =>
      cases qs with
      | nil => rw [empty hp heq]
      | cons q qs => rw [run_flatten h, run_flatten h, heq]

/-- A machine that does what a divisible one does, on a state it can be read off. -/
theorem Divisible.congr {f : Step S (List I) O} {g : Step T (List I) O} (h : Divisible f) (e : T ≃ S)
    (hg : ∀ t xs, g t xs = (f (e t) xs).map fun r => (e.symm r.1, r.2)) : Divisible g := by
  intro t xs ys
  rw [hg, hg, h]
  cases f (e t) xs with
  | none => rfl
  | some r =>
      rw [Option.bind_some, Option.map_some, Option.bind_some, hg, Equiv.apply_symm_apply]
      cases f r.1 ys <;> rfl

/-- The second machine reads what the first writes. -/
def andThen (f : Step S (List I) O) (g : Step T (List O) Q) : Step (S × T) (List I) Q :=
  fun s xs => (f s.1 xs).bind fun r => (g s.2 r.2).map fun q => ((r.1, q.1), q.2)

theorem Divisible.andThen {f : Step S (List I) O} {g : Step T (List O) Q} (hf : Divisible f)
    (hg : Divisible g) : Divisible (Batches.andThen f g) := by
  intro s xs ys
  simp only [Batches.andThen]
  rw [hf]
  cases h₁ : f s.1 xs with
  | none => rfl
  | some r₁ =>
      cases h₂ : f r₁.1 ys with
      | none =>
          cases h₃ : g s.2 r₁.2 with
          | none => simp [h₂, h₃]
          | some r₃ => simp [h₂, h₃]
      | some r₂ =>
          have hcut := hg s.2 r₁.2 r₂.2
          cases h₃ : g s.2 r₁.2 with
          | none =>
              rw [h₃, Option.bind_none] at hcut
              simp [h₂, h₃, hcut]
          | some r₃ =>
              rw [h₃, Option.bind_some] at hcut
              cases h₄ : g r₃.1 r₂.2 with
              | none => simp [h₂, h₃, h₄, hcut]
              | some r₄ => simp [h₂, h₃, h₄, hcut]

/-- A machine that reads one element at a time. -/
theorem divisible_run (step : Step S I O) : Divisible (run step) := by
  intro s xs ys
  cases hx : run step s xs with
  | some r =>
      cases hy : run step r.1 ys with
      | some q =>
          rw [Mealy.run_append hx hy]
          simp [hy]
      | none =>
          cases h : run step s (xs ++ ys) with
          | none => simp [hy]
          | some q =>
              obtain ⟨t, os, ps, hx', hy', -⟩ := Mealy.run_append_inv h
              rw [hx] at hx'
              obtain rfl := Option.some.inj hx'
              rw [hy] at hy'
              cases hy'
  | none =>
      cases h : run step s (xs ++ ys) with
      | none => rfl
      | some q =>
          obtain ⟨t, os, ps, hx', -, -⟩ := Mealy.run_append_inv h
          rw [hx] at hx'
          cases hx'

/-- Full pieces of `n` elements; what is behind them waits for the next batch. -/
def reblock (n : ℕ) : Step (List I) (List I) (List I) :=
  fun rest xs => some (Chunks.tail n (rest ++ xs), Chunks.cut n (rest ++ xs))

theorem divisible_reblock {n : ℕ} (hn : 0 < n) : Divisible (reblock (I := I) n) := by
  intro rest xs ys
  simp only [reblock, Option.bind_some, Option.map_some]
  rw [← List.append_assoc, Chunks.cut_append_tail hn, Chunks.tail_append_tail hn]

/-- Part of what is written, looked at step by step, on inputs that stand for other ones. -/
theorem run_filterMap {J : Type u} {step : Step S J O} {part : Step S I Q} {p : O → Option Q}
    {e : I → J} {is : List I}
    (h : ∀ s, ∀ i ∈ is, (step s (e i)).map (fun r => (r.1, r.2.filterMap p)) = part s i) (s : S) :
    (run step s (is.map e)).map (fun r => (r.1, r.2.filterMap p)) = run part s is := by
  induction is generalizing s with
  | nil => rfl
  | cons i is ih =>
      have hi := h s i List.mem_cons_self
      rw [List.map_cons]
      cases hs : step s (e i) with
      | none =>
          rw [hs, Option.map_none] at hi
          simp [run, hs, ← hi]
      | some r =>
          rw [hs, Option.map_some] at hi
          have hrest := ih (fun s j hj => h s j (List.mem_cons_of_mem i hj)) r.1
          rw [Mealy.run_cons hs, Mealy.run_cons hi.symm, ← hrest, Option.map_map, Option.map_map]
          congr 1
          funext q
          simp

end Batches
