/-
# `CaptureBuffer` — what the bounded capture buffer keeps, drops and reports

The capture callback pushes samples, the processing loop drains them, and a
change of stream changes the capacity in between.  The abstract buffer is the
list of the samples pushed since the last drain; the buffer at work is a
ledger over it: what it holds is the end of that list, and what it counts is
the rest.

    pushSample    one sample more in the list      (`Ledger.pushSample`)
    setCapacity   the list stays as it is          (`Ledger.setCapacity`)
    drainAll      the list is empty again          (`Ledger.drainAll`)

A sample is dropped in three places, a full push, a push into no capacity and
a shrink; in each of them it is the oldest the buffer holds, or the new one
where it holds none.
-/
import Larmindon.Lib.Mealy

namespace Larmindon

variable {S : Type}

/-- The samples are in the order they were pushed.  The count is the source's `u64`, which no stretch
between two drains can fill. -/
structure CaptureBuffer (S : Type) where
  samples : List S
  capacity : ℕ
  droppedSamples : ℕ
  deriving DecidableEq, Repr

namespace CaptureBuffer

/-- `DEFAULT_CAPTURE_BUFFER_SECONDS`. -/
def defaultCaptureBufferSeconds : ℕ := 10

def withCapacity (capacity : ℕ) : CaptureBuffer S where
  samples := []
  capacity := capacity
  droppedSamples := 0

def forSampleRate (sampleRate : ℕ) : CaptureBuffer S :=
  .withCapacity (sampleRate * defaultCaptureBufferSeconds)

/-- `samples.pop_front()` and the count of it; on no samples nothing is popped. -/
def dropOldest (b : CaptureBuffer S) : CaptureBuffer S :=
  { b with samples := b.samples.tail, droppedSamples := b.droppedSamples + 1 }

def pushSample (b : CaptureBuffer S) (sample : S) : CaptureBuffer S :=
  if b.capacity = 0 then
    { b with droppedSamples := b.droppedSamples + 1 }
  else
    let b := if b.samples.length = b.capacity then b.dropOldest else b
    { b with samples := b.samples ++ [sample] }

def extendSamples (b : CaptureBuffer S) (samples : List S) : CaptureBuffer S :=
  samples.foldl pushSample b

def drainAll (b : CaptureBuffer S) : (List S × ℕ) × CaptureBuffer S :=
  ((b.samples, b.droppedSamples), { b with samples := [], droppedSamples := 0 })

/-- The loop of `set_capacity`: one sample is popped at a turn. -/
def shrink (b : CaptureBuffer S) : CaptureBuffer S :=
  if b.capacity < b.samples.length then b.dropOldest.shrink else b
termination_by b.samples.length
decreasing_by
  simp only [dropOldest, List.length_tail]
  omega

def setCapacity (b : CaptureBuffer S) (capacity : ℕ) : CaptureBuffer S :=
  { b with capacity }.shrink

/-! ## Runs of the buffer -/

inductive Op (S : Type) where
  | pushSample (sample : S)
  | extendSamples (samples : List S)
  | setCapacity (capacity : ℕ)
  | drainAll
  deriving Repr

/-- A call, and what the drains return. -/
def step : Mealy.Step (CaptureBuffer S) (Op S) (List S × ℕ)
  | b, .pushSample sample => some (b.pushSample sample, [])
  | b, .extendSamples samples => some (b.extendSamples samples, [])
  | b, .setCapacity capacity => some (b.setCapacity capacity, [])
  | b, .drainAll => some (b.drainAll.2, [b.drainAll.1])

/-- What an operation makes of the list of the samples pushed since the last drain. -/
def Op.pushed (xs : List S) : Op S → List S
  | .pushSample sample => xs ++ [sample]
  | .extendSamples samples => xs ++ samples
  | .setCapacity _ => xs
  | .drainAll => []

/-- The samples pushed since the last drain, or the creation. -/
def pushedSinceDrain (ops : List (Op S)) : List S := ops.foldl Op.pushed []

theorem pushedSinceDrain_snoc (ops : List (Op S)) (op : Op S) :
    pushedSinceDrain (ops ++ [op]) = op.pushed (pushedSinceDrain ops) := by
  rw [pushedSinceDrain, List.foldl_append]
  rfl

/-- What an operation makes of the capacity that was asked for. -/
def Op.capacity (capacity : ℕ) : Op S → ℕ
  | .setCapacity capacity => capacity
  | .pushSample _ | .extendSamples _ | .drainAll => capacity

/-- The capacity asked for last. -/
def capacityAfter (capacity : ℕ) (ops : List (Op S)) : ℕ := ops.foldl Op.capacity capacity

theorem capacityAfter_snoc (capacity : ℕ) (ops : List (Op S)) (op : Op S) :
    capacityAfter capacity (ops ++ [op]) = op.capacity (capacityAfter capacity ops) := by
  rw [capacityAfter, List.foldl_append]
  rfl

theorem capacity_pushSample (b : CaptureBuffer S) (sample : S) :
    (b.pushSample sample).capacity = b.capacity := by
  unfold pushSample
  split
  · rfl
  · dsimp only
    split <;> rfl

theorem capacity_extendSamples (samples : List S) :
    ∀ b : CaptureBuffer S, (b.extendSamples samples).capacity = b.capacity := by
  induction samples with
  | nil => exact fun _ => rfl
  | cons s samples ih => exact fun b => (ih _).trans (capacity_pushSample b s)

theorem capacity_shrink (b : CaptureBuffer S) : b.shrink.capacity = b.capacity := by
  fun_induction shrink b with
  | case1 b hlt ih => exact ih
  | case2 b hge => rfl

/-- Only `set_capacity` changes the capacity, to the one asked for. -/
theorem capacity_step {b b' : CaptureBuffer S} {op : Op S} {os : List (List S × ℕ)}
    (h : step b op = some (b', os)) : b'.capacity = op.capacity b.capacity := by
  cases op with
  | pushSample sample =>
      cases h
      exact capacity_pushSample b sample
  | extendSamples samples =>
      cases h
      exact capacity_extendSamples samples b
  | setCapacity capacity =>
      cases h
      exact capacity_shrink _
  | drainAll =>
      cases h
      rfl

/-! ## The ledger -/

/-- The buffer after `xs` was pushed since the last drain: it holds the end of `xs`, within its
capacity, and counts the rest. -/
structure Ledger (b : CaptureBuffer S) (xs : List S) : Prop where
  kept : b.samples <:+ xs
  counted : b.samples.length + b.droppedSamples = xs.length
  bounded : b.samples.length ≤ b.capacity

theorem Ledger.withCapacity (capacity : ℕ) : (withCapacity capacity : CaptureBuffer S).Ledger [] where
  kept := List.suffix_refl []
  counted := rfl
  bounded := Nat.zero_le capacity

/-- The oldest sample goes: what is left is still the end of what was pushed. -/
theorem dropOldest_kept {b : CaptureBuffer S} {xs : List S} (h : b.samples <:+ xs) :
    b.dropOldest.samples <:+ xs :=
  (List.tail_suffix b.samples).trans h

theorem dropOldest_counted {b : CaptureBuffer S} {n : ℕ} (hpos : 0 < b.samples.length)
    (h : b.samples.length + b.droppedSamples = n) :
    b.dropOldest.samples.length + b.dropOldest.droppedSamples = n := by
  show b.samples.tail.length + (b.droppedSamples + 1) = n
  rw [List.length_tail]
  omega

theorem Ledger.pushSample {b : CaptureBuffer S} {xs : List S} (h : b.Ledger xs) (sample : S) :
    (b.pushSample sample).Ledger (xs ++ [sample]) := by
  have hkept := h.kept
  have hcounted := h.counted
  have hbounded := h.bounded
  unfold CaptureBuffer.pushSample
  cases Nat.eq_zero_or_pos b.capacity with
  | inl h0 =>
      -- Nothing is held, and the new sample is the one dropped.
      rw [if_pos h0]
      have hnil : b.samples = [] := List.eq_nil_of_length_eq_zero (by omega)
      refine ⟨?_, ?_, hbounded⟩
      · show b.samples <:+ xs ++ [sample]
        rw [hnil]
        exact List.nil_suffix
      · show b.samples.length + (b.droppedSamples + 1) = (xs ++ [sample]).length
        rw [List.length_append, List.length_singleton]
        omega
  | inr hpos =>
      rw [if_neg (Nat.ne_of_gt hpos)]
      cases Nat.lt_or_ge b.samples.length b.capacity with
      | inl hlt =>
          rw [if_neg (Nat.ne_of_lt hlt)]
          refine ⟨?_, ?_, ?_⟩
          · show b.samples ++ [sample] <:+ xs ++ [sample]
            exact (List.suffix_append_inj_of_length_eq rfl).mpr ⟨hkept, rfl⟩
          · simp only [List.length_append, List.length_singleton]
            omega
          · simp only [List.length_append, List.length_singleton]
            omega
      | inr hge =>
          have hfull : b.samples.length = b.capacity := Nat.le_antisymm hbounded hge
          rw [if_pos hfull]
          have hcount := dropOldest_counted (by omega) hcounted
          have hlen : b.dropOldest.samples.length = b.samples.length - 1 := List.length_tail
          refine ⟨?_, ?_, ?_⟩
          · show b.dropOldest.samples ++ [sample] <:+ xs ++ [sample]
            exact (List.suffix_append_inj_of_length_eq rfl).mpr ⟨dropOldest_kept hkept, rfl⟩
          · simp only [List.length_append, List.length_singleton]
            omega
          · show (b.dropOldest.samples ++ [sample]).length ≤ b.capacity
            simp only [List.length_append, List.length_singleton]
            omega

/-- A slice is its samples, one push after the other. -/
theorem Ledger.extendSamples (samples : List S) : ∀ {b : CaptureBuffer S} {xs : List S},
    b.Ledger xs → (b.extendSamples samples).Ledger (xs ++ samples) := by
  induction samples with
  | nil =>
      intro b xs h
      rw [List.append_nil]
      exact h
  | cons s samples ih =>
      intro b xs h
      have h' := ih (h.pushSample s)
      rw [List.append_assoc] at h'
      exact h'

/-- The loop pops until what is left fits, and only from the front. -/
theorem shrink_ledger (b : CaptureBuffer S) {xs : List S} (hkept : b.samples <:+ xs)
    (hcounted : b.samples.length + b.droppedSamples = xs.length) : b.shrink.Ledger xs := by
  fun_induction shrink b with
  | case1 b hlt ih => exact ih (dropOldest_kept hkept) (dropOldest_counted (by omega) hcounted)
  | case2 b hge => exact ⟨hkept, hcounted, Nat.le_of_not_lt hge⟩

theorem Ledger.setCapacity {b : CaptureBuffer S} {xs : List S} (h : b.Ledger xs) (capacity : ℕ) :
    (b.setCapacity capacity).Ledger xs :=
  shrink_ledger { b with capacity } h.kept h.counted

theorem Ledger.drainAll {b : CaptureBuffer S} {xs : List S} (h : b.Ledger xs) :
    b.drainAll.1.1 <:+ xs ∧ b.drainAll.1.1.length + b.drainAll.1.2 = xs.length ∧
      b.drainAll.2.Ledger [] :=
  ⟨h.kept, h.counted, List.suffix_refl [], rfl, Nat.zero_le b.capacity⟩

/-- Every call exists and keeps the ledger. -/
theorem Ledger.step {b : CaptureBuffer S} {xs : List S} (h : b.Ledger xs) (op : Op S) :
    ∃ b' os, step b op = some (b', os) ∧ b'.Ledger (op.pushed xs) := by
  cases op with
  | pushSample sample => exact ⟨_, _, rfl, h.pushSample sample⟩
  | extendSamples samples => exact ⟨_, _, rfl, h.extendSamples samples⟩
  | setCapacity capacity => exact ⟨_, _, rfl, h.setCapacity capacity⟩
  | drainAll => exact ⟨_, _, rfl, h.drainAll.2.2⟩

theorem run_ledger (capacity : ℕ) (ops : List (Op S)) :
    ∃ b os, Mealy.run step (withCapacity capacity) ops = some (b, os) ∧
      b.Ledger (pushedSinceDrain ops) ∧ b.capacity = capacityAfter capacity ops := by
  refine Mealy.run_total (P := fun ops (b : CaptureBuffer S) _ =>
    b.Ledger (pushedSinceDrain ops) ∧ b.capacity = capacityAfter capacity ops)
    ?_ ⟨.withCapacity capacity, rfl⟩ ops
  rintro ops b os op ⟨h, hcapacity⟩
  obtain ⟨b', os', hs, h'⟩ := h.step op
  refine ⟨b', os', hs, ?_, ?_⟩
  · rw [pushedSinceDrain_snoc]
    exact h'
  · rw [capacityAfter_snoc, ← hcapacity]
    exact capacity_step hs

/-- After any calls the buffer is within the capacity asked for last, and a drain returns the last of the
samples pushed since the drain before it, in order, with the number of the others. -/
theorem drainAll_accounts (capacity : ℕ) (ops : List (Op S)) :
    ∃ b os xs d b', Mealy.run step (withCapacity capacity) ops = some (b, os) ∧
      b.capacity = capacityAfter capacity ops ∧
      b.samples.length ≤ b.capacity ∧
      Mealy.run step (withCapacity capacity) (ops ++ [.drainAll]) = some (b', os ++ [(xs, d)]) ∧
      xs <:+ pushedSinceDrain ops ∧ xs.length + d = (pushedSinceDrain ops).length := by
  obtain ⟨b, os, hr, h, hcapacity⟩ := run_ledger capacity ops
  obtain ⟨hkept, hcounted, -⟩ := h.drainAll
  refine ⟨b, os, _, _, b.drainAll.2, hr, hcapacity, h.bounded, ?_, hkept, hcounted⟩
  exact Mealy.run_append hr (Mealy.run_singleton rfl)

/-- Four samples into a capacity of three, and a drain. -/
example : (((withCapacity 3 : CaptureBuffer ℕ).extendSamples [1, 2, 3, 4]).drainAll).1 =
    ([2, 3, 4], 1) := rfl

end CaptureBuffer

end Larmindon
