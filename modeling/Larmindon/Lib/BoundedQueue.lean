/-
# `Lib.BoundedQueue` — a queue that keeps the last `n` of what is pushed

Elements are pushed in lists of any length, and taken all at once.  A push that
goes over the bound loses the oldest elements; a drain gives what is there,
oldest first, and leaves nothing.

What a queue holds does not depend on how the elements were cut into pushes:
after any operations it is the last `n` of what was pushed since the last drain
(`run_items`).
-/
import Larmindon.Lib.Mealy
import Mathlib.Data.List.DropRight

universe u

/-- At most `n` elements, oldest first. -/
structure BoundedQueue (α : Type u) (n : ℕ) where
  items : List α
  fits : items.length ≤ n

namespace BoundedQueue

variable {α : Type u} {n : ℕ}

/-! ## The last elements of a list -/

theorem length_rtake (xs : List α) (n : ℕ) : (xs.rtake n).length = min n xs.length := by
  rw [List.rtake, List.length_drop]
  omega

/-- To keep the last elements on the way loses none of those kept at the end. -/
theorem rtake_append (xs ys : List α) (n : ℕ) : (xs.rtake n ++ ys).rtake n = (xs ++ ys).rtake n := by
  have hdrop : xs.rtake n ++ ys = (xs ++ ys).drop (xs.length - n) := by
    rw [List.rtake, List.drop_append_of_le_length (Nat.sub_le xs.length n)]
  rw [hdrop, List.rtake, List.drop_drop, List.length_drop, List.length_append, List.rtake,
    List.length_append]
  congr 1
  omega

/-! ## The operations -/

def empty : BoundedQueue α n := ⟨[], Nat.zero_le n⟩

/-- The oldest elements make room. -/
def push (q : BoundedQueue α n) (xs : List α) : BoundedQueue α n where
  items := (q.items ++ xs).rtake n
  fits := by
    rw [length_rtake]
    exact Nat.min_le_left _ _

inductive Op (α : Type u) where
  | push (xs : List α)
  | drain

/-- A drain writes what it takes. -/
def step : Mealy.Step (BoundedQueue α n) (Op α) (List α)
  | q, .push xs => some (q.push xs, [])
  | q, .drain => some (empty, [q.items])

/-- What an operation leaves of `xs`, the elements pushed since the last drain before it. -/
def Op.pushed (xs : List α) : Op α → List α
  | .push ys => xs ++ ys
  | .drain => []

def pushedSinceDrain (ops : List (Op α)) : List α := ops.foldl Op.pushed []

theorem pushedSinceDrain_snoc (ops : List (Op α)) (op : Op α) :
    pushedSinceDrain (ops ++ [op]) = op.pushed (pushedSinceDrain ops) := by
  rw [pushedSinceDrain, List.foldl_append]
  rfl

/-! ## What is held -/

/-- The queue runs on any operations, and holds the last `n` elements pushed since the last drain. -/
theorem run_items (ops : List (Op α)) : ∃ (q : BoundedQueue α n) (outs : List (List α)),
    Mealy.run step empty ops = some (q, outs) ∧ q.items = (pushedSinceDrain ops).rtake n := by
  refine Mealy.run_total (P := fun ops (q : BoundedQueue α n) (_ : List (List α)) =>
    q.items = (pushedSinceDrain ops).rtake n) ?_ (List.rtake_nil n).symm ops
  intro ops q outs op hq
  rw [pushedSinceDrain_snoc]
  cases op with
  | push xs =>
      refine ⟨q.push xs, [], rfl, ?_⟩
      show (q.items ++ xs).rtake n = (pushedSinceDrain ops ++ xs).rtake n
      rw [hq, rtake_append]
  | drain => exact ⟨empty, [q.items], rfl, (List.rtake_nil n).symm⟩

end BoundedQueue
