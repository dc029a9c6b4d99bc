/-
# `Soniox.Connections` — which connection an act belongs to

The acts of the task come one connection after another, each begun by a
`connect`.  `onConnection k` is what was done on the `k`-th, counted from 1; what
comes before the first, a runtime that could not be built, has the number 0.
-/
import Larmindon.Soniox.Moves

namespace Larmindon.Soniox

/-- The connections opened. -/
def opened (acts : List Act) : ℕ := acts.count .connect

@[simp] theorem opened_nil : opened [] = 0 := rfl

@[simp] theorem opened_append (xs ys : List Act) : opened (xs ++ ys) = opened xs + opened ys :=
  List.count_append

theorem opened_cons (a : Act) (acts : List Act) :
    opened (a :: acts) = opened acts + if a = .connect then 1 else 0 := by
  simp [opened, List.count_cons]

/-- Each act with the number of its connection, `k` having been opened before. -/
def number (k : ℕ) : List Act → List (ℕ × Act)
  | [] => []
  | a :: acts =>
      let k := if a = .connect then k + 1 else k
      (k, a) :: number k acts

theorem number_append (k : ℕ) (xs ys : List Act) :
    number k (xs ++ ys) = number k xs ++ number (k + opened xs) ys := by
  induction xs generalizing k with
  | nil => rfl
  | cons a xs ih =>
      simp only [List.cons_append, number, ih, opened_cons]
      split
      · rw [Nat.add_assoc, Nat.add_comm 1]
      · rw [Nat.add_zero]

/-- Acts that open no connection are all on the one there is. -/
theorem number_of_not_mem {k : ℕ} {acts : List Act} (h : .connect ∉ acts) :
    number k acts = acts.map (k, ·) := by
  induction acts with
  | nil => rfl
  | cons a acts ih =>
      rw [List.mem_cons, not_or] at h
      simp only [number, if_neg (Ne.symm h.1), ih h.2, List.map_cons]

/-- What was done on connection `k`. -/
def onConnection (k : ℕ) (acts : List Act) : List Act :=
  ((number 0 acts).filter fun na => na.1 = k).map Prod.snd

@[simp] theorem onConnection_nil (k : ℕ) : onConnection k [] = [] := rfl

/-- What was done on a connection stays done. -/
theorem mem_onConnection_append {k : ℕ} {a : Act} {acts : List Act} (h : a ∈ onConnection k acts)
    (new : List Act) : a ∈ onConnection k (acts ++ new) := by
  simp only [onConnection, number_append, List.filter_append, List.map_append]
  exact List.mem_append_left _ h

/-- Acts on the connection there is. -/
theorem onConnection_append (k : ℕ) (acts : List Act) {new : List Act} (h : .connect ∉ new) :
    onConnection k (acts ++ new)
      = onConnection k acts ++ if k = opened acts then new else [] := by
  simp only [onConnection, number_append, number_of_not_mem h, Nat.zero_add, List.filter_append,
    List.map_append]
  congr 1
  split
  · rename_i hk
    subst hk
    induction new with
    | nil => rfl
    | cons a new ih =>
        rw [List.mem_cons, not_or] at h
        simp [ih h.2]
  · rename_i hk
    have hne : ∀ na ∈ new.map (opened acts, ·), ¬ (decide (na.1 = k) = true) := by
      intro na hna
      obtain ⟨a, -, rfl⟩ := List.mem_map.mp hna
      simpa using fun h => hk h.symm
    rw [List.filter_eq_nil_iff.mpr hne]
    rfl

/-- A new connection. -/
theorem onConnection_connect (k : ℕ) (acts : List Act) :
    onConnection k (acts ++ [.connect])
      = onConnection k acts ++ if k = opened acts + 1 then [.connect] else [] := by
  simp only [onConnection, number_append, number, if_true, Nat.zero_add, List.filter_append,
    List.map_append]
  congr 1
  rcases eq_or_ne k (opened acts + 1) with hk | hk
  · simp [hk]
  · simp [hk, Ne.symm hk]

theorem number_le {k j : ℕ} {a : Act} {acts : List Act} (h : (j, a) ∈ number k acts) :
    j ≤ k + opened acts := by
  induction acts generalizing k with
  | nil => cases h
  | cons b acts ih =>
      simp only [number, List.mem_cons, Prod.mk.injEq] at h
      rw [opened_cons]
      rcases h with ⟨rfl, rfl⟩ | h
      · split <;> omega
      · have hle := ih h
        split at hle <;> rename_i hb <;> simp only [hb, if_true, if_false] <;> omega

/-- Nothing was done on a connection not opened yet. -/
theorem onConnection_of_lt {k : ℕ} {acts : List Act} (h : opened acts < k) :
    onConnection k acts = [] := by
  rw [onConnection, List.map_eq_nil_iff, List.filter_eq_nil_iff]
  rintro ⟨j, a⟩ hj
  have := number_le hj
  simp only [decide_eq_true_eq]
  omega

/-- A connection opens no other. -/
theorem Conn.Moves.connect_not_mem {c : Conn} {q q' : Queues} {e : Event} {v : Verdict}
    {acts : List Act} (h : c.Moves q e v q' acts) : .connect ∉ acts := by
  cases h <;> simp

end Larmindon.Soniox
