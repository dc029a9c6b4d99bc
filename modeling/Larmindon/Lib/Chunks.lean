/-
# `Lib.Chunks` — a list cut into pieces of one size

`cut n xs` are the full pieces of `n` elements from the front of `xs`; `tail n xs`
is what is left behind them.  `pad n xs` fills `xs` up to a whole number of
pieces.

    cut_flatten    the pieces and the tail are the list again
    cut_append     a list of a whole number of pieces is cut apart from what follows it
    cut_cons       the first piece, then those of the rest
    flatten_cut    the pieces are the longest front of a whole number of them
    pad_append     only what is behind the last full piece is padded
    cut_cut        pieces of pieces are the pieces of the larger size, cut again
-/
import Mathlib.Data.List.Basic

namespace Chunks

universe u

variable {α : Type u} {n : ℕ}

/-- The full pieces of `n` elements. -/
def cut (n : ℕ) (xs : List α) : List (List α) :=
  (List.range (xs.length / n)).map fun i => (xs.drop (i * n)).take n

/-- The elements behind the last full piece. -/
def tail (n : ℕ) (xs : List α) : List α := xs.drop (xs.length / n * n)

/-- The list filled up with `a` to a whole number of pieces. -/
def pad (n : ℕ) (a : α) (xs : List α) : List α :=
  if xs.length % n = 0 then xs else xs ++ List.replicate (n - xs.length % n) a

theorem cut_nil (n : ℕ) : cut n ([] : List α) = [] := by
  simp [cut]

theorem cut_of_lt {xs : List α} (h : xs.length < n) : cut n xs = [] := by
  simp [cut, Nat.div_eq_of_lt h]

theorem tail_of_lt {xs : List α} (h : xs.length < n) : tail n xs = xs := by
  simp [tail, Nat.div_eq_of_lt h]

theorem cut_cons (hn : 0 < n) {xs : List α} (h : n ≤ xs.length) :
    cut n xs = xs.take n :: cut n (xs.drop n) := by
  have hdiv : xs.length / n = (xs.length - n) / n + 1 := by
    rw [Nat.div_eq xs.length n, if_pos ⟨hn, h⟩]
  rw [cut, cut, List.length_drop, hdiv, List.range_succ_eq_map, List.map_cons, List.map_map]
  congr 1
  · rw [Nat.zero_mul, List.drop_zero]
  · apply List.map_congr_left
    intro i _
    show (xs.drop ((i + 1) * n)).take n = ((xs.drop n).drop (i * n)).take n
    rw [List.drop_drop, Nat.succ_mul, Nat.add_comm]

/-- One piece. -/
theorem cut_of_length (hn : 0 < n) {xs : List α} (h : xs.length = n) : cut n xs = [xs] := by
  rw [cut_cons hn (Nat.le_of_eq h.symm), List.take_of_length_le (Nat.le_of_eq h),
    List.drop_of_length_le (Nat.le_of_eq h), cut_nil]

theorem tail_cons (hn : 0 < n) {xs : List α} (h : n ≤ xs.length) :
    tail n xs = tail n (xs.drop n) := by
  have hdiv : xs.length / n = (xs.length - n) / n + 1 := by
    rw [Nat.div_eq xs.length n, if_pos ⟨hn, h⟩]
  rw [tail, tail, List.length_drop, List.drop_drop, hdiv, Nat.succ_mul, Nat.add_comm n]

theorem length_tail (n : ℕ) (xs : List α) : (tail n xs).length = xs.length % n := by
  rw [tail, List.length_drop, Nat.mod_eq_sub, Nat.mul_comm]

/-- Induction on a list by its pieces. -/
theorem pieces_induction {motive : List α → Prop} (hn : 0 < n)
    (short : ∀ xs, xs.length < n → motive xs)
    (piece : ∀ xs, n ≤ xs.length → motive (xs.drop n) → motive xs) (xs : List α) : motive xs := by
  cases Nat.lt_or_ge xs.length n with
  | inl h => exact short xs h
  | inr h =>
      apply piece xs h
      exact pieces_induction hn short piece (xs.drop n)
termination_by xs.length
decreasing_by
  rw [List.length_drop]
  omega

/-- No element is lost, and none is repeated. -/
theorem cut_flatten (hn : 0 < n) (xs : List α) : (cut n xs).flatten ++ tail n xs = xs := by
  induction xs using pieces_induction hn with
  | short xs h => rw [cut_of_lt h, tail_of_lt h, List.flatten_nil, List.nil_append]
  | piece xs h ih =>
      rw [cut_cons hn h, tail_cons hn h, List.flatten_cons, List.append_assoc, ih,
        List.take_append_drop]

/-- A whole number of pieces is cut apart from what follows. -/
theorem cut_append (hn : 0 < n) {xs : List α} (h : n ∣ xs.length) (ys : List α) :
    cut n (xs ++ ys) = cut n xs ++ cut n ys := by
  induction xs using pieces_induction hn with
  | short xs hs =>
      obtain rfl : xs = [] := List.eq_nil_of_length_eq_zero (Nat.eq_zero_of_dvd_of_lt h hs)
      rw [List.nil_append, cut_nil, List.nil_append]
  | piece xs hs ih =>
      have hd : n ∣ (xs.drop n).length := by
        rw [List.length_drop]
        exact Nat.dvd_sub h (Nat.dvd_refl n)
      rw [cut_cons hn hs, cut_cons hn (by rw [List.length_append]; omega),
        List.take_append_of_le_length hs, List.drop_append_of_le_length hs, ih hd, List.cons_append]

theorem tail_append (hn : 0 < n) {xs : List α} (h : n ∣ xs.length) (ys : List α) :
    tail n (xs ++ ys) = tail n ys := by
  induction xs using pieces_induction hn with
  | short xs hs =>
      obtain rfl : xs = [] := List.eq_nil_of_length_eq_zero (Nat.eq_zero_of_dvd_of_lt h hs)
      rw [List.nil_append]
  | piece xs hs ih =>
      have hd : n ∣ (xs.drop n).length := by
        rw [List.length_drop]
        exact Nat.dvd_sub h (Nat.dvd_refl n)
      rw [tail_cons hn (by rw [List.length_append]; omega), List.drop_append_of_le_length hs, ih hd]

theorem dvd_length_cut_flatten (hn : 0 < n) (xs : List α) : n ∣ (cut n xs).flatten.length := by
  have hlen := congrArg List.length (cut_flatten hn xs)
  rw [List.length_append, length_tail] at hlen
  have hsub : (cut n xs).flatten.length = xs.length - xs.length % n := by omega
  rw [hsub]
  exact Nat.dvd_sub_mod xs.length

/-- The full pieces are those of the elements in them. -/
theorem cut_cut_flatten (hn : 0 < n) (xs : List α) : cut n (cut n xs).flatten = cut n xs := by
  have htail : (tail n xs).length < n := by
    rw [length_tail]
    exact Nat.mod_lt _ hn
  have hcut := cut_append hn (dvd_length_cut_flatten hn xs) (tail n xs)
  rw [cut_flatten hn, cut_of_lt htail, List.append_nil] at hcut
  exact hcut.symm

/-- What follows the full pieces of a list is cut together with what is left of it. -/
theorem cut_append_tail (hn : 0 < n) (xs ys : List α) :
    cut n (xs ++ ys) = cut n xs ++ cut n (tail n xs ++ ys) := by
  have hsplit : xs ++ ys = (cut n xs).flatten ++ (tail n xs ++ ys) := by
    rw [← List.append_assoc, cut_flatten hn]
  rw [hsplit, cut_append hn (dvd_length_cut_flatten hn xs), cut_cut_flatten hn]

theorem tail_append_tail (hn : 0 < n) (xs ys : List α) :
    tail n (xs ++ ys) = tail n (tail n xs ++ ys) := by
  have hsplit : xs ++ ys = (cut n xs).flatten ++ (tail n xs ++ ys) := by
    rw [← List.append_assoc, cut_flatten hn]
  rw [hsplit, tail_append hn (dvd_length_cut_flatten hn xs)]

/-- The full pieces are a front of the list. -/
theorem flatten_cut (hn : 0 < n) (xs : List α) :
    (cut n xs).flatten = xs.take (xs.length / n * n) := by
  have hsplit := cut_flatten hn xs
  have hlen := congrArg List.length hsplit
  have hdiv := Nat.div_add_mod' xs.length n
  rw [List.length_append, length_tail] at hlen
  have htake := congrArg (List.take (cut n xs).flatten.length) hsplit
  rw [List.take_left, show (cut n xs).flatten.length = xs.length / n * n by omega] at htake
  exact htake

theorem length_cut (n : ℕ) (xs : List α) : (cut n xs).length = xs.length / n := by
  rw [cut, List.length_map, List.length_range]

/-- The pieces are full. -/
theorem length_of_mem_cut {piece : List α} {xs : List α} (h : piece ∈ cut n xs) :
    piece.length = n := by
  obtain ⟨i, hi, rfl⟩ := List.mem_map.mp h
  have hle := Nat.mul_le_mul_right n (List.mem_range.mp hi)
  have hdiv := Nat.div_mul_le_self xs.length n
  rw [Nat.succ_mul] at hle
  rw [List.length_take, List.length_drop]
  omega

theorem dvd_length_pad (hn : 0 < n) (a : α) (xs : List α) : n ∣ (pad n a xs).length := by
  rw [pad]
  cases h : decide (xs.length % n = 0) with
  | true =>
      have h0 : xs.length % n = 0 := of_decide_eq_true h
      rw [if_pos h0]
      exact Nat.dvd_of_mod_eq_zero h0
  | false =>
      have h0 : xs.length % n ≠ 0 := of_decide_eq_false h
      have hlt : xs.length % n < n := Nat.mod_lt _ hn
      have hsum : xs.length + (n - xs.length % n) = n * (xs.length / n + 1) := by
        have := Nat.div_add_mod xs.length n
        rw [Nat.mul_succ]
        omega
      rw [if_neg h0, List.length_append, List.length_replicate, hsum]
      exact Nat.dvd_mul_right n _

theorem pad_append {xs : List α} (h : n ∣ xs.length) (a : α) (ys : List α) :
    pad n a (xs ++ ys) = xs ++ pad n a ys := by
  have hmod : (xs ++ ys).length % n = ys.length % n := by
    obtain ⟨k, hk⟩ := h
    rw [List.length_append, hk, Nat.mul_add_mod]
  rw [pad, pad, hmod]
  split
  · rfl
  · exact List.append_assoc xs ys _

theorem pad_ne_nil {xs : List α} (h : xs ≠ []) (n : ℕ) (a : α) : pad n a xs ≠ [] := by
  rw [pad]
  split
  · exact h
  · exact List.append_ne_nil_of_left_ne_nil h _

theorem cut_map {β : Type u} (f : α → β) (xs : List α) : cut n (xs.map f) = (cut n xs).map (List.map f) := by
  rw [cut, cut, List.length_map, List.map_map]
  apply List.map_congr_left
  intro i _
  show ((xs.map f).drop (i * n)).take n = ((xs.drop (i * n)).take n).map f
  rw [← List.map_drop, ← List.map_take]

/-- Pieces of `m` pieces of `n` are the pieces of `n * m`, each cut again. -/
theorem cut_cut {m : ℕ} (hn : 0 < n) (hm : 0 < m) (xs : List α) :
    cut m (cut n xs) = (cut (n * m) xs).map (cut n) := by
  have hnm : 0 < n * m := Nat.mul_pos hn hm
  induction xs using pieces_induction hnm with
  | short xs h =>
      have hlen : (cut n xs).length < m := by
        rw [length_cut]
        exact Nat.div_lt_of_lt_mul h
      rw [cut_of_lt h, cut_of_lt hlen, List.map_nil]
  | piece xs h ih =>
      have hlen : (xs.take (n * m)).length = n * m := List.length_take_of_le h
      have hdvd : n ∣ (xs.take (n * m)).length := by
        rw [hlen]
        exact Nat.dvd_mul_right n m
      have hfirst : (cut n (xs.take (n * m))).length = m := by
        rw [length_cut, hlen, Nat.mul_div_cancel_left m hn]
      have hsplit : cut n xs = cut n (xs.take (n * m)) ++ cut n (xs.drop (n * m)) := by
        rw [← cut_append hn hdvd, List.take_append_drop]
      have hpiece : m ∣ (cut n (xs.take (n * m))).length := ⟨1, by rw [hfirst, Nat.mul_one]⟩
      rw [hsplit, cut_append hm hpiece, cut_of_length hm hfirst, ih, cut_cons hnm h,
        List.singleton_append, List.map_cons]

end Chunks
