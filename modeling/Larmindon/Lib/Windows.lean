/-
# `Lib.Windows` — windows cut from a list that grows at its end

A window of a list is a stretch of it, opened at its `onset` but reaching back
to its `start`.  `Follow C ws last` says that the windows `ws` come in order,
that each reaches back `C` elements from its onset where there are as many
since the window before it, and all of those there are otherwise, and that
the last one stops at `last`.

    of_append   a window inside a list is the same window of any longer one
    of_grow     the window that stops where the list does grows with it
    of_open     a window opened at the end of the list reaches back over the
                last `C` elements since the window before it
    disjoint    windows that follow one another share no element
-/
import Mathlib.Data.List.DropRight

namespace Windows

universe u

variable {α : Type u}

structure Window where
  start : ℕ
  onset : ℕ
  stop : ℕ
  deriving DecidableEq, Repr

/-- The elements of `xs` in the window. -/
def Window.of (w : Window) (xs : List α) : List α := (xs.drop w.start).take (w.stop - w.start)

theorem Window.of_append {w : Window} {xs : List α} (h : w.stop ≤ xs.length) (ys : List α) :
    w.of (xs ++ ys) = w.of xs := by
  cases Nat.le_total w.start xs.length with
  | inl hs =>
      rw [Window.of, Window.of, List.drop_append_of_le_length hs,
        List.take_append_of_le_length (by rw [List.length_drop]; omega)]
  | inr hs =>
      have h0 : w.stop - w.start = 0 := by omega
      simp only [Window.of, h0, List.take_zero]

theorem Window.of_grow {w : Window} {xs : List α} (hs : w.start ≤ xs.length)
    (hstop : w.stop = xs.length) (ys : List α) :
    ({ w with stop := xs.length + ys.length } : Window).of (xs ++ ys) = w.of xs ++ ys := by
  have hall : w.of xs = xs.drop w.start := by
    rw [Window.of, hstop]
    exact List.take_of_length_le (by rw [List.length_drop])
  show ((xs ++ ys).drop w.start).take (xs.length + ys.length - w.start) = w.of xs ++ ys
  rw [hall, List.drop_append_of_le_length hs]
  exact List.take_of_length_le (by rw [List.length_append, List.length_drop]; omega)

theorem Window.of_open {xs : List α} {last : ℕ} (h : last ≤ xs.length) (C : ℕ) (ys : List α) :
    (⟨xs.length - min C (xs.length - last), xs.length, xs.length + ys.length⟩ : Window).of
      (xs ++ ys) = (xs.drop last).rtake C ++ ys := by
  have hback : (xs.drop last).rtake C = xs.drop (xs.length - min C (xs.length - last)) := by
    rw [List.rtake, List.drop_drop, List.length_drop]
    congr 1
    omega
  rw [hback]
  show ((xs ++ ys).drop (xs.length - min C (xs.length - last))).take
      (xs.length + ys.length - (xs.length - min C (xs.length - last))) = _
  rw [List.drop_append_of_le_length (by omega)]
  exact List.take_of_length_le (by rw [List.length_append, List.length_drop]; omega)

/-- The windows in order, each reaching back at most `C` and never into the one before it; the last
one stops at the index. -/
inductive Follow (C : ℕ) : List Window → ℕ → Prop
  | nil : Follow C [] 0
  | snoc {ws : List Window} {last : ℕ} (h : Follow C ws last) (w : Window)
      (after : last ≤ w.start) (reach : w.start + min C (w.onset - last) = w.onset)
      (opened : w.onset ≤ w.stop) : Follow C (ws ++ [w]) w.stop

variable {C : ℕ}

/-- A window opened at `n`, with everything up to `n` read. -/
theorem Follow.open {ws : List Window} {last : ℕ} (h : Follow C ws last) {n : ℕ} (hn : last ≤ n)
    (m : ℕ) : Follow C (ws ++ [⟨n - min C (n - last), n, n + m⟩]) (n + m) := by
  refine .snoc h ⟨n - min C (n - last), n, n + m⟩ ?_ ?_ (Nat.le_add_right n m)
  · show last ≤ n - min C (n - last)
    omega
  · show n - min C (n - last) + min C (n - last) = n
    omega

/-- The last of the windows, and those before it. -/
theorem Follow.last_inv {us : List Window} {n : ℕ} (h : Follow C us n) (hne : us ≠ []) :
    ∃ ws w last, us = ws ++ [w] ∧ w.stop = n ∧ Follow C ws last ∧ last ≤ w.start ∧
      w.start + min C (w.onset - last) = w.onset ∧ w.onset ≤ w.stop := by
  cases h with
  | nil => exact absurd rfl hne
  | snoc h w after reach opened => exact ⟨_, w, _, rfl, rfl, h, after, reach, opened⟩

theorem Follow.stop_le {us : List Window} {n : ℕ} (h : Follow C us n) : ∀ w ∈ us, w.stop ≤ n := by
  induction h with
  | nil => simp
  | @snoc ws last h w after reach opened ih =>
      intro v hv
      rcases List.mem_append.mp hv with hv | hv
      · have := ih v hv
        omega
      · rw [List.mem_singleton.mp hv]

/-- Windows that follow one another are disjoint. -/
theorem Follow.disjoint {us : List Window} {n : ℕ} (h : Follow C us n) :
    us.Pairwise fun v w => v.stop ≤ w.start := by
  induction h with
  | nil => exact .nil
  | @snoc ws last h w after reach opened ih =>
      rw [List.pairwise_append]
      refine ⟨ih, List.pairwise_singleton _ _, ?_⟩
      intro v hv u hu
      rw [List.mem_singleton.mp hu]
      exact (h.stop_le v hv).trans after

end Windows
