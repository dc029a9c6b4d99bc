/-
# `Lib.Counters` — two counters that read a list, and the windows at its end they stand for

A `leaky` counter gains one at an element that meets `p` and loses one, not
below zero, at one that does not.  A `streak` counter gains one and goes back
to zero.  Both are determined by the windows that end where the list does:

    m ≤ leaky p xs     some such window has `m` more that meet `p` than that do not
    m ≤ streak p xs    some such window has `m` elements, and all meet `p`

so the first is the greatest excess of a suffix, and the second the length of
the longest suffix that meets `p` throughout.
-/
import Mathlib.Data.List.Infix

namespace Counters

universe u

variable {α : Type u} (p : α → Bool)

def leaky (xs : List α) : ℕ := xs.foldl (fun n x => if p x then n + 1 else n - 1) 0

def streak (xs : List α) : ℕ := xs.foldl (fun n x => if p x then n + 1 else 0) 0

/-- At least `m` more elements meet `p` than do not. -/
def Excess (m : ℕ) (w : List α) : Prop := m + w.countP (fun x => !p x) ≤ w.countP p

variable {p}

@[simp] theorem leaky_nil : leaky p [] = 0 := rfl

@[simp] theorem streak_nil : streak p [] = 0 := rfl

theorem leaky_snoc (xs : List α) (x : α) :
    leaky p (xs ++ [x]) = if p x then leaky p xs + 1 else leaky p xs - 1 := by
  rw [leaky, List.foldl_append]
  rfl

theorem streak_snoc (xs : List α) (x : α) :
    streak p (xs ++ [x]) = if p x then streak p xs + 1 else 0 := by
  rw [streak, List.foldl_append]
  rfl

theorem excess_zero_nil : Excess p 0 [] := Nat.le_refl 0

theorem excess_nil_iff {m : ℕ} : Excess p m [] ↔ m = 0 := by
  simp [Excess]

theorem excess_snoc_pos {m : ℕ} {w : List α} {x : α} (hx : p x = true) :
    Excess p (m + 1) (w ++ [x]) ↔ Excess p m w := by
  simp only [Excess, List.countP_append, List.countP_singleton, hx, Bool.not_true, if_true,
    Bool.false_eq_true, if_false]
  omega

theorem excess_snoc_neg {m : ℕ} {w : List α} {x : α} (hx : p x = false) :
    Excess p m (w ++ [x]) ↔ Excess p (m + 1) w := by
  simp only [Excess, List.countP_append, List.countP_singleton, hx, Bool.not_false, if_true,
    Bool.false_eq_true, if_false]
  omega

/-- The windows at the end of a list one longer: the empty one, and those of the list, one longer. -/
theorem exists_suffix_snoc {Q : List α → Prop} {xs : List α} {x : α} (hnil : ¬ Q []) :
    (∃ w, w <:+ xs ++ [x] ∧ Q w) ↔ ∃ w, w <:+ xs ∧ Q (w ++ [x]) := by
  constructor
  · rintro ⟨w, hw, hq⟩
    rcases List.suffix_concat_iff.mp hw with rfl | ⟨t, rfl, ht⟩
    · exact absurd hq hnil
    · exact ⟨t, ht, hq⟩
  · rintro ⟨w, hw, hq⟩
    exact ⟨w ++ [x], List.suffix_concat_iff.mpr (Or.inr ⟨w, rfl, hw⟩), hq⟩

/-- The leaky counter is the greatest excess of a window that ends where the list does. -/
theorem le_leaky_iff {m : ℕ} {xs : List α} : m ≤ leaky p xs ↔ ∃ w, w <:+ xs ∧ Excess p m w := by
  induction xs using List.reverseRecOn generalizing m with
  | nil =>
      rw [leaky_nil, Nat.le_zero]
      constructor
      · rintro rfl
        exact ⟨[], List.suffix_refl [], excess_zero_nil⟩
      · rintro ⟨w, hw, he⟩
        rw [List.suffix_nil.mp hw] at he
        exact excess_nil_iff.mp he
  | append_singleton xs x ih =>
      cases m with
      | zero =>
          refine iff_of_true (Nat.zero_le _) ⟨[], List.nil_suffix, excess_zero_nil⟩
      | succ m =>
          have hnil : ¬ Excess p (m + 1) [] := fun h => Nat.succ_ne_zero m (excess_nil_iff.mp h)
          rw [leaky_snoc, exists_suffix_snoc hnil]
          cases hx : p x with
          | true =>
              simp only [if_true, Nat.add_le_add_iff_right, excess_snoc_pos hx]
              exact ih
          | false =>
              simp only [Bool.false_eq_true, if_false, excess_snoc_neg hx]
              rw [← ih]
              omega

/-- The streak counter is the length of the longest window at the end that meets `p` throughout. -/
theorem le_streak_iff {m : ℕ} {xs : List α} :
    m ≤ streak p xs ↔ ∃ w, w <:+ xs ∧ w.length = m ∧ ∀ x ∈ w, p x = true := by
  induction xs using List.reverseRecOn generalizing m with
  | nil =>
      rw [streak_nil, Nat.le_zero]
      constructor
      · rintro rfl
        exact ⟨[], List.suffix_refl [], rfl, by simp⟩
      · rintro ⟨w, hw, hl, -⟩
        rw [← hl, List.suffix_nil.mp hw, List.length_nil]
  | append_singleton xs x ih =>
      cases m with
      | zero => exact iff_of_true (Nat.zero_le _) ⟨[], List.nil_suffix, rfl, by simp⟩
      | succ m =>
          rw [streak_snoc, exists_suffix_snoc (by simp)]
          cases hx : p x with
          | true =>
              simp only [if_true, Nat.add_le_add_iff_right]
              rw [ih]
              simp [hx, or_imp, forall_and]
          | false => simp [hx]

end Counters
