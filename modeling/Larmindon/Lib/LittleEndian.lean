/-
# `Lib.LittleEndian` — numbers as bytes, the least significant first

    bytes w n     the `w` lowest bytes of `n`
    value bs      the number whose bytes are `bs`

A number of at most `w` bytes is read back (`value_bytes`); of a greater one, what is
in its lowest bytes (`value_bytes_mod`).
-/
import Mathlib.Algebra.GroupWithZero.Nat
import Mathlib.Tactic.Ring

namespace LittleEndian

def bytes : ℕ → ℕ → List UInt8
  | 0, _ => []
  | w + 1, n => UInt8.ofNat n :: bytes w (n / 256)

def value : List UInt8 → ℕ
  | [] => 0
  | b :: bs => b.toNat + 256 * value bs

/-- Reading gives the number back, less what is above the bytes. -/
theorem value_bytes_mod (w n : ℕ) : value (bytes w n) = n % 256 ^ w := by
  induction w generalizing n with
  | zero => rw [Nat.pow_zero, Nat.mod_one]; rfl
  | succ w ih =>
      have hb : (UInt8.ofNat n).toNat = n % 256 := by simp
      rw [bytes, value, ih, hb, Nat.pow_succ, Nat.mul_comm (256 ^ w) 256, Nat.mod_mul]

theorem value_bytes {w n : ℕ} (h : n < 256 ^ w) : value (bytes w n) = n := by
  rw [value_bytes_mod, Nat.mod_eq_of_lt h]

end LittleEndian
