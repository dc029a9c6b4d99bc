/-
# `Lib.Floats` — binary floating point

A format has so many significant bits, a place below which there are none, and a limit.
Its numbers are the rationals that rounding leaves as they are, below the limit; beside
them are the infinities, and what is not a number.  A product is the exact one, rounded.

    round             to the nearest number, and of two as near to the even one
    round_of_grid     what the bits can say is not rounded
    round_mono        order is kept, so nothing is rounded across a number
    abs_round_sub_le  half a place is the most that is lost

The sign of a zero is not kept: no operation here tells the two apart, but for the
signs of zeros themselves.
-/
import Mathlib.Data.Int.Log
import Mathlib.Data.Rat.Floor
import Mathlib.Order.WithBot
import Mathlib.Tactic.Linarith

namespace Floats

/-! ## To the nearest integer -/

/-- Of two integers that are as near, the even one. -/
def roundEven (x : ℚ) : ℤ :=
  if Int.fract x < 1 / 2 then ⌊x⌋
  else if 1 / 2 < Int.fract x then ⌊x⌋ + 1
  else if Even ⌊x⌋ then ⌊x⌋ else ⌊x⌋ + 1

theorem roundEven_cases (x : ℚ) : (roundEven x = ⌊x⌋ ∧ Int.fract x ≤ 1 / 2) ∨
    (roundEven x = ⌊x⌋ + 1 ∧ 1 / 2 ≤ Int.fract x) := by
  unfold roundEven
  split
  case isTrue h => exact .inl ⟨rfl, h.le⟩
  case isFalse h =>
    split
    case isTrue h' => exact .inr ⟨rfl, h'.le⟩
    case isFalse h' =>
      split
      · exact .inl ⟨rfl, not_lt.mp h'⟩
      · exact .inr ⟨rfl, not_lt.mp h⟩

theorem roundEven_intCast (k : ℤ) : roundEven k = k := by
  have h : Int.fract (k : ℚ) < 1 / 2 := by
    rw [Int.fract_intCast]
    norm_num
  rw [roundEven, if_pos h, Int.floor_intCast]

theorem abs_roundEven_sub_le (x : ℚ) : |roundEven x - x| ≤ 1 / 2 := by
  have hsplit := Int.floor_add_fract x
  have hnonneg := Int.fract_nonneg x
  have hlt := Int.fract_lt_one x
  rcases roundEven_cases x with ⟨heq, hle⟩ | ⟨heq, hge⟩
  · rw [heq, abs_le]
    constructor <;> linarith
  · rw [heq, Int.cast_add, Int.cast_one, abs_le]
    constructor <;> linarith

theorem roundEven_mono {x y : ℚ} (h : x ≤ y) : roundEven x ≤ roundEven y := by
  rcases Int.lt_or_eq_of_le (Int.floor_mono h) with hlt | heq
  · -- there is an integer between the two
    have hx : roundEven x ≤ ⌊x⌋ + 1 := by rcases roundEven_cases x with h | h <;> omega
    have hy : ⌊y⌋ ≤ roundEven y := by rcases roundEven_cases y with h | h <;> omega
    omega
  · have hfract : Int.fract x ≤ Int.fract y := by
      rw [Int.fract, Int.fract, heq]
      exact sub_le_sub_right h _
    unfold roundEven
    rw [heq]
    split
    case isTrue hx => split <;> (try split) <;> (try split) <;> omega
    case isFalse hx =>
      rw [if_neg (show ¬ Int.fract y < 1 / 2 from fun hy => hx (hfract.trans_lt hy))]
      split
      case isTrue hx' => rw [if_pos (hx'.trans_le hfract)]
      case isFalse => split <;> split <;> omega

theorem roundEven_nonneg {x : ℚ} (h : 0 ≤ x) : 0 ≤ roundEven x := by
  have hmono := roundEven_mono h
  rwa [show (0 : ℚ) = ((0 : ℤ) : ℚ) from rfl, roundEven_intCast] at hmono

/-! ## Formats -/

structure Format where
  /-- Significant bits. -/
  bits : ℕ
  /-- The place of the last bit of the least numbers. -/
  least : ℤ
  /-- Numbers are below two to the power of this. -/
  limit : ℤ
  bits_pos : 0 < bits

/-- IEEE 754 `binary32`. -/
def binary32 : Format := ⟨24, -149, 128, by decide⟩

namespace Format

variable (φ : Format)

/-- The place of the last bit of a number. -/
def place (x : ℚ) : ℤ := max (Int.log 2 x + 1 - φ.bits) φ.least

def roundNonneg (x : ℚ) : ℚ := roundEven (x / 2 ^ φ.place x) * 2 ^ φ.place x

/-- To the nearest number, if there were no limit. -/
def round (x : ℚ) : ℚ := if 0 ≤ x then φ.roundNonneg x else -φ.roundNonneg (-x)

/-- A number of the format. -/
def Representable (x : ℚ) : Prop := φ.round x = x ∧ |x| < 2 ^ φ.limit

instance (x : ℚ) : Decidable (φ.Representable x) := inferInstanceAs (Decidable (_ ∧ _))

variable {φ} {x y : ℚ}

theorem round_of_nonneg (h : 0 ≤ x) : φ.round x = φ.roundNonneg x := if_pos h

theorem round_of_neg (h : x < 0) : φ.round x = -φ.roundNonneg (-x) := if_neg (not_le.mpr h)

theorem roundNonneg_zero : φ.roundNonneg 0 = 0 := by
  have h : roundEven 0 = 0 := roundEven_intCast 0
  rw [roundNonneg, zero_div, h, Int.cast_zero, zero_mul]

theorem round_neg (x : ℚ) : φ.round (-x) = -φ.round x := by
  rcases lt_trichotomy x 0 with h | rfl | h
  · rw [round_of_nonneg (neg_nonneg.mpr h.le), round_of_neg h, neg_neg]
  · rw [neg_zero, round_of_nonneg le_rfl, roundNonneg_zero, neg_zero]
  · rw [round_of_neg (neg_lt_zero.mpr h), round_of_nonneg h.le, neg_neg]

/-! ## What a place says -/

theorem two_zpow_pos (e : ℤ) : (0 : ℚ) < 2 ^ e := zpow_pos two_pos e

/-- A number has no more bits than the format. -/
theorem lt_two_zpow_place (x : ℚ) : x < 2 ^ (φ.place x + φ.bits) := by
  have hlog : x < 2 ^ (Int.log 2 x + 1) := by
    exact_mod_cast Int.lt_zpow_succ_log_self (R := ℚ) Nat.one_lt_two x
  refine hlog.trans_le (zpow_le_zpow_right₀ one_le_two ?_)
  have hle : Int.log 2 x + 1 - φ.bits ≤ φ.place x := le_max_left _ _
  omega

/-- Above the least numbers all of the bits are used. -/
theorem two_zpow_place_le (h : 0 < x) (hplace : φ.least < φ.place x) :
    2 ^ (φ.place x + φ.bits - 1) ≤ x := by
  have hlog : (2 : ℚ) ^ Int.log 2 x ≤ x := by
    exact_mod_cast Int.zpow_log_le_self (R := ℚ) Nat.one_lt_two h
  have heq : φ.place x + φ.bits - 1 = Int.log 2 x := by
    rw [place] at hplace ⊢
    omega
  rwa [heq]

theorem place_mono (hx : 0 < x) (h : x ≤ y) : φ.place x ≤ φ.place y := by
  have hlog := Int.log_mono_right (b := 2) hx h
  exact max_le_max_right _ (by omega)

/-- What is some of the bits at a place has its own place there, or below. -/
theorem place_le {k : ℕ} {e : ℤ} (hk : 0 < k) (hbits : k < 2 ^ φ.bits) (he : φ.least ≤ e) :
    φ.place (k * 2 ^ e) ≤ e := by
  have hpos : (0 : ℚ) < k * 2 ^ e := mul_pos (by exact_mod_cast hk) (two_zpow_pos e)
  have hlt : (k * 2 ^ e : ℚ) < ((2 : ℕ) : ℚ) ^ (φ.bits + e) := by
    rw [Nat.cast_ofNat, zpow_add₀ two_ne_zero, zpow_natCast]
    exact mul_lt_mul_of_pos_right (by exact_mod_cast hbits) (two_zpow_pos e)
  have hlog := (Int.lt_zpow_iff_log_lt Nat.one_lt_two hpos).mp hlt
  exact max_le (by omega) he

/-! ## Rounding -/

theorem roundNonneg_of_eq {m : ℤ} (h : x = m * 2 ^ φ.place x) : φ.roundNonneg x = x := by
  have hm : x / 2 ^ φ.place x = m := by
    rw [div_eq_iff (two_zpow_pos _).ne']
    exact h
  rw [roundNonneg, hm, roundEven_intCast, ← h]

/-- What the bits can say is not rounded: up to the power of two above them. -/
theorem roundNonneg_of_grid {k : ℕ} {e : ℤ} (hk : k ≤ 2 ^ φ.bits) (he : φ.least ≤ e) :
    φ.roundNonneg (k * 2 ^ e) = k * 2 ^ e := by
  have hfew : ∀ (k : ℕ) (e : ℤ), k < 2 ^ φ.bits → φ.least ≤ e →
      φ.roundNonneg (k * 2 ^ e) = k * 2 ^ e := by
    intro k e hk he
    rcases Nat.eq_zero_or_pos k with rfl | hpos
    · rw [Nat.cast_zero, zero_mul, roundNonneg_zero]
    · obtain ⟨d, hd⟩ := Int.eq_ofNat_of_zero_le (sub_nonneg.mpr (place_le hpos hk he))
      refine roundNonneg_of_eq (m := k * 2 ^ d) ?_
      generalize φ.place (k * 2 ^ e) = p at hd
      rw [show e = d + p by omega, zpow_add₀ two_ne_zero, zpow_natCast]
      push_cast
      ring
  rcases hk.lt_or_eq with hlt | rfl
  · exact hfew k e hlt he
  · have hhalf : ((2 ^ φ.bits : ℕ) * 2 ^ e : ℚ) = (2 ^ (φ.bits - 1) : ℕ) * 2 ^ (e + 1) := by
      obtain ⟨b, hb⟩ := Nat.exists_eq_add_of_lt φ.bits_pos
      rw [hb, zpow_add₀ two_ne_zero, zpow_one]
      push_cast
      simp only [pow_succ]
      ring
    rw [hhalf]
    exact hfew _ _ (Nat.pow_lt_pow_right one_lt_two (Nat.sub_one_lt φ.bits_pos.ne')) (by omega)

theorem roundNonneg_nonneg (h : 0 ≤ x) : 0 ≤ φ.roundNonneg x := by
  have hround := roundEven_nonneg (div_nonneg h (two_zpow_pos (φ.place x)).le)
  exact mul_nonneg (by exact_mod_cast hround) (two_zpow_pos _).le

/-- A number is rounded to what the bits can say at its place. -/
theorem roundNonneg_eq_grid (h : 0 ≤ x) :
    ∃ k : ℕ, k ≤ 2 ^ φ.bits ∧ φ.roundNonneg x = k * 2 ^ φ.place x := by
  have hnonneg := roundEven_nonneg (div_nonneg h (two_zpow_pos (φ.place x)).le)
  obtain ⟨k, hk⟩ := Int.eq_ofNat_of_zero_le hnonneg
  refine ⟨k, ?_, by rw [roundNonneg, hk]; rfl⟩
  have hle : x / 2 ^ φ.place x ≤ ((2 ^ φ.bits : ℕ) : ℤ) := by
    rw [div_le_iff₀ (two_zpow_pos _)]
    have hlt := lt_two_zpow_place (φ := φ) x
    rw [add_comm, zpow_add₀ two_ne_zero, zpow_natCast] at hlt
    exact_mod_cast hlt.le
  have hround := roundEven_mono hle
  rw [roundEven_intCast, hk] at hround
  exact_mod_cast hround

theorem roundNonneg_mono (hx : 0 ≤ x) (h : x ≤ y) : φ.roundNonneg x ≤ φ.roundNonneg y := by
  rcases hx.eq_or_lt with rfl | hpos
  · rw [roundNonneg_zero]
    exact roundNonneg_nonneg h
  rcases (place_mono (φ := φ) hpos h).lt_or_eq with hlt | heq
  · -- a power of two is between the two
    have hplace : φ.least < φ.place y := (le_max_right _ _).trans_lt hlt
    have hbetween := two_zpow_place_le (hpos.trans_le h) hplace
    obtain ⟨k, hk, hround⟩ := roundNonneg_eq_grid (φ := φ) hx
    have hup : φ.roundNonneg x ≤ 2 ^ (φ.place x + φ.bits) := by
      rw [hround, add_comm, zpow_add₀ two_ne_zero, zpow_natCast]
      exact mul_le_mul_of_nonneg_right (by exact_mod_cast hk) (two_zpow_pos _).le
    have hdown : (2 : ℚ) ^ (φ.place y + φ.bits - 1) ≤ φ.roundNonneg y := by
      have hpow : (2 : ℚ) ^ (φ.place y + φ.bits - 1) =
          ((2 ^ (φ.bits - 1) : ℕ) : ℤ) * 2 ^ φ.place y := by
        obtain ⟨b, hb⟩ := Nat.exists_eq_add_of_lt φ.bits_pos
        rw [hb, show φ.place y + (0 + b + 1 : ℕ) - 1 = φ.place y + b by omega,
          zpow_add₀ two_ne_zero, zpow_natCast]
        push_cast
        ring
      rw [hpow] at hbetween ⊢
      have hmono := roundEven_mono ((le_div_iff₀ (two_zpow_pos (φ.place y))).mpr hbetween)
      rw [roundEven_intCast] at hmono
      exact mul_le_mul_of_nonneg_right (by exact_mod_cast hmono) (two_zpow_pos _).le
    exact hup.trans ((zpow_le_zpow_right₀ one_le_two (by omega)).trans hdown)
  · rw [roundNonneg, roundNonneg, heq]
    have hmono := roundEven_mono (div_le_div_of_nonneg_right h (two_zpow_pos (φ.place y)).le)
    exact mul_le_mul_of_nonneg_right (by exact_mod_cast hmono) (two_zpow_pos _).le

/-- Rounding keeps order. -/
theorem round_mono : Monotone φ.round := by
  intro x y h
  rcases le_or_gt 0 x with hx | hx
  · rw [round_of_nonneg hx, round_of_nonneg (hx.trans h)]
    exact roundNonneg_mono hx h
  · rw [round_of_neg hx]
    rcases le_or_gt 0 y with hy | hy
    · rw [round_of_nonneg hy]
      have hpos := roundNonneg_nonneg (φ := φ) (neg_nonneg.mpr hx.le)
      exact (neg_nonpos.mpr hpos).trans (roundNonneg_nonneg hy)
    · rw [round_of_neg hy]
      exact neg_le_neg (roundNonneg_mono (neg_nonneg.mpr hy.le) (neg_le_neg h))

/-- What the bits can say is not rounded. -/
theorem round_of_grid {k e : ℤ} (hk : |k| ≤ 2 ^ φ.bits) (he : φ.least ≤ e) :
    φ.round (k * 2 ^ e) = k * 2 ^ e := by
  have hnat : ∀ k : ℕ, k ≤ 2 ^ φ.bits → φ.round (k * 2 ^ e) = k * 2 ^ e := by
    intro k hk
    rw [round_of_nonneg (mul_nonneg k.cast_nonneg (two_zpow_pos e).le)]
    exact roundNonneg_of_grid hk he
  obtain ⟨n, rfl | rfl⟩ := Int.eq_nat_or_neg k
  · rw [Nat.abs_cast] at hk
    exact_mod_cast hnat n (by exact_mod_cast hk)
  · rw [abs_neg, Nat.abs_cast] at hk
    rw [Int.cast_neg, neg_mul, round_neg]
    exact_mod_cast congrArg Neg.neg (hnat n (by exact_mod_cast hk))

/-- Rounded once, a number is not rounded again. -/
theorem round_round (x : ℚ) : φ.round (φ.round x) = φ.round x := by
  have hnonneg : ∀ x, 0 ≤ x → φ.round (φ.roundNonneg x) = φ.roundNonneg x := by
    intro x hx
    obtain ⟨k, hk, hround⟩ := roundNonneg_eq_grid (φ := φ) hx
    rw [hround]
    refine round_of_grid (k := k) ?_ (le_max_right _ _)
    rw [Nat.abs_cast]
    exact_mod_cast hk
  rcases le_or_gt 0 x with hx | hx
  · rw [round_of_nonneg hx]
    exact hnonneg x hx
  · rw [round_of_neg hx, round_neg, hnonneg _ (neg_nonneg.mpr hx.le)]

/-- Between a number and the one opposite, a number is rounded to one between them. -/
theorem abs_round_le (hy : φ.round y = y) (h : |x| ≤ y) : |φ.round x| ≤ y := by
  obtain ⟨hlow, hhigh⟩ := abs_le.mp h
  refine abs_le.mpr ⟨?_, ?_⟩
  · rw [← hy, ← round_neg]
    exact round_mono hlow
  · rw [← hy]
    exact round_mono hhigh

/-- Half a place is the most that rounding takes away. -/
theorem abs_round_sub_le (x : ℚ) : |φ.round x - x| ≤ 2 ^ φ.place |x| / 2 := by
  have hnonneg : ∀ x, 0 ≤ x → |φ.roundNonneg x - x| ≤ 2 ^ φ.place x / 2 := by
    intro x _
    have hpos := two_zpow_pos (φ.place x)
    have hsplit : φ.roundNonneg x - x =
        (roundEven (x / 2 ^ φ.place x) - x / 2 ^ φ.place x) * 2 ^ φ.place x := by
      rw [roundNonneg, sub_mul, div_mul_cancel₀ x hpos.ne']
    rw [hsplit, abs_mul, abs_of_pos hpos]
    calc |(roundEven (x / 2 ^ φ.place x) : ℚ) - x / 2 ^ φ.place x| * 2 ^ φ.place x
        ≤ 1 / 2 * 2 ^ φ.place x := mul_le_mul_of_nonneg_right (abs_roundEven_sub_le _) hpos.le
      _ = 2 ^ φ.place x / 2 := by ring
  rcases le_or_gt 0 x with hx | hx
  · rw [round_of_nonneg hx, abs_of_nonneg hx]
    exact hnonneg x hx
  · rw [round_of_neg hx, abs_of_neg hx]
    have h := hnonneg (-x) (neg_nonneg.mpr hx.le)
    rwa [← abs_neg, show -(-φ.roundNonneg (-x) - x) = φ.roundNonneg (-x) - -x by ring]

/-- A place is so small a part of the number, or the least there is. -/
theorem two_zpow_place_le_max (h : 0 < x) :
    (2 : ℚ) ^ φ.place x ≤ max (x / 2 ^ (φ.bits - 1)) (2 ^ φ.least) := by
  rcases (show φ.least ≤ φ.place x from le_max_right _ _).lt_or_eq with hlt | heq
  · refine le_max_of_le_left ((le_div_iff₀ (by positivity)).mpr ?_)
    have hplace := two_zpow_place_le h hlt
    obtain ⟨b, hb⟩ := Nat.exists_eq_add_of_lt φ.bits_pos
    rw [hb, show φ.place x + (0 + b + 1 : ℕ) - 1 = φ.place x + b by omega,
      zpow_add₀ two_ne_zero, zpow_natCast] at hplace
    rwa [hb, Nat.add_sub_cancel, Nat.zero_add]
  · rw [← heq]
    exact le_max_right _ _

end Format

/-! ## Numbers -/

inductive Number (φ : Format) where
  | nan
  | infinite (negative : Bool)
  | finite (x : ℚ) (representable : φ.Representable x)

namespace Number

variable {φ : Format}

/-- Rounded, and an infinity from the limit on. -/
def ofRat (x : ℚ) : Number φ :=
  if h : |φ.round x| < 2 ^ φ.limit then .finite (φ.round x) ⟨Format.round_round x, h⟩
  else .infinite (decide (x < 0))

def mul : Number φ → Number φ → Number φ
  | .nan, _ | _, .nan => .nan
  | .infinite m, .infinite n => .infinite (m ^^ n)
  | .infinite m, .finite x _ | .finite x _, .infinite m =>
      if x = 0 then .nan else .infinite (m ^^ decide (x < 0))
  | .finite x _, .finite y _ => ofRat (x * y)

instance : Mul (Number φ) := ⟨mul⟩

/-- Where a number is on the line, if it is one. -/
def value : Number φ → Option (WithBot (WithTop ℚ))
  | .nan => none
  | .infinite true => some ⊥
  | .infinite false => some ↑(⊤ : WithTop ℚ)
  | .finite x _ => some ↑(x : WithTop ℚ)

instance : LT (Number φ) := ⟨fun x y => ∃ a ∈ x.value, ∃ b ∈ y.value, a < b⟩

instance : LE (Number φ) := ⟨fun x y => ∃ a ∈ x.value, ∃ b ∈ y.value, a ≤ b⟩

instance : DecidableLT (Number φ) := fun x y =>
  inferInstanceAs (Decidable (∃ a ∈ x.value, ∃ b ∈ y.value, a < b))

instance : DecidableLE (Number φ) := fun x y =>
  inferInstanceAs (Decidable (∃ a ∈ x.value, ∃ b ∈ y.value, a ≤ b))

theorem ofRat_eq {x : ℚ} (h : φ.Representable x) : ofRat x = finite x h := by
  obtain ⟨hround, hlimit⟩ := h
  have hlt : |φ.round x| < 2 ^ φ.limit := by rwa [hround]
  rw [ofRat, dif_pos hlt]
  simp only [hround]

theorem lt_iff {x y : Number φ} : x < y ↔ ∃ a ∈ x.value, ∃ b ∈ y.value, a < b := Iff.rfl

theorem le_iff {x y : Number φ} : x ≤ y ↔ ∃ a ∈ x.value, ∃ b ∈ y.value, a ≤ b := Iff.rfl

@[simp] theorem finite_lt_finite {x y : ℚ} {hx : φ.Representable x} {hy : φ.Representable y} :
    finite x hx < finite y hy ↔ x < y := by
  simp [lt_iff, value]

@[simp] theorem finite_le_finite {x y : ℚ} {hx : φ.Representable x} {hy : φ.Representable y} :
    finite x hx ≤ finite y hy ↔ x ≤ y := by
  simp [le_iff, value]

end Number

end Floats
