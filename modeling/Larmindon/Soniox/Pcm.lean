/-
# `Soniox.Pcm` — samples as 16-bit numbers, and the numbers as bytes

    quantize       a sample clamped, scaled to 16 bits and cut off towards zero
    pcm            the numbers two bytes each, the least significant first

The bytes are read back without loss (`Records.Codec.read_write`), so all that is
lost on the way to the service is what `quantize` loses.  It scales in single
precision, and the product is rounded before it is cut off; yet it is not rounded
across an integer, so what is lost is less than one step (`quantize_near`).  Order
is kept, and the sign is not lost to an overflow, whatever the sample.
-/
import Larmindon.Agc
import Larmindon.Lib.Floats
import Larmindon.Lib.LittleEndian
import Larmindon.Lib.Records
import Larmindon.Soniox.Backend

namespace Larmindon.Soniox

open Floats (Number binary32)

/-! ## Two bytes a sample -/

theorem toLeBytes_eq (x : Int16) : toLeBytes x = LittleEndian.bytes 2 x.toUInt16.toNat := by
  simp only [toLeBytes, LittleEndian.bytes, List.cons.injEq, and_true]
  constructor
  · apply UInt8.toNat_inj.mp
    simp
  · apply UInt8.toNat_inj.mp
    simp [Nat.shiftRight_eq_div_pow]

/-- `i16::from_le_bytes`. -/
def fromLeBytes (bytes : List UInt8) : Int16 := (UInt16.ofNat (LittleEndian.value bytes)).toInt16

/-- The samples of a 16-bit stream. -/
def pcm : Records.Codec Int16 UInt8 2 where
  encode := toLeBytes
  decode := fromLeBytes
  pos := Nat.two_pos
  length_encode _ := rfl
  decode_encode x := by
    rw [toLeBytes_eq, fromLeBytes, LittleEndian.value_bytes x.toUInt16.toNat_lt, UInt16.ofNat_toNat,
      Int16.toInt16_toUInt16]

theorem f32ToPcmS16le_eq {Sample : Type} (quantize : Sample → Int16) (samples : List Sample) :
    f32ToPcmS16le quantize samples = pcm.write (samples.map quantize) := by
  rw [f32ToPcmS16le, Records.Codec.write, List.flatMap_map]
  rfl

/-! ## One sample -/

/-- `f32`. -/
abbrev Single := Number binary32

/-- A sample between the full scales. -/
def clamped (s : Single) : Single :=
  let s := if s < .ofRat (-1) then .ofRat (-1) else s
  if s > .ofRat 1 then .ofRat 1 else s

/-- Cut off towards zero. -/
def truncate (x : ℚ) : ℤ := if 0 ≤ x then ⌊x⌋ else ⌈x⌉

/-- `as i16`, which is saturated, and zero for what is not a number. -/
def asI16 : Single → Int16
  | .nan => 0
  | .infinite true => -32768
  | .infinite false => 32767
  | .finite x _ => .ofInt (max (-32768) (min (truncate x) 32767))

def quantize (s : Single) : Int16 := asI16 (clamped s * .ofRat 32767)

/-- Small integers are numbers. -/
theorem representable_intCast {k : ℤ} (h : |k| ≤ 2 ^ 24) : binary32.Representable (k : ℚ) := by
  have hgrid := Floats.Format.round_of_grid (φ := binary32) (e := 0) h (by decide)
  rw [zpow_zero, mul_one] at hgrid
  refine ⟨hgrid, ?_⟩
  have hle : |(k : ℚ)| ≤ 2 ^ 24 := by exact_mod_cast h
  exact hle.trans_lt (by norm_num [binary32])

theorem ofRat_one : ∃ h, (.ofRat 1 : Single) = .finite 1 h :=
  ⟨by exact_mod_cast representable_intCast (k := 1) (by decide), Number.ofRat_eq _⟩

theorem ofRat_neg_one : ∃ h, (.ofRat (-1) : Single) = .finite (-1) h :=
  ⟨by exact_mod_cast representable_intCast (k := -1) (by decide), Number.ofRat_eq _⟩

/-- The bounds of the clamp are in order, so it does not panic. -/
theorem clamp_eq (s : Single) : F32.clamp s (.ofRat (-1)) (.ofRat 1) = some (clamped s) := by
  have hbounds : (.ofRat (-1) : Single) ≤ .ofRat 1 := by
    obtain ⟨h, hone⟩ := ofRat_one
    obtain ⟨h', hnegone⟩ := ofRat_neg_one
    rw [hone, hnegone, Number.finite_le_finite]
    norm_num
  rw [F32.clamp, if_pos hbounds]
  rfl

/-- Where a clamped sample is between the full scales; what is not a number is silent. -/
def level : Single → ℚ
  | .nan => 0
  | .infinite true => -1
  | .infinite false => 1
  | .finite x _ => max (-1) (min x 1)

theorem level_mem (s : Single) : level s ∈ Set.Icc (-1) 1 := by
  cases s with
  | nan => constructor <;> norm_num [level]
  | infinite negative => cases negative <;> constructor <;> norm_num [level]
  | finite x => exact ⟨le_max_left _ _, max_le (by norm_num) (min_le_right _ _)⟩

theorem level_mono {s t : Single} (h : s ≤ t) : level s ≤ level t := by
  cases s with
  | nan => simp [Number.le_iff, Number.value] at h
  | infinite negative =>
      cases negative with
      | true => exact (level_mem t).1
      | false =>
          obtain rfl : t = .infinite false := by
            rcases t with _ | negative | y
            · simp [Number.le_iff, Number.value] at h
            · cases negative with
              | true => simp [Number.le_iff, Number.value] at h
              | false => rfl
            · simp [Number.le_iff, Number.value] at h
          exact le_rfl
  | finite x =>
      cases t with
      | nan => simp [Number.le_iff, Number.value] at h
      | infinite negative =>
          cases negative with
          | true => simp [Number.le_iff, Number.value] at h
          | false => exact (level_mem (.finite x _)).2
      | finite y => exact max_le_max_left _ (min_le_min_right _ (Number.finite_le_finite.mp h))

theorem clamped_nan : clamped .nan = .nan := by
  simp [clamped, Number.lt_iff, Number.value]

/-- What is a number is clamped to its level. -/
theorem clamped_eq {s : Single} (hs : s ≠ .nan) : ∃ h, clamped s = .finite (level s) h := by
  obtain ⟨hr, hone⟩ := ofRat_one
  obtain ⟨hr', hnegone⟩ := ofRat_neg_one
  rw [clamped, hone, hnegone]
  cases s with
  | nan => exact absurd rfl hs
  | infinite negative =>
      cases negative with
      | true =>
          have hlow : (.infinite true : Single) < .finite (-1) hr' := by
            simp [Number.lt_iff, Number.value, WithBot.bot_lt_coe]
          refine ⟨hr', ?_⟩
          simp only [if_pos hlow, gt_iff_lt, Number.finite_lt_finite, level]
          rw [if_neg (by norm_num)]
      | false =>
          have hlow : ¬ (.infinite false : Single) < .finite (-1) hr' := by
            simp [Number.lt_iff, Number.value]
          have hhigh : (.finite 1 hr : Single) < .infinite false := by
            simp only [Number.lt_iff, Number.value, Option.mem_def, Option.some.injEq, exists_eq_left',
              WithBot.coe_lt_coe]
            exact WithTop.coe_lt_top _
          refine ⟨hr, ?_⟩
          simp only [if_neg hlow, gt_iff_lt, if_pos hhigh, level]
  | finite x hx =>
      rcases lt_or_ge x (-1) with hlow | hlow
      · have hlevel : level (.finite x hx) = -1 := by
          rw [level, min_eq_left (by linarith), max_eq_left hlow.le]
        rw [hlevel]
        refine ⟨hr', ?_⟩
        simp only [gt_iff_lt, Number.finite_lt_finite, if_pos hlow]
        rw [if_neg (by norm_num)]
      · rcases lt_or_ge 1 x with hhigh | hhigh
        · have hlevel : level (.finite x hx) = 1 := by
            rw [level, min_eq_right hhigh.le, max_eq_right (by norm_num)]
          rw [hlevel]
          refine ⟨hr, ?_⟩
          simp only [gt_iff_lt, Number.finite_lt_finite, if_neg (not_lt.mpr hlow), if_pos hhigh]
        · have hlevel : level (.finite x hx) = x := by
            rw [level, min_eq_left hhigh, max_eq_right hlow]
          rw [hlevel]
          refine ⟨hx, ?_⟩
          simp only [gt_iff_lt, Number.finite_lt_finite, if_neg (not_lt.mpr hlow),
            if_neg (not_lt.mpr hhigh)]

/-! ## Cutting off -/

theorem truncate_of_nonneg {x : ℚ} (h : 0 ≤ x) : truncate x = ⌊x⌋ := if_pos h

theorem truncate_of_neg {x : ℚ} (h : x < 0) : truncate x = ⌈x⌉ := if_neg (not_le.mpr h)

theorem truncate_mono : Monotone truncate := by
  intro x y h
  rcases lt_or_ge x 0 with hx | hx
  · rw [truncate_of_neg hx]
    rcases lt_or_ge y 0 with hy | hy
    · rw [truncate_of_neg hy]
      exact Int.ceil_mono h
    · rw [truncate_of_nonneg hy]
      have hceil : ⌈x⌉ ≤ 0 := Int.ceil_le.mpr (by exact_mod_cast hx.le)
      exact hceil.trans (Int.floor_nonneg.mpr hy)
  · rw [truncate_of_nonneg hx, truncate_of_nonneg (hx.trans h)]
    exact Int.floor_mono h

theorem truncate_intCast (k : ℤ) : truncate (k : ℚ) = k := by
  rw [truncate, Int.floor_intCast, Int.ceil_intCast, ite_self]

theorem truncate_neg (x : ℚ) : truncate (-x) = -truncate x := by
  rcases lt_trichotomy x 0 with h | rfl | h
  · rw [truncate_of_nonneg (neg_nonneg.mpr h.le), truncate_of_neg h, Int.floor_neg]
  · rfl
  · rw [truncate_of_neg (neg_lt_zero.mpr h), truncate_of_nonneg h.le, Int.ceil_neg]

/-- `as i16` of a product, rounded and then cut off. -/
def scaled (x : ℚ) : ℤ := truncate (binary32.round x)

theorem scaled_mono : Monotone scaled := truncate_mono.comp Floats.Format.round_mono

theorem scaled_intCast {k : ℤ} (h : |k| ≤ 2 ^ 24) : scaled k = k := by
  rw [scaled, (representable_intCast h).1, truncate_intCast]

theorem scaled_neg (x : ℚ) : scaled (-x) = -scaled x := by
  rw [scaled, Floats.Format.round_neg, truncate_neg, scaled]

/-- Nothing is rounded across an integer, so that less than one is lost. -/
theorem abs_scaled_sub_lt {x : ℚ} (h : |x| < 2 ^ 24) : |(scaled x : ℚ) - x| < 1 := by
  have hx := abs_lt.mp h
  have hfloor := Int.floor_le x
  have hlt := Int.lt_floor_add_one x
  have hlow : -2 ^ 24 ≤ ⌊x⌋ := Int.le_floor.mpr (by exact_mod_cast hx.1.le)
  have hhigh : ⌊x⌋ < 2 ^ 24 := Int.floor_lt.mpr (by exact_mod_cast hx.2)
  have hdown : ⌊x⌋ ≤ scaled x := by
    have hmono := scaled_mono hfloor
    rwa [scaled_intCast (abs_le.mpr ⟨hlow, hhigh.le⟩)] at hmono
  have hup : scaled x ≤ ⌊x⌋ + 1 := by
    have hmono := scaled_mono (show x ≤ ((⌊x⌋ + 1 : ℤ) : ℚ) by push_cast; exact hlt.le)
    rwa [scaled_intCast (abs_le.mpr ⟨by omega, by omega⟩)] at hmono
  rcases hfloor.eq_or_lt with hint | hbetween
  · -- an integer is neither rounded nor cut off
    rw [← hint, scaled_intCast (abs_le.mpr ⟨hlow, hhigh.le⟩), sub_self, abs_zero]
    exact one_pos
  · have hdown' : (⌊x⌋ : ℚ) ≤ scaled x := by exact_mod_cast hdown
    have hup' : (scaled x : ℚ) ≤ ⌊x⌋ + 1 := by exact_mod_cast hup
    rw [abs_lt]
    constructor <;> linarith

/-- The level, scaled, is between the full scales of 16 bits. -/
theorem abs_level_le (s : Single) : |level s * 32767| ≤ 32767 := by
  rw [abs_mul, abs_of_pos (by norm_num : (0 : ℚ) < 32767)]
  exact mul_le_of_le_one_left (by norm_num) (abs_le.mpr (level_mem s))

/-- There it is not saturated, and does not wrap. -/
theorem toInt_ofInt_scaled {x : ℚ} (h : |x| ≤ 32767) :
    (Int16.ofInt (max (-32768) (min (scaled x) 32767))).toInt = scaled x := by
  have hx := abs_le.mp h
  have hlow : -32767 ≤ scaled x := by
    have hmono := scaled_mono hx.1
    rwa [show (-32767 : ℚ) = ((-32767 : ℤ) : ℚ) by norm_num, scaled_intCast (by decide)] at hmono
  have hhigh : scaled x ≤ 32767 := by
    have hmono := scaled_mono hx.2
    rwa [show (32767 : ℚ) = ((32767 : ℤ) : ℚ) by norm_num, scaled_intCast (by decide)] at hmono
  rw [min_eq_left hhigh, max_eq_right (by omega)]
  exact Int16.toInt_ofInt_of_le (by norm_num; omega) (by norm_num; omega)

/-! ## Quantizing -/

theorem toInt_quantize (s : Single) : (quantize s).toInt = scaled (level s * 32767) := by
  have hscale : ∃ h, (.ofRat 32767 : Single) = .finite 32767 h :=
    ⟨by exact_mod_cast representable_intCast (k := 32767) (by decide), Number.ofRat_eq _⟩
  obtain ⟨hr, hscale⟩ := hscale
  by_cases hs : s = .nan
  · obtain rfl := hs
    have hzero : scaled (level .nan * 32767) = 0 := by
      rw [level, zero_mul]
      exact_mod_cast scaled_intCast (k := 0) (by decide)
    rw [hzero, quantize, clamped_nan, hscale]
    rfl
  · obtain ⟨hlevel, hclamped⟩ := clamped_eq hs
    have hround : |binary32.round (level s * 32767)| < 2 ^ binary32.limit := by
      refine (Floats.Format.abs_round_le (y := 32767) ?_ (abs_level_le s)).trans_lt
        (by norm_num [binary32])
      exact_mod_cast (representable_intCast (k := 32767) (by decide)).1
    rw [← toInt_ofInt_scaled (abs_level_le s), quantize, hclamped, hscale]
    show (asI16 (.ofRat (level s * 32767))).toInt = _
    rw [Number.ofRat, dif_pos hround]
    rfl

theorem quantize_mono {s t : Single} (h : level s ≤ level t) :
    (quantize s).toInt ≤ (quantize t).toInt := by
  rw [toInt_quantize, toInt_quantize]
  exact scaled_mono (mul_le_mul_of_nonneg_right h (by norm_num))

/-- `y` is what 16 bits can say of the sample: less than one step off, and on the same side of zero. -/
structure Near (s : Single) (y : Int16) : Prop where
  step : |(y.toInt : ℚ) / 32767 - level s| < 1 / 32767
  positive : 0 ≤ level s → 0 ≤ y.toInt
  negative : level s ≤ 0 → y.toInt ≤ 0

theorem quantize_near (s : Single) : Near s (quantize s) := by
  have hscale : (0 : ℚ) < 32767 := by norm_num
  have hzero : (quantize .nan).toInt = 0 := by
    rw [toInt_quantize, level, zero_mul]
    exact_mod_cast scaled_intCast (k := 0) (by decide)
  refine ⟨?_, ?_, ?_⟩
  · have hstep := abs_scaled_sub_lt ((abs_level_le s).trans_lt (by norm_num))
    rw [← toInt_quantize] at hstep
    have hdiv : ((quantize s).toInt : ℚ) / 32767 - level s =
        ((quantize s).toInt - level s * 32767) / 32767 := by ring
    rw [hdiv, abs_div, abs_of_pos hscale]
    exact div_lt_div_of_pos_right hstep hscale
  · intro h
    rw [← hzero]
    exact quantize_mono h
  · intro h
    rw [← hzero]
    exact quantize_mono h

/-- `s as f32 / 32768.0`: a sample of a 16-bit source. -/
def ofSource (k : Int16) : Single := .ofRat (k.toInt / 32768)

theorem abs_toInt_le (k : Int16) : |(k.toInt : ℚ)| ≤ 32768 := by
  have hlow : (-32768 : ℚ) ≤ k.toInt := by exact_mod_cast k.le_toInt
  have hhigh : (k.toInt : ℚ) ≤ 32767 := by exact_mod_cast Int.le_of_lt_add_one k.toInt_lt
  exact abs_le.mpr ⟨hlow, hhigh.trans (by norm_num)⟩

/-- It is not rounded, nor clamped. -/
theorem level_ofSource (k : Int16) : level (ofSource k) = k.toInt / 32768 := by
  obtain ⟨hlow, hhigh⟩ := abs_le.mp (abs_toInt_le k)
  have hrep : binary32.Representable (k.toInt / 32768) := by
    have hbits : |k.toInt| ≤ 2 ^ 24 := by
      exact_mod_cast (abs_toInt_le k).trans (by norm_num : (32768 : ℚ) ≤ 2 ^ 24)
    have hgrid := Floats.Format.round_of_grid (φ := binary32) (e := -15) hbits (by decide)
    rw [show (k.toInt * 2 ^ (-15 : ℤ) : ℚ) = k.toInt / 32768 by norm_num; ring] at hgrid
    refine ⟨hgrid, ?_⟩
    have hle : |(k.toInt / 32768 : ℚ)| ≤ 1 := by
      rw [abs_div, abs_of_pos (by norm_num : (0 : ℚ) < 32768)]
      exact div_le_one_of_le₀ (abs_toInt_le k) (by norm_num)
    exact hle.trans_lt (by norm_num [binary32])
  rw [ofSource, Number.ofRat_eq hrep, level, min_eq_left, max_eq_right]
  · rw [le_div_iff₀ (by norm_num)]
    linarith
  · rw [div_le_iff₀ (by norm_num)]
    linarith

/-- What is missing from a whole number of steps is more than is rounded. -/
theorem scaled_of_pos {k : ℤ} (hk : 0 < k) (hle : k ≤ 32768) :
    scaled (k / 32768 * 32767) = k - 1 := by
  have hge : (1 : ℚ) ≤ k := by exact_mod_cast hk
  have hle' : (k : ℚ) ≤ 32768 := by exact_mod_cast hle
  generalize hx : (k / 32768 * 32767 : ℚ) = x
  have hxk : x = k - k / 32768 := by rw [← hx]; ring
  have hpos : 0 < x := by rw [← hx]; positivity
  have hdown : k - 1 ≤ scaled x := by
    have hmono := scaled_mono (show ((k - 1 : ℤ) : ℚ) ≤ x by push_cast; linarith)
    rwa [scaled_intCast (abs_le.mpr ⟨by omega, by omega⟩)] at hmono
  have hup : binary32.round x < k := by
    have hplace := Floats.Format.two_zpow_place_le_max (φ := binary32) hpos
    have hbits : x / 2 ^ (binary32.bits - 1) ≤ k / 2 ^ 23 := by
      show x / 2 ^ 23 ≤ _
      exact div_le_div_of_nonneg_right (by linarith) (by norm_num)
    have hleast : (2 : ℚ) ^ binary32.least ≤ k / 2 ^ 23 := by
      rw [le_div_iff₀ (by norm_num)]
      refine le_trans ?_ hge
      norm_num [binary32]
    have hround := (abs_le.mp (Floats.Format.abs_round_sub_le (φ := binary32) x)).2
    rw [abs_of_pos hpos] at hround
    have hlost := hplace.trans (max_le hbits hleast)
    linarith
  have hround : 0 ≤ binary32.round x := by
    rw [Floats.Format.round_of_nonneg hpos.le]
    exact Floats.Format.roundNonneg_nonneg hpos.le
  have hlt : scaled x < k := by
    rw [scaled, truncate_of_nonneg hround]
    exact Int.floor_lt.mpr hup
  omega

/-- What a 16-bit source gave comes one step closer to zero. -/
theorem quantize_source (k : Int16) : (quantize (ofSource k)).toInt = k.toInt - k.toInt.sign := by
  have hlow := k.le_toInt
  have hhigh := k.toInt_lt
  rw [toInt_quantize, level_ofSource]
  rcases lt_trichotomy k.toInt 0 with hk | hk | hk
  · have hneg := scaled_of_pos (k := -k.toInt) (by omega) (by omega)
    rw [Int.cast_neg, neg_div, neg_mul, scaled_neg] at hneg
    rw [Int.sign_eq_neg_one_of_neg hk]
    omega
  · rw [hk, Int.cast_zero, zero_div, zero_mul]
    exact_mod_cast scaled_intCast (k := 0) (by decide)
  · rw [scaled_of_pos hk (by omega), Int.sign_eq_one_of_pos hk]

/-- **What the service reads is what was captured, to less than one step of 16 bits.**  Of any samples,
infinities and what is not a number among them, the bytes are two each, and read as 16-bit numbers they
are one number a sample: less than a step off the clamped sample, never on the other side of zero, and
in the order of the samples.  The samples of a 16-bit source come one step closer to zero. -/
theorem pcm_near (samples : List Single) :
    (f32ToPcmS16le quantize samples).length = 2 * samples.length ∧
    List.Forall₂ Near samples (pcm.read (f32ToPcmS16le quantize samples)) ∧
    (∀ x ∈ samples.zip (pcm.read (f32ToPcmS16le quantize samples)),
      ∀ y ∈ samples.zip (pcm.read (f32ToPcmS16le quantize samples)),
        x.1 ≤ y.1 → x.2.toInt ≤ y.2.toInt) ∧
    ∀ source : List Int16, samples = source.map ofSource →
      (pcm.read (f32ToPcmS16le quantize samples)).map Int16.toInt =
        source.map fun k => k.toInt - k.toInt.sign := by
  rw [f32ToPcmS16le_eq, pcm.read_write, pcm.length_write, List.length_map]
  have hsame : List.Forall₂ (fun s y => y = quantize s) samples (samples.map quantize) := by
    rw [List.forall₂_map_right_iff, List.forall₂_same]
    exact fun _ _ => rfl
  refine ⟨rfl, ?_, ?_, ?_⟩
  · rw [List.forall₂_map_right_iff, List.forall₂_same]
    exact fun s _ => quantize_near s
  · intro x hx y hy h
    rw [List.forall₂_zip hsame hx, List.forall₂_zip hsame hy]
    exact quantize_mono (level_mono h)
  · rintro source rfl
    rw [List.map_map, List.map_map]
    exact List.map_congr_left fun k _ => quantize_source k

/-- The product is rounded up to the integer before it is cut off. -/
example : quantize (.ofRat (32769 / 65536)) = 16384 := by decide +kernel

end Larmindon.Soniox
