import Mathlib.Algebra.Order.Field.Power
import Mathlib.Algebra.Order.Round
import Mathlib.Data.Rat.Floor
import Mathlib.Tactic.Linarith
import Mathlib.Tactic.Positivity
import Stylesheet.Double.Dyadic

/-! The exact value of a double, and the integers next to it. -/

namespace Stylesheet

/-- The integer part of a number, cut toward zero. -/
def integerPart (q : ℚ) : ℤ :=
  if q < 0 then -⌊-q⌋ else ⌊q⌋

/-- The integer nearest to a number; a half goes away from zero. -/
def nearestInteger (q : ℚ) : ℤ :=
  if q < 0 then -⌊-q + 1 / 2⌋ else ⌊q + 1 / 2⌋

section Integers

variable {q : ℚ}

theorem integerPart_of_nonneg (nonneg : 0 ≤ q) : integerPart q = ⌊q⌋ :=
  if_neg (not_lt.mpr nonneg)

theorem integerPart_neg (q : ℚ) : integerPart (-q) = -integerPart q := by
  unfold integerPart
  rcases lt_trichotomy q 0 with negative | rfl | positive
  · rw [if_neg (by linarith), if_pos negative, neg_neg]
  · simp
  · rw [if_pos (by linarith), if_neg (by linarith), neg_neg]

theorem floor_add_half_eq_iff : ⌊q + 1 / 2⌋ = ⌊q⌋ ↔ Int.fract q < 1 / 2 := by
  rw [Int.floor_eq_iff]
  constructor
  · rintro ⟨-, below⟩
    linarith [Int.self_sub_floor q]
  · intro small
    constructor <;> linarith [Int.self_sub_floor q, Int.floor_le q]

/-- Cutting the fraction off and rounding agree for fractions below one half. -/
theorem integerPart_eq_nearestInteger_iff :
    integerPart q = nearestInteger q ↔ Int.fract |q| < 1 / 2 := by
  unfold integerPart nearestInteger
  by_cases negative : q < 0
  · rw [if_pos negative, if_pos negative, abs_of_neg negative, neg_inj, eq_comm,
      floor_add_half_eq_iff]
  · rw [if_neg negative, if_neg negative, abs_of_nonneg (not_lt.mp negative), eq_comm,
      floor_add_half_eq_iff]

/-- One less than a number has one less than its integer part, except between zero and one. -/
theorem integerPart_sub_one (q : ℚ) :
    integerPart (q - 1) = if 0 < q ∧ q < 1 then 0 else integerPart q - 1 := by
  split
  · rename_i inside
    have floor : ⌊-(q - 1)⌋ = 0 := Int.floor_eq_zero_iff.mpr ⟨by linarith, by linarith⟩
    rw [integerPart, if_pos (by linarith), floor, neg_zero]
  · rename_i outside
    rcases le_or_gt q 0 with low | high
    · have floor : ⌊-(q - 1)⌋ = ⌊-q⌋ + 1 := by
        rw [neg_sub, sub_eq_add_neg, add_comm, Int.floor_add_one]
      have part : integerPart q = -⌊-q⌋ := by
        rcases low.lt_or_eq with negative | rfl
        · exact if_pos negative
        · simp [integerPart]
      rw [part, integerPart, if_pos (by linarith), floor, neg_add, sub_eq_add_neg]
    · have above : 1 ≤ q := not_lt.mp fun below => outside ⟨high, below⟩
      rw [integerPart, integerPart, if_neg (by linarith), if_neg (by linarith), Int.floor_sub_one]

theorem integerPart_sub_one_iff :
    integerPart (q - 1) = nearestInteger q - 1 ↔
      if 0 < q ∧ q < 1 then 1 / 2 ≤ q else Int.fract |q| < 1 / 2 := by
  rw [integerPart_sub_one]
  split
  · rename_i inside
    rw [nearestInteger, if_neg (not_lt.mpr inside.1.le), eq_comm, sub_eq_zero, Int.floor_eq_iff]
    constructor
    · rintro ⟨above, -⟩
      linarith
    · intro above
      constructor <;> push_cast <;> linarith
  · rw [sub_left_inj, integerPart_eq_nearestInteger_iff]

theorem integerPart_mem (low : -2 ^ 63 - 1 < q) (high : q < 2 ^ 63) :
    -2 ^ 63 ≤ integerPart q ∧ integerPart q < 2 ^ 63 := by
  unfold integerPart
  by_cases negative : q < 0
  · rw [if_pos negative]
    have above : 0 ≤ ⌊-q⌋ := Int.floor_nonneg.mpr (by linarith)
    have below : ⌊-q⌋ < 2 ^ 63 + 1 := Int.floor_lt.mpr (by push_cast; linarith)
    omega
  · rw [if_neg negative]
    have above : 0 ≤ ⌊q⌋ := Int.floor_nonneg.mpr (not_lt.mp negative)
    have below : ⌊q⌋ < 2 ^ 63 := Int.floor_lt.mpr (by push_cast; exact high)
    omega

end Integers

namespace Double

/-- The value of a finite double. -/
def toRat (x : Double) : ℚ :=
  let size : ℚ := x.magnitude.mantissa * (2 : ℚ) ^ x.magnitude.exponent
  if x.isNegative then -size else size

theorem toRat_of_positive {x : Double} {mantissa : Nat} {exponent : Int}
    (magnitude : x.magnitude = ⟨mantissa, exponent⟩) (positive : x.isNegative = false) :
    x.toRat = mantissa * (2 : ℚ) ^ exponent := by
  rw [toRat, magnitude, positive]
  rfl

theorem abs_toRat (x : Double) :
    |x.toRat| = x.magnitude.mantissa * (2 : ℚ) ^ x.magnitude.exponent := by
  have nonneg : (0 : ℚ) ≤ x.magnitude.mantissa * (2 : ℚ) ^ x.magnitude.exponent := by positivity
  unfold toRat
  cases x.isNegative <;> simp [abs_of_nonneg nonneg]

theorem floor_abs_toRat (x : Double) : ⌊|x.toRat|⌋ =
    (if x.magnitude.exponent ≥ 0 then x.magnitude.mantissa * Nat.pow 2 x.magnitude.exponent.toNat
      else x.magnitude.mantissa / Nat.pow 2 (-x.magnitude.exponent).toNat : Nat) := by
  rw [abs_toRat]
  split
  · rename_i whole
    obtain ⟨k, isExponent⟩ := Int.eq_ofNat_of_zero_le whole
    rw [isExponent, Int.toNat_natCast, zpow_natCast]
    exact_mod_cast Int.floor_natCast (R := ℚ) _
  · rename_i fractional
    obtain ⟨k, isExponent⟩ := Int.eq_ofNat_of_zero_le (show 0 ≤ -x.magnitude.exponent by omega)
    have isExponent : x.magnitude.exponent = -(k : Int) := neg_eq_iff_eq_neg.mp isExponent
    rw [isExponent, neg_neg, Int.toNat_natCast, zpow_neg, zpow_natCast, ← div_eq_mul_inv]
    exact_mod_cast Rat.floor_natCast_div_natCast _ _

/-- The conversion to an integer cuts the exact value. -/
theorem toInt_eq (x : Double) : x.toInt = integerPart x.toRat := by
  have size : integerPart |x.toRat| = _ :=
    (integerPart_of_nonneg (abs_nonneg _)).trans (floor_abs_toRat x)
  rw [abs_toRat] at size
  unfold toInt toRat
  cases x.isNegative with
  | true =>
    simp only [if_true]
    rw [integerPart_neg, size]
  | false =>
    simp only [Bool.false_eq_true, if_false]
    exact size.symm

/-! ### The bits -/

theorem toNat_magnitudeBits (x : Double) : x.magnitudeBits.toNat = x.bits.toNat % 2 ^ 63 := by
  have mask : (~~~signBit).toNat = 2 ^ 63 - 1 := by decide
  rw [magnitudeBits, UInt64.toNat_and, mask, Nat.and_two_pow_sub_one_eq_mod]

theorem exponentField_eq (x : Double) : x.exponentField = x.bits.toNat / 2 ^ 52 % 2 ^ 11 := by
  have mask : (0x7ff : UInt64).toNat = 2 ^ 11 - 1 := by decide
  rw [exponentField, UInt64.toNat_and, mask, Nat.and_two_pow_sub_one_eq_mod, UInt64.toNat_shiftRight]
  rw [show (52 : UInt64).toNat % 64 = 52 from rfl, Nat.shiftRight_eq_div_pow]

/-- NaN and the infinities have the greatest exponent. -/
theorem exponentField_of_infinity_le {x : Double} (large : infinity.bits ≤ x.magnitudeBits) :
    x.exponentField = 2 ^ 11 - 1 := by
  have large : 0x7ff0000000000000 ≤ x.bits.toNat % 2 ^ 63 := by
    rw [← toNat_magnitudeBits]
    exact UInt64.le_iff_toNat_le.mp large
  have bound := x.bits.toNat_lt
  rw [exponentField_eq]
  omega

theorem two_pow_le_abs_toRat {x : Double} (large : infinity.bits ≤ x.magnitudeBits) :
    2 ^ 64 ≤ |x.toRat| := by
  have field := exponentField_of_infinity_le large
  have exponent : x.magnitude.exponent = ((972 : Nat) : Int) := by simp [magnitude, field]
  have mantissa : 1 ≤ x.magnitude.mantissa := by
    simp only [magnitude, field]
    exact Nat.le_add_left_of_le (Nat.one_le_two_pow)
  rw [abs_toRat, exponent, zpow_natCast]
  calc (2 : ℚ) ^ 64 ≤ 2 ^ 972 := pow_le_pow_right₀ one_le_two (by decide)
    _ = 1 * 2 ^ 972 := (one_mul _).symm
    _ ≤ _ := mul_le_mul_of_nonneg_right (by exact_mod_cast mantissa) (by positivity)

theorem magnitudeBits_lt {x : Double} (small : |x.toRat| < 2 ^ 64) :
    x.magnitudeBits < infinity.bits :=
  UInt64.not_le.mp fun large => not_le.mpr small (two_pow_le_abs_toRat large)

/-- A double that a count can reach is counted by its integer part. -/
theorem toCount_eq {x : Double} (low : -2 ^ 63 - 1 < x.toRat) (high : x.toRat < 2 ^ 63) :
    x.toCount = integerPart x.toRat := by
  have below := magnitudeBits_lt (abs_lt.mpr ⟨by linarith, by linarith⟩)
  have number : x.isNaN = false := decide_eq_false (UInt64.not_lt.mpr (UInt64.le_of_lt below))
  have finite : x.isInf = false := beq_eq_false_iff_ne.mpr (UInt64.ne_of_lt below)
  obtain ⟨above, within⟩ := integerPart_mem low high
  have power : Int.pow 2 63 = 2 ^ 63 := rfl
  rw [toCount, saturate, number, finite, toInt_eq, power]
  simp only [Bool.false_eq_true, if_false]
  omega

end Double

end Stylesheet
