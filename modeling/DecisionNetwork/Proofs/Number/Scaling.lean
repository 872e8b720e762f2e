import DecisionNetwork.Number.Scaling
import DecisionNetwork.Proofs.Number.Magnitude
import DecisionNetwork.Proofs.Number.Notation
import Mathlib.Tactic.FieldSimp

/-!
Contract: numerals by the arithmetic of double precision.

Owns:
- `isRounded_timesPower` and `isRounded_overPower`, the quotients that are rounded in scaling;
- `Numeral.scaled_eq_toBinary64`: numerals of few digits and a small power are scaled exactly;
- `Numeral.ofDigits`, the numeral of digits before and after a point, all of which are kept if they
  fit in a word.
-/

namespace DecisionNetwork

namespace Binary64

theorem isRounded_ofNat (number : Nat) : IsRounded (ofNat number) number :=
  ⟨number, 1, one_pos, by simp, rfl⟩

theorem isRounded_powerOfTen (power : Nat) : IsRounded (powerOfTen power) (10 ^ power) := by
  have rounded := isRounded_ofNat (10 ^ power)
  rwa [Nat.cast_pow, Nat.cast_ofNat] at rounded

/-- The whole numbers below the first quotient that overflows. -/
theorem natCast_lt_overflow_iff {number : Nat} :
    (number : ℚ) < overflow ↔ number < (2 ^ 54 - 1) * 2 ^ 970 := by
  -- The power stays a symbol, so that no tactic writes it out.
  obtain ⟨places, isPlaces⟩ : ∃ places : Nat, 970 = places := ⟨970, rfl⟩
  have isUnit : (2 : ℚ) ^ (970 : ℤ) = 2 ^ places := by
    rw [← isPlaces]
    rfl
  have isFactor : (2 : ℚ) ^ 54 - 1 = (2 ^ 54 - 1 : Nat) := by norm_num
  rw [overflow, isUnit, isFactor, isPlaces]
  exact_mod_cast Iff.rfl

section Power

variable (number : Binary64) {power : Nat}

theorem isRounded_timesPower (power : Nat) :
    IsRounded (number.timesPower power) (number.size * (powerOfTen power).size) := by
  refine ⟨_, _, by positivity, ?_, rfl⟩
  have scalePositive : (0 : ℚ) < 2 ^ (-(number.exponent + (powerOfTen power).exponent)).toNat := by
    positivity
  unfold size
  push_cast
  rw [div_eq_iff scalePositive.ne', ← zpow_mul_pow_toNat two_ne_zero, zpow_add₀ two_ne_zero]
  ring

theorem isRounded_overPower (nonzero : 0 < (powerOfTen power).size) :
    IsRounded (number.overPower power) (number.size / (powerOfTen power).size) := by
  have divisorPositive : 0 < (powerOfTen power).significand := by
    refine Nat.pos_of_ne_zero fun isZero => nonzero.ne' ?_
    rw [size, isZero, Nat.cast_zero, zero_mul]
  refine ⟨_, _, by positivity, ?_, rfl⟩
  have divisorRational : (0 : ℚ) < (powerOfTen power).significand := by
    exact_mod_cast divisorPositive
  have scalePositive : (0 : ℚ) < 2 ^ (-(number.exponent - (powerOfTen power).exponent)).toNat := by
    positivity
  have divisorScale : (0 : ℚ) < 2 ^ (powerOfTen power).exponent := zpow_pos two_pos _
  unfold size
  push_cast
  rw [div_eq_div_iff (by positivity) (by positivity), ← zpow_mul_pow_toNat two_ne_zero,
    zpow_sub₀ two_ne_zero]
  field_simp

variable (within : power ≤ greatestPower)
include within

theorem ten_pow_lt_overflow : (10 : ℚ) ^ power < overflow := by
  have greatest : 10 ^ greatestPower < (2 ^ 54 - 1) * 2 ^ 970 := by decide +kernel
  have rational := natCast_lt_overflow_iff.2 greatest
  rw [Nat.cast_pow, Nat.cast_ofNat] at rational
  exact (pow_le_pow_right₀ (by norm_num) within).trans_lt rational

end Power

/-- The powers of five up to this one have 53 binary places. -/
theorem size_powerOfTen_of_small {power : Nat} (small : power ≤ 22) :
    (powerOfTen power).size = 10 ^ power := by
  have isTen : (10 : ℚ) ^ power = (5 ^ power : Nat) * 2 ^ power := by
    rw [Nat.cast_pow, Nat.cast_ofNat, ← mul_pow]
    norm_num
  have few : 5 ^ power < 2 ^ 53 := (Nat.pow_le_pow_right (by decide) small).trans_lt (by decide)
  have finite := ten_pow_lt_overflow (show power ≤ greatestPower from small.trans (by decide))
  have rounded := isRounded_powerOfTen power
  rw [isTen] at rounded finite ⊢
  exact rounded.size_of_whole few finite

theorem size_ofNat_of_small {number : Nat} (few : number < 2 ^ 53) :
    (ofNat number).size = number := by
  have isNumber : (number : ℚ) = number * 2 ^ 0 := by rw [pow_zero, mul_one]
  have finite : (number : ℚ) < overflow := by
    have bound : (number : ℚ) < 2 ^ 53 := by exact_mod_cast few
    have large : (2 : ℚ) ^ 53 ≤ 10 ^ 16 := by norm_num
    exact bound.trans (large.trans_lt (ten_pow_lt_overflow (by decide)))
  have rounded := isRounded_ofNat number
  rw [isNumber] at rounded finite ⊢
  exact rounded.size_of_whole few finite

end Binary64

namespace Numeral

open Binary64

/-- The nearest number to an unsigned numeral is its rounded size. -/
theorem isRounded_toBinary64 {numeral : Numeral} (unsigned : numeral.negative = false) :
    IsRounded numeral.toBinary64 numeral.size := by
  have scalePositive : (0 : ℚ) < 10 ^ (-numeral.exponent).toNat := by positivity
  rw [toBinary64_eq_ofRatio, unsigned]
  refine ⟨_, _, by positivity, ?_, rfl⟩
  unfold size
  push_cast
  rw [div_eq_iff scalePositive.ne', mul_assoc, zpow_mul_pow_toNat (by norm_num)]

/-- The nearest number is the rounded size with the sign. -/
theorem toBinary64_of_isRounded {numeral : Numeral} {number : Binary64}
    (rounded : IsRounded number numeral.size) :
    numeral.toBinary64 = withSign numeral.negative number.bits := by
  have unsigned : IsRounded (toBinary64 { numeral with negative := false }) numeral.size :=
    isRounded_toBinary64 rfl
  rw [toBinary64_sign, unsigned.unique rounded]

/-- A numeral is scaled exactly if its digits and its power of ten are numbers. -/
theorem scaled_eq_toBinary64 {numeral : Numeral} (few : numeral.significand < 2 ^ 53)
    (small : numeral.exponent.natAbs ≤ 22) : numeral.scaled = numeral.toBinary64 := by
  have exactDigits := size_ofNat_of_small few
  unfold scaled
  dsimp only
  split
  next whole =>
    have isPower : ((numeral.exponent.toNat : Nat) : ℤ) = numeral.exponent := by omega
    have exactPower := size_powerOfTen_of_small (show numeral.exponent.toNat ≤ 22 by omega)
    have rounded := isRounded_timesPower (ofNat numeral.significand) numeral.exponent.toNat
    rw [exactDigits, exactPower, ← zpow_natCast, isPower] at rounded
    rw [scaledUp, if_pos (by unfold greatestPower; omega)]
    exact (toBinary64_of_isRounded rounded).symm
  next fraction =>
    have isPower : (((-numeral.exponent).toNat : Nat) : ℤ) = -numeral.exponent := by omega
    have exactPower := size_powerOfTen_of_small (show (-numeral.exponent).toNat ≤ 22 by omega)
    have someSize : 0 < (powerOfTen (-numeral.exponent).toNat).size := by
      rw [exactPower]
      positivity
    have rounded := isRounded_overPower (ofNat numeral.significand) someSize
    rw [exactDigits, exactPower, ← zpow_natCast, isPower, zpow_neg, div_inv_eq_mul] at rounded
    rw [scaledDown, if_pos (show (-numeral.exponent).toNat ≤ greatestPower by
      unfold greatestPower; omega)]
    exact (toBinary64_of_isRounded rounded).symm

section LeadingDigits

theorem pow_mul_le_ofDigitChars (digits : List Char) (significand : Nat) :
    10 ^ digits.length * significand ≤ Nat.ofDigitChars 10 digits significand := by
  rw [Nat.ofDigitChars_eq_ofDigitChars_zero]
  exact Nat.le_add_right _ _

/-- Digits that fit together are all appended. -/
theorem appendDigits_of_fits {digits : List Char} {significand : Nat}
    (fits : Nat.ofDigitChars 10 digits significand < 2 ^ 64) :
    appendDigits significand digits = (Nat.ofDigitChars 10 digits significand, []) := by
  induction digits generalizing significand with
  | nil => rfl
  | cons digit rest inductionHypothesis =>
      rw [Nat.ofDigitChars_cons] at fits ⊢
      have grows := pow_mul_le_ofDigitChars rest (10 * significand + (digit.toNat - '0'.toNat))
      have scale : 0 < 10 ^ rest.length := by positivity
      have nextFits : 10 * significand + (digit.toNat - '0'.toNat) < 2 ^ 64 :=
        (Nat.le_mul_of_pos_left _ scale).trans_lt (grows.trans_lt fits)
      unfold appendDigits
      dsimp only
      rw [if_pos nextFits, inductionHypothesis fits]

variable (negative : Bool) {whole fraction : List Char} (power : Int)

/-- The numeral of digits before and after a point. -/
def ofDigits (negative : Bool) (whole fraction : List Char) (power : Int) : Numeral :=
  ⟨negative, natOfDigits (whole ++ fraction), power - fraction.length⟩

/-- Digits that fit in a word are all kept. -/
theorem ofLeadingDigits_of_fits (fits : natOfDigits (whole ++ fraction) < 2 ^ 64) :
    ofLeadingDigits negative whole fraction power = ofDigits negative whole fraction power := by
  rw [natOfDigits_append] at fits
  have wholeFits : natOfDigits whole < 2 ^ 64 :=
    (Nat.le_mul_of_pos_left _ (by positivity)).trans_lt
      ((pow_mul_le_ofDigitChars fraction _).trans_lt fits)
  have wholeTaken : appendDigits 0 whole = (natOfDigits whole, []) := appendDigits_of_fits wholeFits
  unfold ofLeadingDigits ofDigits
  rw [wholeTaken]
  dsimp only
  rw [appendDigits_of_fits fits, natOfDigits_append]
  simp

end LeadingDigits

end Numeral

end DecisionNetwork
