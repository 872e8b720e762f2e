import DecisionNetwork.Number.Binary64
import Mathlib.Algebra.Order.Field.Rat
import Mathlib.Data.Int.Log
import Mathlib.Data.Rat.Floor
import Mathlib.Tactic.FieldSimp
import Mathlib.Tactic.Positivity

/-!
Contract: rounding of a quotient to the nearest double-precision number.

Owns:
- `leadingPower_eq_log`, the leading power of two as a logarithm;
- `ofRatio_congr`: rounding depends on the quotient alone;
- `ofRatio_of_huge` and `ofRatio_of_tiny`, the quotients that overflow and vanish;
- `ofRatio_eq_withSign`: a finite number that is written as a quotient is not changed.
-/

namespace DecisionNetwork.Binary64

/-- A power with an integer exponent as a quotient of powers with natural exponents. -/
theorem zpow_mul_pow_toNat {base : ℚ} (nonzero : base ≠ 0) (power : ℤ) :
    base ^ power * base ^ (-power).toNat = base ^ power.toNat := by
  rw [← zpow_natCast, ← zpow_natCast, ← zpow_add₀ nonzero]
  congr 1
  omega

theorem pow_toNat_le_iff {numerator denominator : Nat} (positive : 0 < denominator) (power : ℤ) :
    denominator * 2 ^ power.toNat ≤ numerator * 2 ^ (-power).toNat ↔
      (2 : ℚ) ^ power ≤ (numerator : ℚ) / denominator := by
  have denominatorPositive : (0 : ℚ) < denominator := by exact_mod_cast positive
  have scalePositive : (0 : ℚ) < 2 ^ (-power).toNat := by positivity
  rw [le_div_iff₀ denominatorPositive, ← mul_le_mul_iff_left₀ scalePositive, mul_right_comm,
    zpow_mul_pow_toNat two_ne_zero, mul_comm ((2 : ℚ) ^ power.toNat)]
  exact_mod_cast Iff.rfl

section LeadingPower

variable {numerator denominator : Nat} (numeratorPositive : 0 < numerator)
  (denominatorPositive : 0 < denominator)
include numeratorPositive denominatorPositive

private theorem quotient_bounds :
    (2 : ℚ) ^ ((numerator.log2 : ℤ) - denominator.log2 - 1) < (numerator : ℚ) / denominator ∧
      (numerator : ℚ) / denominator < 2 ^ ((numerator.log2 : ℤ) - denominator.log2 + 1) := by
  have numeratorLower : (2 : ℚ) ^ numerator.log2 ≤ numerator := by
    exact_mod_cast Nat.log2_self_le numeratorPositive.ne'
  have numeratorUpper : (numerator : ℚ) < 2 ^ (numerator.log2 + 1) := by
    exact_mod_cast Nat.lt_log2_self
  have denominatorLower : (2 : ℚ) ^ denominator.log2 ≤ denominator := by
    exact_mod_cast Nat.log2_self_le denominatorPositive.ne'
  have denominatorUpper : (denominator : ℚ) < 2 ^ (denominator.log2 + 1) := by
    exact_mod_cast Nat.lt_log2_self
  have positive : (0 : ℚ) < denominator := by exact_mod_cast denominatorPositive
  constructor
  · rw [lt_div_iff₀ positive]
    calc (2 : ℚ) ^ ((numerator.log2 : ℤ) - denominator.log2 - 1) * denominator
        < 2 ^ ((numerator.log2 : ℤ) - denominator.log2 - 1) * 2 ^ (denominator.log2 + 1) := by
          exact mul_lt_mul_of_pos_left denominatorUpper (zpow_pos two_pos _)
      _ = 2 ^ numerator.log2 := by
          rw [← zpow_natCast, ← zpow_natCast, ← zpow_add₀ two_ne_zero]
          congr 1
          push_cast
          omega
      _ ≤ numerator := numeratorLower
  · rw [div_lt_iff₀ positive]
    calc (numerator : ℚ) < 2 ^ (numerator.log2 + 1) := numeratorUpper
      _ = 2 ^ ((numerator.log2 : ℤ) - denominator.log2 + 1) * 2 ^ denominator.log2 := by
          rw [← zpow_natCast, ← zpow_natCast, ← zpow_add₀ two_ne_zero]
          congr 1
          push_cast
          omega
      _ ≤ 2 ^ ((numerator.log2 : ℤ) - denominator.log2 + 1) * denominator :=
          mul_le_mul_of_nonneg_left denominatorLower (zpow_pos two_pos _).le

theorem leadingPower_eq_log :
    leadingPower numerator denominator = Int.log 2 ((numerator : ℚ) / denominator) := by
  have positive : (0 : ℚ) < (numerator : ℚ) / denominator :=
    div_pos (by exact_mod_cast numeratorPositive) (by exact_mod_cast denominatorPositive)
  obtain ⟨lower, upper⟩ := quotient_bounds numeratorPositive denominatorPositive
  have log_ge (power : ℤ) : (2 : ℚ) ^ power ≤ (numerator : ℚ) / denominator ↔
      power ≤ Int.log 2 ((numerator : ℚ) / denominator) := by
    exact_mod_cast Int.zpow_le_iff_le_log one_lt_two positive
  have log_lt (power : ℤ) : (numerator : ℚ) / denominator < (2 : ℚ) ^ power ↔
      Int.log 2 ((numerator : ℚ) / denominator) < power := by
    exact_mod_cast Int.lt_zpow_iff_log_lt one_lt_two positive
  have atLeast := (log_ge _).1 lower.le
  have below := (log_lt _).1 upper
  unfold leadingPower
  dsimp only
  split
  next reached =>
      have reachedLog := (log_ge _).1 ((pow_toNat_le_iff denominatorPositive _).1 reached)
      omega
  next missed =>
      have missedLog := (log_lt _).1
        (not_le.1 (mt (pow_toNat_le_iff denominatorPositive _).2 missed))
      omega

theorem le_leadingPower_iff (power : ℤ) :
    power ≤ leadingPower numerator denominator ↔
      (2 : ℚ) ^ power ≤ (numerator : ℚ) / denominator := by
  have positive : (0 : ℚ) < (numerator : ℚ) / denominator :=
    div_pos (by exact_mod_cast numeratorPositive) (by exact_mod_cast denominatorPositive)
  rw [leadingPower_eq_log numeratorPositive denominatorPositive]
  exact_mod_cast (Int.zpow_le_iff_le_log one_lt_two positive).symm

theorem le_leadingPower_iff_le (power : ℤ) :
    power ≤ leadingPower numerator denominator ↔
      denominator * 2 ^ power.toNat ≤ numerator * 2 ^ (-power).toNat := by
  rw [le_leadingPower_iff numeratorPositive denominatorPositive,
    pow_toNat_le_iff denominatorPositive]

end LeadingPower

theorem roundQuotient_mul (numerator denominator : Nat) {factor : Nat} (positive : 0 < factor) :
    roundQuotient (numerator * factor) (denominator * factor) =
      roundQuotient numerator denominator := by
  have compared : compare (2 * (numerator % denominator * factor)) (denominator * factor) =
      compare (2 * (numerator % denominator)) denominator := by
    rw [← mul_assoc]
    simp only [compare, compareOfLessAndEq, Nat.mul_lt_mul_right positive,
      Nat.mul_left_inj positive.ne']
  unfold roundQuotient
  rw [Nat.mul_div_mul_right _ _ positive, Nat.mul_mod_mul_right]
  dsimp only
  rw [compared]

theorem div_le_roundQuotient (numerator denominator : Nat) :
    numerator / denominator ≤ roundQuotient numerator denominator := by
  unfold roundQuotient
  dsimp only
  split <;> omega

theorem roundQuotient_of_lt {numerator denominator : Nat} (tiny : 2 * numerator < denominator) :
    roundQuotient numerator denominator = 0 := by
  have small : numerator < denominator := by omega
  unfold roundQuotient
  rw [Nat.div_eq_of_lt small, Nat.mod_eq_of_lt small, Nat.compare_eq_lt.2 tiny]

theorem roundQuotient_mul_self (number : Nat) {denominator : Nat} (positive : 0 < denominator) :
    roundQuotient (number * denominator) denominator = number := by
  unfold roundQuotient
  rw [Nat.mul_div_cancel number positive, Nat.mul_mod_left, Nat.compare_eq_lt.2 (by omega)]

theorem ofRatio_mul (negative : Bool) (numerator : Nat) {denominator factor : Nat}
    (denominatorPositive : 0 < denominator) (factorPositive : 0 < factor) :
    ofRatio negative (numerator * factor) (denominator * factor) =
      ofRatio negative numerator denominator := by
  rcases numerator.eq_zero_or_pos with rfl | numeratorPositive
  · simp [ofRatio]
  · have samePower : leadingPower (numerator * factor) (denominator * factor) =
        leadingPower numerator denominator := by
      rw [leadingPower_eq_log (by positivity) (by positivity),
        leadingPower_eq_log numeratorPositive denominatorPositive]
      have factorNonzero : (factor : ℚ) ≠ 0 := by exact_mod_cast factorPositive.ne'
      push_cast
      rw [mul_div_mul_right _ _ factorNonzero]
    have sameRounding (left right : Nat) :
        roundQuotient (numerator * factor * left) (denominator * factor * right) =
          roundQuotient (numerator * left) (denominator * right) := by
      rw [Nat.mul_right_comm, Nat.mul_right_comm denominator]
      exact roundQuotient_mul _ _ factorPositive
    unfold ofRatio
    rw [if_neg (by positivity), if_neg numeratorPositive.ne', samePower]
    dsimp only
    rw [sameRounding]

theorem withSign_false_bits (magnitude : UInt64) : (withSign false magnitude).bits = magnitude :=
  rfl

/-- The sign does not take part in rounding. -/
theorem ofRatio_sign (negative : Bool) (numerator denominator : Nat) :
    ofRatio negative numerator denominator =
      withSign negative (ofRatio false numerator denominator).bits := by
  unfold ofRatio
  dsimp only
  split
  next => rw [withSign_false_bits]
  next => rw [withSign_false_bits]

/-- Rounding depends on the quotient alone. -/
theorem ofRatio_congr (negative : Bool)
    {numerator denominator otherNumerator otherDenominator : Nat}
    (positive : 0 < denominator) (otherPositive : 0 < otherDenominator)
    (same : numerator * otherDenominator = otherNumerator * denominator) :
    ofRatio negative numerator denominator =
      ofRatio negative otherNumerator otherDenominator := by
  rw [← ofRatio_mul negative numerator positive otherPositive, same,
    ← ofRatio_mul negative otherNumerator otherPositive positive,
    Nat.mul_comm denominator]

section Range

variable {numerator denominator : Nat} (negative : Bool) (positive : 0 < denominator)
include positive

/-- Quotients past the greatest finite number are infinite. -/
theorem ofRatio_of_huge (huge : denominator * 2 ^ 1024 ≤ numerator) :
    ofRatio negative numerator denominator = withSign negative infinityBits := by
  have numeratorPositive : 0 < numerator := Nat.lt_of_lt_of_le (by positivity) huge
  have powerLarge : 1024 ≤ leadingPower numerator denominator := by
    rw [le_leadingPower_iff_le numeratorPositive positive, show (1024 : ℤ).toNat = 1024 from rfl,
      show (-1024 : ℤ).toNat = 0 from rfl, pow_zero, mul_one]
    exact huge
  have reached := (le_leadingPower_iff_le numeratorPositive positive _).1 le_rfl
  obtain ⟨above, isAbove⟩ := Int.eq_ofNat_of_zero_le
    (show 0 ≤ leadingPower numerator denominator - 52 by omega)
  have noScale : (-leadingPower numerator denominator).toNat = 0 := by omega
  have wholeScale : (leadingPower numerator denominator).toNat = above + 52 := by omega
  rw [noScale, wholeScale, pow_add, ← mul_assoc, pow_zero, mul_one] at reached
  have significant : 2 ^ 52 ≤ numerator / (denominator * 2 ^ above) := by
    rw [Nat.le_div_iff_mul_le (by positivity), Nat.mul_comm]
    exact reached
  have rounded := significant.trans (div_le_roundQuotient numerator (denominator * 2 ^ above))
  have place : max (leadingPower numerator denominator - 52) (-1074) = above := by omega
  have isInfinity : infinityBits.toNat = 2047 * 2 ^ 52 := by decide
  have noFraction : (-(above : ℤ)).toNat = 0 := by omega
  have isPlace : ((above : ℤ) + 1074).toNat = above + 1074 := by omega
  unfold ofRatio
  rw [if_neg numeratorPositive.ne', place]
  dsimp only
  rw [if_neg]
  rw [isInfinity, noFraction, isPlace, pow_zero, mul_one, Int.toNat_natCast]
  omega

/-- Quotients below half of the least positive number vanish. -/
theorem ofRatio_of_tiny (tiny : 2 * (numerator * 2 ^ 1074) < denominator) :
    ofRatio negative numerator denominator = withSign negative 0 := by
  rcases numerator.eq_zero_or_pos with rfl | numeratorPositive
  · rfl
  · have powerSmall : ¬ -1074 ≤ leadingPower numerator denominator := by
      rw [le_leadingPower_iff_le numeratorPositive positive, show (-1074 : ℤ).toNat = 0 from rfl,
        show (- -1074 : ℤ).toNat = 1074 from rfl, pow_zero, mul_one]
      generalize numerator * 2 ^ 1074 = units at tiny
      omega
    obtain ⟨place, isPlace⟩ : ∃ place : ℤ, place = -1074 := ⟨-1074, rfl⟩
    have leastPlace : max (leadingPower numerator denominator - 52) (-1074) = place := by omega
    have vanishes : roundQuotient (numerator * 2 ^ (-place).toNat) (denominator * 2 ^ place.toNat)
        = 0 := by
      apply roundQuotient_of_lt
      rw [isPlace, show (-1074 : ℤ).toNat = 0 from rfl, show (- -1074 : ℤ).toNat = 1074 from rfl,
        pow_zero, mul_one]
      exact tiny
    unfold ofRatio
    rw [if_neg numeratorPositive.ne', leastPlace]
    dsimp only
    rw [vanishes, isPlace]
    rfl

end Range

section Exact

variable (number : Binary64)

theorem significand_lt : number.significand < 2 ^ 53 := by
  unfold significand
  dsimp only
  split <;> omega

theorem exponent_ge : -1074 ≤ number.exponent := by
  unfold exponent
  omega

/-- The place and the significand make up the word of a magnitude. -/
theorem word_eq :
    (number.exponent + 1074).toNat * 2 ^ 52 + number.significand = number.magnitude.toNat := by
  unfold significand exponent
  dsimp only
  split <;> omega

theorem exponent_eq_or_significand_ge :
    number.exponent = -1074 ∨ 2 ^ 52 ≤ number.significand := by
  unfold significand exponent
  dsimp only
  split <;> omega

theorem significand_eq_zero_iff : number.significand = 0 ↔ number.magnitude = 0 := by
  rw [← UInt64.toNat_inj]
  unfold significand
  dsimp only
  split
  next => simp
  next => simp; omega

theorem ratio_eq : ((number.significand * 2 ^ number.exponent.toNat : Nat) : ℚ) /
    (2 ^ (-number.exponent).toNat : Nat) = number.significand * 2 ^ number.exponent := by
  have scalePositive : (0 : ℚ) < 2 ^ (-number.exponent).toNat := by positivity
  push_cast
  rw [div_eq_iff scalePositive.ne', mul_assoc, zpow_mul_pow_toNat two_ne_zero]

theorem le_leadingPower_ratio_iff (positive : 0 < number.significand) (power : Nat) :
    (power : ℤ) + number.exponent ≤
        leadingPower (number.significand * 2 ^ number.exponent.toNat)
          (2 ^ (-number.exponent).toNat) ↔
      2 ^ power ≤ number.significand := by
  have scalePositive : (0 : ℚ) < 2 ^ number.exponent := zpow_pos two_pos _
  rw [le_leadingPower_iff (by positivity) (by positivity), ratio_eq, zpow_add₀ two_ne_zero,
    mul_le_mul_iff_left₀ scalePositive, zpow_natCast]
  exact_mod_cast Iff.rfl

/-- A number that is written as a quotient is not changed by rounding. -/
theorem ofRatio_eq_withSign (negative : Bool) (finite : number.isFinite = true) :
    ofRatio negative (number.significand * 2 ^ number.exponent.toNat)
        (2 ^ (-number.exponent).toNat) =
      withSign negative number.magnitude := by
  rcases number.significand.eq_zero_or_pos with zero | positive
  · rw [zero, (significand_eq_zero_iff number).1 zero, Nat.zero_mul]
    rfl
  · have upper := mt (le_leadingPower_ratio_iff number positive 53).1
      (Nat.not_le.2 (significand_lt number))
    have lower := le_leadingPower_ratio_iff number positive 52
    have place : max (leadingPower (number.significand * 2 ^ number.exponent.toNat)
        (2 ^ (-number.exponent).toNat) - 52) (-1074) = number.exponent := by
      have least := exponent_ge number
      rcases exponent_eq_or_significand_ge number with isLeast | large
      · by_cases large : 2 ^ 52 ≤ number.significand
        · have reached := lower.2 large
          omega
        · have missed := mt lower.1 large
          omega
      · have reached := lower.2 large
        omega
    have below : number.magnitude.toNat < infinityBits.toNat :=
      UInt64.lt_iff_toNat_lt.1 (of_decide_eq_true finite)
    unfold ofRatio
    rw [if_neg (by positivity), place]
    dsimp only
    rw [Nat.mul_assoc, Nat.mul_comm (2 ^ (-number.exponent).toNat),
      roundQuotient_mul_self _ (by positivity), word_eq, if_pos below]
    simp

end Exact

end DecisionNetwork.Binary64
