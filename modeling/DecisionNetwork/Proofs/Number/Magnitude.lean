import DecisionNetwork.Proofs.Number.Rounding
import Mathlib.Tactic.Linarith
import Mathlib.Tactic.NormNum
import Mathlib.Tactic.Ring

/-!
Contract: how far rounding moves a quotient.

Owns:
- `Binary64.size`, the value of a finite number but for its sign;
- `roundQuotient_bounds`: a quotient is moved by half a unit at most;
- `size_ofRatio`, the size of a rounded quotient by its units;
- `isFinite_ofRatio_iff`: a quotient is rounded to a finite number if and only if it lies less than
  half a place above the greatest one;
- `IsRounded`, the magnitude that a quotient is rounded to;
- `IsRounded.size_of_whole`: whole numbers of 53 significant binary places are not changed.
-/

namespace DecisionNetwork.Binary64

/-- The least quotient that is not rounded to a finite number: half a place above the greatest one.
-/
def overflow : ℚ := (2 ^ 54 - 1) * 2 ^ (970 : ℤ)

/-- The value of a finite number without its sign. -/
def size (number : Binary64) : ℚ := number.significand * 2 ^ number.exponent

theorem two_zpow_next : (2 : ℚ) ^ (971 : ℤ) = 2 * 2 ^ (970 : ℤ) := by
  rw [← zpow_one_add₀ two_ne_zero]
  rfl

/-- A quotient is rounded by half a unit at most, and by less than that to an odd number. -/
theorem roundQuotient_bounds (numerator : Nat) {denominator : Nat} (positive : 0 < denominator) :
    2 * numerator ≤ denominator * (2 * roundQuotient numerator denominator + 1) ∧
      2 * (denominator * roundQuotient numerator denominator) ≤ 2 * numerator + denominator ∧
      (roundQuotient numerator denominator % 2 = 1 →
        2 * numerator < denominator * (2 * roundQuotient numerator denominator + 1)) := by
  have division := Nat.div_add_mod numerator denominator
  have remainder := Nat.mod_lt numerator positive
  unfold roundQuotient
  dsimp only
  generalize numerator / denominator = quotient at *
  generalize numerator % denominator = rest at *
  subst division
  split
  next less =>
      have below := Nat.compare_eq_lt.1 less
      refine ⟨?_, ?_, fun _ => ?_⟩ <;> linarith
  next tie =>
      have half := Nat.compare_eq_eq.1 tie
      rcases Nat.mod_two_eq_zero_or_one quotient with even | odd
      · rw [even, Nat.add_zero]
        refine ⟨?_, ?_, fun isOdd => ?_⟩
        · linarith
        · linarith
        · omega
      · rw [odd]
        refine ⟨?_, ?_, fun isOdd => ?_⟩
        · linarith
        · linarith
        · omega
  next greater =>
      have above := Nat.compare_eq_gt.1 greater
      refine ⟨?_, ?_, fun _ => ?_⟩ <;> linarith

/-- The place of the last unit of a rounded quotient. -/
def placeOf (numerator denominator : Nat) : ℤ :=
  max (leadingPower numerator denominator - 52) (-1074)

/-- The units of a rounded quotient. -/
def unitsOf (numerator denominator : Nat) : Nat :=
  roundQuotient (numerator * 2 ^ (-placeOf numerator denominator).toNat)
    (denominator * 2 ^ (placeOf numerator denominator).toNat)

section Units

variable {numerator denominator : Nat} (positive : 0 < denominator)

include positive in
theorem scaled_quotient (numerator : Nat) (place : ℤ) :
    ((numerator * 2 ^ (-place).toNat : Nat) : ℚ) / (denominator * 2 ^ place.toNat : Nat) =
      numerator / denominator / 2 ^ place := by
  have denominatorPositive : (0 : ℚ) < denominator := by exact_mod_cast positive
  have placePositive : (0 : ℚ) < 2 ^ place := zpow_pos two_pos place
  have upPositive : (0 : ℚ) < 2 ^ place.toNat := by positivity
  rw [div_div, div_eq_div_iff (by positivity) (by positivity)]
  push_cast
  rw [← zpow_mul_pow_toNat two_ne_zero place]
  ring

include positive in
/-- A rounded quotient lies within half a place of the quotient. -/
theorem unitsOf_bounds (numerator : Nat) :
    let place := placeOf numerator denominator
    (numerator : ℚ) / denominator ≤ (unitsOf numerator denominator + 1 / 2) * 2 ^ place ∧
      (unitsOf numerator denominator - 1 / 2) * 2 ^ place ≤ (numerator : ℚ) / denominator ∧
      (unitsOf numerator denominator % 2 = 1 →
        (numerator : ℚ) / denominator < (unitsOf numerator denominator + 1 / 2) * 2 ^ place) := by
  intro place
  have placePositive : (0 : ℚ) < 2 ^ place := zpow_pos two_pos place
  have scalePositive : 0 < denominator * 2 ^ place.toNat := by positivity
  obtain ⟨upper, lower, strict⟩ := roundQuotient_bounds (numerator * 2 ^ (-place).toNat)
    scalePositive
  have isUnits : roundQuotient (numerator * 2 ^ (-place).toNat) (denominator * 2 ^ place.toNat) =
      unitsOf numerator denominator := rfl
  rw [isUnits] at upper lower strict
  have quotient := scaled_quotient positive numerator place
  have rationalPositive : (0 : ℚ) < (denominator * 2 ^ place.toNat : Nat) := by
    exact_mod_cast scalePositive
  generalize numerator * 2 ^ (-place).toNat = scaledUp at *
  generalize denominator * 2 ^ place.toNat = scaledDown at *
  generalize unitsOf numerator denominator = units at *
  rw [eq_div_iff placePositive.ne'] at quotient
  rw [← quotient, mul_le_mul_iff_left₀ placePositive, mul_le_mul_iff_left₀ placePositive,
    mul_lt_mul_iff_left₀ placePositive, div_le_iff₀ rationalPositive, le_div_iff₀ rationalPositive,
    div_lt_iff₀ rationalPositive]
  have upper' : (2 * scaledUp : ℚ) ≤ scaledDown * (2 * units + 1) := by exact_mod_cast upper
  have lower' : (2 * (scaledDown * units) : ℚ) ≤ 2 * scaledUp + scaledDown := by
    exact_mod_cast lower
  refine ⟨by linarith, by linarith, fun odd => ?_⟩
  have strict' : (2 * scaledUp : ℚ) < scaledDown * (2 * units + 1) := by
    exact_mod_cast strict odd
  linarith

variable (numeratorPositive : 0 < numerator)
include positive numeratorPositive

/-- The units of a rounded quotient fill 53 places, unless it is rounded to the last place of all.
-/
theorem unitsOf_range :
    unitsOf numerator denominator ≤ 2 ^ 53 ∧
      (placeOf numerator denominator = -1074 ∨ 2 ^ 52 ≤ unitsOf numerator denominator) := by
  obtain ⟨upper, lower, -⟩ := unitsOf_bounds positive numerator
  have atLeast := (le_leadingPower_iff numeratorPositive positive
    (leadingPower numerator denominator)).1 le_rfl
  have below := not_le.1 (mt (le_leadingPower_iff numeratorPositive positive
    (leadingPower numerator denominator + 1)).2 (by omega))
  generalize isPlace : placeOf numerator denominator = place at *
  have placePositive : (0 : ℚ) < 2 ^ place := zpow_pos two_pos place
  have isMax : place = max (leadingPower numerator denominator - 52) (-1074) := isPlace.symm
  constructor
  · have wide : (2 : ℚ) ^ (leadingPower numerator denominator + 1) ≤ 2 ^ 53 * 2 ^ place := by
      rw [← zpow_natCast, ← zpow_add₀ two_ne_zero]
      exact zpow_le_zpow_right₀ one_le_two (by push_cast; omega)
    have small : (unitsOf numerator denominator - 1 / 2 : ℚ) < 2 ^ 53 :=
      lt_of_mul_lt_mul_right (lt_of_le_of_lt lower (below.trans_le wide)) placePositive.le
    have notMore : (unitsOf numerator denominator : ℚ) < 2 ^ 53 + 1 := by linarith
    exact Nat.lt_succ_iff.1 (by exact_mod_cast notMore)
  · rcases eq_or_ne place (-1074) with last | inner
    · exact Or.inl last
    · refine Or.inr ?_
      have isLeading : leadingPower numerator denominator = 52 + place := by omega
      rw [isLeading, zpow_add₀ two_ne_zero] at atLeast
      have large : (2 : ℚ) ^ (52 : ℤ) ≤ unitsOf numerator denominator + 1 / 2 :=
        le_of_mul_le_mul_right (atLeast.trans upper) placePositive
      have notLess : (2 : ℚ) ^ 52 < unitsOf numerator denominator + 1 := by
        have same : (2 : ℚ) ^ (52 : ℤ) = 2 ^ 52 := by norm_num
        linarith
      exact Nat.lt_succ_iff.1 (by exact_mod_cast notLess)

end Units

/-- A magnitude survives its sign. -/
theorem magnitude_withSign (negative : Bool) {magnitude : UInt64} (small : magnitude < signBit) :
    (withSign negative magnitude).magnitude = magnitude := by
  have bounded : magnitude.toNat < 2 ^ 63 := UInt64.lt_iff_toNat_lt.1 small
  have isSign : signBit.toNat = 2 ^ 63 := rfl
  cases negative with
  | false =>
      have unsigned : ¬ signBit ≤ magnitude := UInt64.not_le.2 small
      simp [withSign, Binary64.magnitude, isNegative, unsigned]
  | true =>
      have signed : signBit ≤ magnitude + signBit := by
        rw [UInt64.le_iff_toNat_le, UInt64.toNat_add, isSign]
        omega
      simp [withSign, Binary64.magnitude, isNegative, signed]

/-- The word of a rounded quotient without its sign. -/
def wordOf (numerator denominator : Nat) : Nat :=
  (placeOf numerator denominator + 1074).toNat * 2 ^ 52 + unitsOf numerator denominator

section Rounded

variable {numerator denominator : Nat} (negative : Bool)

theorem toNat_magnitude_ofRatio (numeratorPositive : 0 < numerator) :
    (ofRatio negative numerator denominator).magnitude.toNat =
      min (wordOf numerator denominator) infinityBits.toNat := by
  have isRounded : ofRatio negative numerator denominator =
      withSign negative (if wordOf numerator denominator < infinityBits.toNat then
        (wordOf numerator denominator).toUInt64 else infinityBits) := by
    unfold ofRatio
    rw [if_neg numeratorPositive.ne']
    rfl
  have isInfinity : infinityBits.toNat = 2047 * 2 ^ 52 := by decide
  rw [isRounded]
  split
  next below =>
      have toNat : (wordOf numerator denominator).toUInt64.toNat =
          wordOf numerator denominator := by
        rw [Nat.toUInt64, UInt64.toNat_ofNat']
        omega
      rw [magnitude_withSign, toNat]
      · omega
      · rw [UInt64.lt_iff_toNat_lt, toNat]
        have isSign : signBit.toNat = 2 ^ 63 := rfl
        omega
  next above =>
      rw [magnitude_withSign negative (by decide)]
      omega

theorem isFinite_ofRatio_iff_word (numeratorPositive : 0 < numerator) :
    (ofRatio negative numerator denominator).isFinite = true ↔
      wordOf numerator denominator < infinityBits.toNat := by
  unfold isFinite
  rw [decide_eq_true_iff, UInt64.lt_iff_toNat_lt,
    toNat_magnitude_ofRatio negative numeratorPositive]
  omega

/-- The size of a rounded quotient by its units. -/
theorem size_ofRatio (numeratorPositive : 0 < numerator) (positive : 0 < denominator)
    (finite : (ofRatio negative numerator denominator).isFinite = true) :
    (ofRatio negative numerator denominator).size =
      unitsOf numerator denominator * 2 ^ placeOf numerator denominator := by
  have isWord := @toNat_magnitude_ofRatio numerator denominator negative numeratorPositive
  rw [min_eq_left ((isFinite_ofRatio_iff_word negative numeratorPositive).1 finite).le] at isWord
  obtain ⟨most, least⟩ := unitsOf_range positive numeratorPositive
  have lastPlace : -1074 ≤ placeOf numerator denominator := le_max_right _ _
  have parts := word_eq (ofRatio negative numerator denominator)
  have small := significand_lt (ofRatio negative numerator denominator)
  have exponentLeast := exponent_ge (ofRatio negative numerator denominator)
  have normal := exponent_eq_or_significand_ge (ofRatio negative numerator denominator)
  unfold wordOf at isWord
  unfold size
  generalize (ofRatio negative numerator denominator).significand = significand at *
  generalize (ofRatio negative numerator denominator).exponent = exponent at *
  generalize placeOf numerator denominator = place at *
  generalize unitsOf numerator denominator = units at *
  rcases most.lt_or_eq with fewer | carried
  · have same : exponent = place ∧ significand = units := by
      omega
    rw [same.1, same.2]
  · have next : exponent = place + 1 ∧ significand = 2 ^ 52 := by
      omega
    rw [next.1, next.2, carried, zpow_add_one₀ two_ne_zero]
    push_cast
    ring

/-- The quotients that are rounded to finite numbers. The tie at the end goes to the even side,
which is infinite. -/
theorem isFinite_ofRatio_iff (positive : 0 < denominator) :
    (ofRatio negative numerator denominator).isFinite = true ↔
      (numerator : ℚ) / denominator < overflow := by
  have unitPositive : (0 : ℚ) < 2 ^ (970 : ℤ) := zpow_pos two_pos _
  unfold overflow
  rcases numerator.eq_zero_or_pos with rfl | numeratorPositive
  · have zero : (ofRatio negative 0 denominator).isFinite = true := by
      unfold ofRatio
      rw [if_pos rfl]
      cases negative <;> rfl
    rw [Nat.cast_zero, zero_div]
    exact iff_of_true zero (mul_pos (by norm_num) unitPositive)
  · have reached := (le_leadingPower_iff numeratorPositive positive 1024).1
    obtain ⟨upper, lower, strict⟩ := unitsOf_bounds positive numerator
    obtain ⟨most, least⟩ := unitsOf_range positive numeratorPositive
    have isPlace : placeOf numerator denominator =
        max (leadingPower numerator denominator - 52) (-1074) := rfl
    have isInfinity : infinityBits.toNat = 2047 * 2 ^ 52 := by decide
    rw [isFinite_ofRatio_iff_word negative numeratorPositive, isInfinity, wordOf]
    generalize placeOf numerator denominator = place at *
    generalize unitsOf numerator denominator = units at *
    generalize (numerator : ℚ) / denominator = quotient at *
    rcases lt_trichotomy place 971 with below | rfl | above
    · have small : (2 : ℚ) ^ place ≤ 2 ^ (970 : ℤ) :=
        zpow_le_zpow_right₀ one_le_two (by omega)
      have mostRational : (units : ℚ) ≤ 2 ^ 53 := by exact_mod_cast most
      refine iff_of_true (by omega) ?_
      calc quotient ≤ (units + 1 / 2) * 2 ^ place := upper
        _ ≤ (2 ^ 53 + 1 / 2) * 2 ^ (970 : ℤ) :=
          mul_le_mul (by linarith) small (zpow_pos two_pos _).le (by norm_num)
        _ < (2 ^ 54 - 1) * 2 ^ (970 : ℤ) := mul_lt_mul_of_pos_right (by norm_num) unitPositive
    · rw [two_zpow_next] at upper lower strict
      generalize (2 : ℚ) ^ (970 : ℤ) = unit at *
      constructor
      · intro isWord
        rcases eq_or_ne units (2 ^ 53 - 1) with rfl | differs
        · refine (strict (by decide)).trans_eq ?_
          push_cast
          ring
        · have fewer : (units : ℚ) ≤ 2 ^ 53 - 2 := by
            have bound : units + 2 ≤ 2 ^ 53 := by omega
            have rational : (units : ℚ) + 2 ≤ 2 ^ 53 := by exact_mod_cast bound
            linarith
          calc quotient ≤ (units + 1 / 2) * (2 * unit) := upper
            _ ≤ (2 ^ 53 - 2 + 1 / 2) * (2 * unit) := by gcongr
            _ < (2 ^ 54 - 1) * unit := by
              rw [← mul_assoc]
              exact mul_lt_mul_of_pos_right (by norm_num) unitPositive
      · intro below
        by_contra isInfinite
        have carried : units = 2 ^ 53 := by omega
        rw [carried] at lower
        refine absurd (lt_of_le_of_lt lower below) (not_lt.2 (le_of_eq ?_))
        push_cast
        ring
    · have leading : 1024 ≤ leadingPower numerator denominator := by omega
      refine iff_of_false (by omega) (not_lt.2 (le_trans ?_ (reached leading)))
      calc ((2 : ℚ) ^ 54 - 1) * 2 ^ (970 : ℤ) ≤ 2 ^ (54 : ℤ) * 2 ^ (970 : ℤ) :=
            mul_le_mul_of_nonneg_right (by norm_num) unitPositive.le
        _ = 2 ^ (1024 : ℤ) := by
          rw [← zpow_add₀ two_ne_zero]
          rfl

end Rounded

/-- Whole numbers of 53 significant binary places are whole numbers of units. -/
theorem unitsOf_whole {significand : Nat} (positive : 0 < significand)
    (small : significand < 2 ^ 53) (power : Nat) :
    placeOf (significand * 2 ^ power) 1 ≤ power ∧
      unitsOf (significand * 2 ^ power) 1 =
        significand * 2 ^ (power - placeOf (significand * 2 ^ power) 1).toNat := by
  have numeratorPositive : 0 < significand * 2 ^ power := by positivity
  have leading : leadingPower (significand * 2 ^ power) 1 ≤ 52 + power := by
    by_contra more
    have reached := (le_leadingPower_iff_le numeratorPositive one_pos (53 + power)).1 (by omega)
    have isWhole : ((53 : ℤ) + power).toNat = 53 + power := by omega
    have noFraction : (-((53 : ℤ) + power)).toNat = 0 := by omega
    rw [isWhole, noFraction, Nat.one_mul, Nat.pow_zero, Nat.mul_one, Nat.pow_add] at reached
    exact absurd (Nat.le_of_mul_le_mul_right reached (by positivity)) (Nat.not_le.2 small)
  have atMost : placeOf (significand * 2 ^ power) 1 ≤ power := by
    unfold placeOf
    omega
  refine ⟨atMost, ?_⟩
  unfold unitsOf
  generalize placeOf (significand * 2 ^ power) 1 = place at *
  have split : power + (-place).toNat = (power - place).toNat + place.toNat := by omega
  rw [Nat.one_mul, Nat.mul_assoc, ← Nat.pow_add, split, Nat.pow_add, ← Nat.mul_assoc,
    roundQuotient_mul_self _ (by positivity)]

/-- The number is the magnitude that the quotient is rounded to. -/
def IsRounded (number : Binary64) (quotient : ℚ) : Prop :=
  ∃ numerator denominator : Nat, 0 < denominator ∧ (numerator : ℚ) / denominator = quotient ∧
    number = ofRatio false numerator denominator

namespace IsRounded

variable {number other : Binary64} {quotient : ℚ}

theorem unique (rounded : IsRounded number quotient) (otherRounded : IsRounded other quotient) :
    number = other := by
  obtain ⟨numerator, denominator, positive, isQuotient, rfl⟩ := rounded
  obtain ⟨otherNumerator, otherDenominator, otherPositive, sameQuotient, rfl⟩ := otherRounded
  have nonzero : (denominator : ℚ) ≠ 0 := by exact_mod_cast positive.ne'
  have otherNonzero : (otherDenominator : ℚ) ≠ 0 := by exact_mod_cast otherPositive.ne'
  apply ofRatio_congr false positive otherPositive
  rw [← sameQuotient, div_eq_div_iff nonzero otherNonzero] at isQuotient
  exact_mod_cast isQuotient

theorem isFinite_iff (rounded : IsRounded number quotient) :
    number.isFinite = true ↔ quotient < overflow := by
  obtain ⟨numerator, denominator, positive, rfl, rfl⟩ := rounded
  exact isFinite_ofRatio_iff false positive

/-- Whole numbers of 53 significant binary places are not changed by rounding. -/
theorem size_of_whole {significand power : Nat} (small : significand < 2 ^ 53)
    (rounded : IsRounded number (significand * 2 ^ power))
    (finite : (significand * 2 ^ power : ℚ) < overflow) :
    number.size = significand * 2 ^ power := by
  have whole : IsRounded (ofRatio false (significand * 2 ^ power) 1) (significand * 2 ^ power) :=
    ⟨significand * 2 ^ power, 1, one_pos, by simp, rfl⟩
  have isFinite := whole.isFinite_iff.2 finite
  rw [rounded.unique whole]
  rcases significand.eq_zero_or_pos with rfl | positive
  · rw [Nat.zero_mul, Nat.cast_zero, zero_mul]
    simp [size, ofRatio, significand, magnitude, withSign, isNegative, signBit]
  · obtain ⟨atMost, isUnits⟩ := unitsOf_whole positive small power
    have numeratorPositive : 0 < significand * 2 ^ power := by positivity
    rw [size_ofRatio false numeratorPositive one_pos isFinite, isUnits]
    generalize placeOf (significand * 2 ^ power) 1 = place at *
    obtain ⟨further, isFurther⟩ := Int.eq_ofNat_of_zero_le (show 0 ≤ power - place by omega)
    have isPower : (power : ℤ) = further + place := by omega
    have joined : (2 : ℚ) ^ power = 2 ^ further * 2 ^ place := by
      rw [← zpow_natCast, isPower, zpow_add₀ two_ne_zero, zpow_natCast]
    rw [isFurther, Int.toNat_natCast, joined]
    push_cast
    ring

end IsRounded

end DecisionNetwork.Binary64
