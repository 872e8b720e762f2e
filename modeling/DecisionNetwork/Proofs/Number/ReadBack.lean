import DecisionNetwork.Number.Shortest
import DecisionNetwork.Proofs.Number.Rounding

/-!
Contract: the decimals chosen for a number are read as that number.

Owns:
- `Numeral.size`, the value of a numeral but for its sign;
- `Numeral.toBinary64_congr`: the number of a numeral depends on its sign and size alone;
- `Numeral.toBinary64_of_size_eq`: a numeral of the size of a finite number is read as it;
- `Digits.readsBack_shortest`, for the digits under either tie.
-/

namespace DecisionNetwork

namespace Numeral

/-- The value of a numeral without its sign. -/
def size (numeral : Numeral) : ℚ := numeral.significand * 10 ^ numeral.exponent

private theorem two_pow_le_ten_pow {left right : Nat} (within : left ≤ 3 * right) :
    2 ^ left ≤ 10 ^ right :=
  calc 2 ^ left ≤ 2 ^ (3 * right) := Nat.pow_le_pow_right (by decide) within
    _ = 8 ^ right := Nat.pow_mul 2 3 right
    _ ≤ 10 ^ right := Nat.pow_le_pow_left (by decide) right

/-- The limits on the exponent change no result. -/
theorem toBinary64_eq_ofRatio (numeral : Numeral) :
    numeral.toBinary64 =
      Binary64.ofRatio numeral.negative (numeral.significand * 10 ^ numeral.exponent.toNat)
        (10 ^ (-numeral.exponent).toNat) := by
  unfold toBinary64 exponentLimit
  split
  next zero => rw [zero, Nat.zero_mul]; rfl
  next nonzero =>
    have positive : 0 < numeral.significand := Nat.pos_of_ne_zero nonzero
    split
    next huge =>
        have noFraction : (-numeral.exponent).toNat = 0 := by omega
        refine (Binary64.ofRatio_of_huge _ (by positivity) ?_).symm
        calc 10 ^ (-numeral.exponent).toNat * 2 ^ 1024 = 2 ^ 1024 := by
              rw [noFraction, Nat.pow_zero, Nat.one_mul]
          _ ≤ 10 ^ numeral.exponent.toNat := two_pow_le_ten_pow (by omega)
          _ ≤ numeral.significand * 10 ^ numeral.exponent.toNat := Nat.le_mul_of_pos_left _ positive
    next =>
      split
      next tiny =>
          have whole : numeral.exponent.toNat = 0 := by omega
          have significandLt : numeral.significand < 2 ^ (numeral.significand.log2 + 1) :=
            Nat.lt_log2_self
          refine (Binary64.ofRatio_of_tiny _ (by positivity) ?_).symm
          rw [whole, Nat.pow_zero, Nat.mul_one]
          calc 2 * (numeral.significand * 2 ^ 1074)
              < 2 * (2 ^ (numeral.significand.log2 + 1) * 2 ^ 1074) := by
                exact Nat.mul_lt_mul_of_pos_left
                  (Nat.mul_lt_mul_of_pos_right significandLt (by positivity)) two_pos
            _ = 2 ^ (1 + (numeral.significand.log2 + 1 + 1074)) := by
                rw [Nat.pow_add 2 1, Nat.pow_add 2 (numeral.significand.log2 + 1) 1074, Nat.pow_one]
            _ ≤ 10 ^ (-numeral.exponent).toNat := two_pow_le_ten_pow (by omega)
      next => rfl

/-- The number of a numeral depends on its sign and size alone. -/
theorem toBinary64_congr {left right : Numeral} (sameSign : left.negative = right.negative)
    (sameSize : left.size = right.size) : left.toBinary64 = right.toBinary64 := by
  have leftPositive : (0 : ℚ) < 10 ^ (-left.exponent).toNat := by positivity
  have rightPositive : (0 : ℚ) < 10 ^ (-right.exponent).toNat := by positivity
  have tenNonzero : (10 : ℚ) ≠ 0 := by norm_num
  rw [toBinary64_eq_ofRatio, toBinary64_eq_ofRatio, sameSign]
  apply Binary64.ofRatio_congr _ (by positivity) (by positivity)
  unfold size at sameSize
  have crossed : (left.significand * 10 ^ left.exponent.toNat : ℚ) * 10 ^ (-right.exponent).toNat =
      right.significand * 10 ^ right.exponent.toNat * 10 ^ (-left.exponent).toNat := by
    rw [← Binary64.zpow_mul_pow_toNat tenNonzero left.exponent,
      ← Binary64.zpow_mul_pow_toNat tenNonzero right.exponent, ← mul_assoc, sameSize]
    ring
  exact_mod_cast crossed

/-- The sign of a numeral is that of its number, and its magnitude does not depend on it. -/
theorem toBinary64_sign (numeral : Numeral) :
    numeral.toBinary64 = Binary64.withSign numeral.negative
      (toBinary64 { numeral with negative := false }).bits := by
  rw [toBinary64_eq_ofRatio, toBinary64_eq_ofRatio]
  exact Binary64.ofRatio_sign _ _ _

/-- A numeral of the size of a finite number is read as that number, but for the sign. -/
theorem toBinary64_of_size_eq {numeral : Numeral} {number : Binary64}
    (finite : number.isFinite = true)
    (sameSize : numeral.size = number.significand * 2 ^ number.exponent) :
    numeral.toBinary64 = Binary64.withSign numeral.negative number.magnitude := by
  have scalePositive : (0 : ℚ) < 2 ^ (-number.exponent).toNat := by positivity
  have tenNonzero : (10 : ℚ) ≠ 0 := by norm_num
  rw [toBinary64_eq_ofRatio, ← Binary64.ofRatio_eq_withSign number numeral.negative finite]
  apply Binary64.ofRatio_congr _ (by positivity) (by positivity)
  unfold size at sameSize
  have crossed : (numeral.significand * 10 ^ numeral.exponent.toNat : ℚ) *
      2 ^ (-number.exponent).toNat =
      number.significand * 2 ^ number.exponent.toNat * 10 ^ (-numeral.exponent).toNat := by
    rw [← Binary64.zpow_mul_pow_toNat tenNonzero numeral.exponent,
      ← Binary64.zpow_mul_pow_toNat two_ne_zero number.exponent, ← mul_assoc, sameSize]
    ring
  exact_mod_cast crossed

end Numeral

namespace Digits

open Binary64

theorem size_dropZeros (significand : Nat) (exponent : Int) :
    (dropZeros significand exponent).toNumeral.size = significand * 10 ^ exponent := by
  fun_induction dropZeros significand exponent with
  | case1 exponent => simp [toNumeral, Numeral.size]
  | case2 significand exponent nonzero divisible inductionHypothesis =>
      have split : ((significand / 10 : Nat) : ℚ) * 10 = significand := by
        exact_mod_cast Nat.div_mul_cancel (Nat.dvd_of_mod_eq_zero divisible)
      rw [inductionHypothesis, zpow_add_one₀ (by norm_num), mul_comm ((10 : ℚ) ^ exponent),
        ← mul_assoc, split]
  | case3 significand exponent nonzero ends => rfl

theorem size_exact (number : Binary64) :
    (exact number).toNumeral.size = number.significand * 2 ^ number.exponent := by
  unfold exact
  split
  next whole =>
      obtain ⟨power, isPower⟩ := Int.eq_ofNat_of_zero_le whole
      simp [toNumeral, Numeral.size, isPower]
  next fraction =>
      obtain ⟨power, isPower⟩ := Int.eq_ofNat_of_zero_le (show 0 ≤ -number.exponent by omega)
      have isExponent : number.exponent = -(power : Int) := by omega
      have isTen : (10 : ℚ) ^ power = 5 ^ power * 2 ^ power := by rw [← mul_pow]; norm_num
      simp only [toNumeral, Numeral.size, isExponent, neg_neg, Int.toNat_natCast, zpow_neg,
        zpow_natCast, isTen]
      push_cast
      field_simp

theorem readsBack_of_onGrid? {tie : Tie} {number : Binary64} {place : Int} {digits : Digits}
    (found : onGrid? tie number place = some digits) : readsBack number digits = true := by
  unfold onGrid? at found
  dsimp only at found
  split at found
  next => cases found
  next belowReads _ => cases found; exact belowReads
  next _ aboveReads => cases found; exact aboveReads
  next belowReads aboveReads =>
    split at found
    next => cases found; exact belowReads
    next => cases found; exact aboveReads
    next => cases found; exact aboveReads
    next =>
      split at found
      next => cases found; exact belowReads
      next => cases found; exact aboveReads

theorem readsBack_exact {number : Binary64} (finite : number.isFinite = true) :
    readsBack number (exact number) = true := by
  have read := Numeral.toBinary64_of_size_eq finite (size_exact number)
  unfold readsBack
  rw [read]
  exact beq_self_eq_true _

/-- The shortest digits of a finite number are read as its magnitude. -/
theorem readsBack_shortest (tie : Tie) {number : Binary64} (finite : number.isFinite = true) :
    readsBack number (shortest tie number) = true := by
  unfold shortest
  split
  next zero =>
      have noMagnitude : number.magnitude = 0 := of_decide_eq_true zero
      unfold readsBack
      rw [noMagnitude]
      rfl
  next =>
    dsimp only
    generalize isFound : List.findSome? _ _ = found
    have reads : readsBack number (found.getD (exact number)) = true := by
      cases found with
      | none => exact readsBack_exact finite
      | some digits =>
          obtain ⟨further, _, onGrid⟩ := List.exists_of_findSome?_eq_some isFound
          exact readsBack_of_onGrid? onGrid
    have sameNumber : (dropZeros (found.getD (exact number)).significand
        (found.getD (exact number)).exponent).toNumeral.toBinary64 =
        (found.getD (exact number)).toNumeral.toBinary64 :=
      Numeral.toBinary64_congr rfl (size_dropZeros _ _)
    unfold readsBack at reads ⊢
    rw [sameNumber]
    exact reads

end Digits

end DecisionNetwork
