import DecisionNetwork.Number.Numeral

/-!
Contract: decimal numerals by the arithmetic of double precision.

Owns:
- `Numeral.ofLeadingDigits`, the numeral of the digits that fit in a word of 64 bits;
- `Binary64.timesPower` and `Binary64.overPower`, a magnitude scaled by a power of ten and rounded
  once;
- `Numeral.scaled`, the significand rounded and then scaled. The result may lie a few places beside
  the nearest number, which is `Numeral.toBinary64`.
-/

namespace DecisionNetwork

-- A power of naturals is the one of the core library, whatever else is imported.
attribute [local instance (high)] instPowNat

namespace Binary64

/-- The greatest power of ten that is finite. -/
def greatestPower : Nat := 308

def powerOfTen (power : Nat) : Binary64 := ofNat (10 ^ power)

/-- The magnitude of a finite number times a finite power of ten. -/
def timesPower (number : Binary64) (power : Nat) : Binary64 :=
  let factor := powerOfTen power
  let exponent := number.exponent + factor.exponent
  ofRatio false (number.significand * factor.significand * 2 ^ exponent.toNat)
    (2 ^ (-exponent).toNat)

/-- The magnitude of a finite number over a finite power of ten. -/
def overPower (number : Binary64) (power : Nat) : Binary64 :=
  let divisor := powerOfTen power
  let exponent := number.exponent - divisor.exponent
  ofRatio false (number.significand * 2 ^ exponent.toNat)
    (divisor.significand * 2 ^ (-exponent).toNat)

end Binary64

namespace Numeral

open Binary64

/-- Appends digits to a significand as long as it fits in a word, and returns those left over. -/
def appendDigits (significand : Nat) : List Char → Nat × List Char
  | [] => (significand, [])
  | digit :: rest =>
    let next := 10 * significand + (digit.toNat - '0'.toNat)
    if next < 2 ^ (64 : Nat) then appendDigits next rest else (significand, digit :: rest)

/-- The numeral of the digits before and after a point. Digits that no longer fit count as places
before the point and do not count after it. -/
def ofLeadingDigits (negative : Bool) (whole fraction : List Char) (power : Int) : Numeral :=
  let (significand, omitted) := appendDigits 0 whole
  let (significand, dropped) := appendDigits significand fraction
  ⟨negative, significand, power + omitted.length - (fraction.length - dropped.length : Nat)⟩

/-- The magnitude over a power of ten, in two steps if the power is not finite. Beyond two steps
nothing is left of a significand of 64 bits. -/
def scaledDown (number : Binary64) (power : Nat) : Binary64 :=
  if power ≤ greatestPower then number.overPower power
  else if power ≤ 2 * greatestPower then
    (number.overPower greatestPower).overPower (power - greatestPower)
  else .zero

/-- The magnitude times a power of ten. -/
def scaledUp (number : Binary64) (power : Nat) : Binary64 :=
  if power ≤ greatestPower then number.timesPower power
  else if number.isZero then .zero
  else .infinity

/-- The number of a numeral whose significand fits in 64 bits. -/
def scaled (numeral : Numeral) : Binary64 :=
  let number := Binary64.ofNat numeral.significand
  let magnitude :=
    if 0 ≤ numeral.exponent then scaledUp number numeral.exponent.toNat
    else scaledDown number (-numeral.exponent).toNat
  Binary64.withSign numeral.negative magnitude.bits

end Numeral

end DecisionNetwork
