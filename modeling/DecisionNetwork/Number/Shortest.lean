import DecisionNetwork.Number.Numeral

/-!
Contract: the decimal digits chosen for a number.

Owns:
- `Digits`, a natural significand and a power of ten;
- `shortest`, the fewest digits that read back as the number, and of those the nearest;
- `rounded`, a given count of digits, ties to the even digit.

The sign is not part of the digits. Zero has the single digit `0`; infinities and NaNs have none
that matter.
-/

namespace DecisionNetwork

/-- The decimal `significand * 10 ^ exponent`. -/
structure Digits where
  significand : Nat
  exponent : Int
deriving DecidableEq, Repr

/-- The side taken when two decimals of the same length are equally near. -/
inductive Tie where
  | upward
  | toEven
deriving DecidableEq, Repr

namespace Digits

-- A power of naturals is the one of the core library, whatever else is imported.
attribute [local instance (high)] instPowNat

def toNumeral (digits : Digits) : Numeral := ⟨false, digits.significand, digits.exponent⟩

/-- Takes the zeros off the end of a positive significand. -/
def dropZeros (significand : Nat) (exponent : Int) : Digits :=
  if significand = 0 then ⟨0, exponent⟩
  else if significand % 10 = 0 then dropZeros (significand / 10) (exponent + 1)
  else ⟨significand, exponent⟩
termination_by significand

/-- The greatest `power` with `10 ^ power ≤ numerator / denominator`, both being positive. -/
def leadingPower (numerator denominator : Nat) : Int :=
  let estimate : Int := ((numerator.log2 : Int) - denominator.log2) * 30103 / 100000
  let atLeast (power : Int) : Bool :=
    denominator * 10 ^ power.toNat ≤ numerator * 10 ^ (-power).toNat
  if atLeast (estimate + 1) then estimate + 1
  else if atLeast estimate then estimate
  else estimate - 1

/-- The magnitude of a finite number as a quotient of naturals. -/
def ratio (number : Binary64) : Nat × Nat :=
  (number.significand * 2 ^ number.exponent.toNat, 2 ^ (-number.exponent).toNat)

/-- The number of units `10 ^ place` in a quotient, as a quotient. -/
def inUnits (place : Int) (numerator denominator : Nat) : Nat × Nat :=
  (numerator * 10 ^ (-place).toNat, denominator * 10 ^ place.toNat)

/-- Whether a decimal is read as the magnitude of the number. -/
def readsBack (number : Binary64) (digits : Digits) : Bool :=
  digits.toNumeral.toBinary64.bits == number.magnitude

/-- The decimal on the grid `10 ^ place` that reads back as the number, if one of the two next to
the number does; the nearer one if both do. -/
def onGrid? (tie : Tie) (number : Binary64) (place : Int) : Option Digits :=
  let (numerator, denominator) := ratio number
  let (units, unit) := inUnits place numerator denominator
  let below : Digits := ⟨units / unit, place⟩
  let above : Digits := ⟨units / unit + 1, place⟩
  match readsBack number below, readsBack number above with
  | false, false => none
  | true, false => some below
  | false, true => some above
  | true, true =>
    match compare (2 * (units % unit)) unit, tie with
    | .lt, _ => some below
    | .gt, _ => some above
    | .eq, .upward => some above
    | .eq, .toEven => some (if below.significand % 2 = 0 then below else above)

/-- All digits of a finite number. -/
def exact (number : Binary64) : Digits :=
  if 0 ≤ number.exponent then ⟨number.significand * 2 ^ number.exponent.toNat, 0⟩
  else ⟨number.significand * 5 ^ (-number.exponent).toNat, number.exponent⟩

/-- Seventeen digits suffice to tell every number from the others. -/
def mostDigits : Nat := 17

/-- The fewest digits that read back as the magnitude of a finite number, and of those the
nearest. -/
def shortest (tie : Tie) (number : Binary64) : Digits :=
  if number.isZero then ⟨0, 0⟩
  else
    let (numerator, denominator) := ratio number
    let leading := leadingPower numerator denominator
    let found := (List.range mostDigits).findSome? fun (further : Nat) =>
      onGrid? tie number (leading - further)
    let digits := found.getD (exact number)
    dropZeros digits.significand digits.exponent

/-- The given count of digits nearest to the magnitude of a nonzero finite number, ties to the
even digit. -/
def rounded (count : Nat) (number : Binary64) : Digits :=
  let (numerator, denominator) := ratio number
  let place := leadingPower numerator denominator + 1 - count
  let (units, unit) := inUnits place numerator denominator
  let significand := Binary64.roundQuotient units unit
  if significand < 10 ^ count then ⟨significand, place⟩ else ⟨significand / 10, place + 1⟩

end Digits

end DecisionNetwork
