/-!
Contract: double-precision numbers as words of 64 bits.

Owns:
- `Binary64`, with the parts of its word and its classes;
- the total order in which both zeros are one, negative NaNs come first and positive ones last;
- the comparisons of arithmetic, which no NaN satisfies;
- `ofRatio`, the nearest number to a quotient of naturals, ties to the even significand;
- the four operations, the logarithm and the power, done by the machine.

Equality of `Binary64` tells all words apart; `compare` folds the negative zero into the positive.
-/

namespace DecisionNetwork

/-- A double-precision number, given by its word. -/
structure Binary64 where
  bits : UInt64
deriving DecidableEq, Repr, Inhabited

namespace Binary64

-- A power of naturals is the one of the core library, whatever else is imported.
attribute [local instance (high)] instPowNat

def signBit : UInt64 := 0x8000000000000000

/-- The magnitude of the infinities; finite magnitudes lie below it and NaNs above. -/
def infinityBits : UInt64 := 0x7ff0000000000000

def zero : Binary64 := ⟨0⟩
def one : Binary64 := ⟨0x3ff0000000000000⟩
def infinity : Binary64 := ⟨infinityBits⟩
def negativeInfinity : Binary64 := ⟨infinityBits + signBit⟩
def quietNaN : Binary64 := ⟨0x7ff8000000000000⟩

def isNegative (number : Binary64) : Bool := signBit ≤ number.bits

/-- The word without its sign. -/
def magnitude (number : Binary64) : UInt64 :=
  if number.isNegative then number.bits - signBit else number.bits

def isFinite (number : Binary64) : Bool := number.magnitude < infinityBits
def isNaN (number : Binary64) : Bool := infinityBits < number.magnitude
def isZero (number : Binary64) : Bool := number.magnitude == 0

/-- The word with the sign chosen and the given magnitude. -/
def withSign (negative : Bool) (magnitude : UInt64) : Binary64 :=
  ⟨if negative then magnitude + signBit else magnitude⟩

/-- The positive zero for either zero, any other number unchanged. -/
def canonical (number : Binary64) : Binary64 := if number.isZero then zero else number

/-- The rank of a word: words with a sign in descending order, then those without. -/
def rank (number : Binary64) : UInt64 :=
  if number.isNegative then 0xffffffffffffffff - number.bits else number.bits + signBit

instance : Ord Binary64 := ⟨compareOn fun number => number.canonical.rank⟩

instance : Std.TransOrd Binary64 :=
  inferInstanceAs (Std.TransCmp (compareOn fun number : Binary64 => number.canonical.rank))

/-- At most, in arithmetic: false when either side is a NaN. -/
def le (left right : Binary64) : Bool :=
  !left.isNaN && !right.isNaN && (compare left right).isLE

/-- Less than, in arithmetic: false when either side is a NaN. -/
def lt (left right : Binary64) : Bool :=
  !left.isNaN && !right.isNaN && (compare left right).isLT

/-- The significand of a finite number, whose value is `significand * 2 ^ exponent` but for the
sign. -/
def significand (number : Binary64) : Nat :=
  let word := number.magnitude.toNat
  if word < 2 ^ (52 : Nat) then word else word % 2 ^ (52 : Nat) + 2 ^ (52 : Nat)

/-- The binary exponent of the last place of the significand. -/
def exponent (number : Binary64) : Int :=
  max ((number.magnitude.toNat / 2 ^ (52 : Nat) : Nat) : Int) 1 - 1075

/-- A quotient of naturals rounded to the nearest natural, ties to the even one. -/
def roundQuotient (numerator denominator : Nat) : Nat :=
  let quotient := numerator / denominator
  match compare (2 * (numerator % denominator)) denominator with
  | .lt => quotient
  | .eq => quotient + quotient % 2
  | .gt => quotient + 1

/-- The greatest `power` with `2 ^ power ≤ numerator / denominator`, both being positive. -/
def leadingPower (numerator denominator : Nat) : Int :=
  let estimate : Int := (numerator.log2 : Int) - denominator.log2
  if denominator * 2 ^ estimate.toNat ≤ numerator * 2 ^ (-estimate).toNat then estimate
  else estimate - 1

/-- The number nearest to a quotient, ties to the even significand; a quotient past the greatest
finite number by half a place or more is infinite. -/
def ofRatio (negative : Bool) (numerator denominator : Nat) : Binary64 :=
  if numerator = 0 then withSign negative 0
  else
    let place := max (leadingPower numerator denominator - 52) (-1074)
    let rounded :=
      roundQuotient (numerator * 2 ^ (-place).toNat) (denominator * 2 ^ place.toNat)
    let word := (place + 1074).toNat * 2 ^ (52 : Nat) + rounded
    withSign negative (if word < infinityBits.toNat then word.toUInt64 else infinityBits)

def ofNat (number : Nat) : Binary64 := ofRatio false number 1

def toFloat (number : Binary64) : Float := Float.ofBits number.bits
def ofFloat (number : Float) : Binary64 := ⟨number.toBits⟩

def add (left right : Binary64) : Binary64 := ofFloat (left.toFloat + right.toFloat)
def sub (left right : Binary64) : Binary64 := ofFloat (left.toFloat - right.toFloat)
def mul (left right : Binary64) : Binary64 := ofFloat (left.toFloat * right.toFloat)
def div (left right : Binary64) : Binary64 := ofFloat (left.toFloat / right.toFloat)
def log10 (number : Binary64) : Binary64 := ofFloat number.toFloat.log10
def exp10 (power : Binary64) : Binary64 := ofFloat (Float.pow (ofNat 10).toFloat power.toFloat)

end Binary64

end DecisionNetwork
