import DecisionNetwork.Number.Binary64

/-!
Contract: decimal numerals and the numbers they stand for.

Owns:
- `Numeral`, a sign, a natural significand and a power of ten;
- `Numeral.toBinary64`, the nearest number;
- `Numeral.read?`, the signed decimal and exponential notation
  `[sign] digits* ['.'] digits+ [(e|E) [sign] digits+]`.
-/

namespace DecisionNetwork

/-- The number `± significand * 10 ^ exponent`. -/
structure Numeral where
  negative : Bool
  significand : Nat
  exponent : Int
deriving DecidableEq, Repr

namespace Numeral

-- A power of naturals is the one of the core library, whatever else is imported.
attribute [local instance (high)] instPowNat

/-- Beyond these powers of ten every number overflows or vanishes. -/
def exponentLimit : Int := 400

/-- The nearest number, ties to the even significand. Exponents past the limit give an infinity or
a zero without the power being formed. -/
def toBinary64 (numeral : Numeral) : Binary64 :=
  if numeral.significand = 0 then Binary64.withSign numeral.negative 0
  else if exponentLimit < numeral.exponent then
    Binary64.withSign numeral.negative Binary64.infinityBits
  else if numeral.exponent + numeral.significand.log2 + 1 < -exponentLimit then
    Binary64.withSign numeral.negative 0
  else
    Binary64.ofRatio numeral.negative (numeral.significand * 10 ^ numeral.exponent.toNat)
      (10 ^ (-numeral.exponent).toNat)

/-- The natural number written by decimal digits. -/
def natOfDigits (digits : List Char) : Nat :=
  digits.foldl (fun number digit => 10 * number + (digit.toNat - '0'.toNat)) 0

/-- The decimal digits at the front of a text, and what follows them. -/
def spanDigits (text : List Char) : List Char × List Char := text.span Char.isDigit

/-- A sign at the front of a text: whether it is a minus, and what follows. -/
def readSign : List Char → Bool × List Char
  | '-' :: rest => (true, rest)
  | '+' :: rest => (false, rest)
  | text => (false, text)

/-- A whole text made of digits, at least one. -/
def digits? (text : List Char) : Option (List Char) :=
  if text.isEmpty || !text.all Char.isDigit then none else some text

/-- An exponent part that takes the whole text, or nothing at all. -/
def exponent? : List Char → Option Int
  | [] => some 0
  | mark :: text =>
    if mark = 'e' ∨ mark = 'E' then
      let (negative, unsigned) := readSign text
      (digits? unsigned).map fun digits =>
        if negative then -(natOfDigits digits : Int) else natOfDigits digits
    else none

/-- The digits before the point, those after it, and what follows. Without a point all digits
count as before it; one digit is needed, and one after a point. -/
def mantissa? (text : List Char) : Option (List Char × List Char × List Char) :=
  let (whole, rest) := spanDigits text
  match rest with
  | '.' :: afterPoint =>
    let (fraction, rest) := spanDigits afterPoint
    if fraction.isEmpty then none else some (whole, fraction, rest)
  | _ => if whole.isEmpty then none else some (whole, [], rest)

/-- Reads a numeral that takes the whole text. -/
def read? (text : List Char) : Option Numeral := do
  let (negative, unsigned) := readSign text
  let (whole, fraction, rest) ← mantissa? unsigned
  let power ← exponent? rest
  return ⟨negative, natOfDigits (whole ++ fraction), power - fraction.length⟩

end Numeral

end DecisionNetwork
