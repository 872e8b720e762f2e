import DecisionNetwork.Number.Shortest

/-!
Contract: the written forms of numbers.

Owns:
- `Binary64.plain`, the shortest digits without an exponent, the form in which values are shown
  and read back;
- `Binary64.plainUnsignedZero`, the same but for one form of both zeros;
- `Binary64.tenDigits`, ten significant digits with an exponent;
- `Binary64.jsonText?`, the form inside JSON, which has none for NaNs and infinities;
- `Binary64.ofText?`, which reads numerals and the three names.
-/

namespace DecisionNetwork

namespace Digits

/-- The digits of the significand. -/
def significandText (digits : Digits) : List Char := Nat.toDigits 10 digits.significand

/-- The power of ten of the first digit. -/
def leadingExponent (digits : Digits) : Int :=
  digits.significandText.length + digits.exponent - 1

/-- Positional notation, with a point only before a fraction. -/
def positional (digits : Digits) : List Char :=
  let text := digits.significandText
  let places := (-digits.exponent).toNat
  if 0 ≤ digits.exponent then text ++ List.replicate digits.exponent.toNat '0'
  else if places < text.length then
    text.take (text.length - places) ++ '.' :: text.drop (text.length - places)
  else '0' :: '.' :: List.replicate (places - text.length) '0' ++ text

/-- One digit before the point and the others after it. -/
def pointed (digits : Digits) : List Char :=
  match digits.significandText with
  | [] => []
  | [digit] => [digit]
  | digit :: rest => digit :: '.' :: rest

end Digits

namespace Binary64

private def signText (number : Binary64) : String := if number.isNegative then "-" else ""

/-- The shortest digits that read back, never with an exponent; the digits of a tie go upward. -/
def plain (number : Binary64) : String :=
  if number.isNaN then "NaN"
  else if number.isFinite then
    signText number ++ String.ofList (Digits.shortest .upward number).positional
  else signText number ++ "inf"

/-- As `plain`, with `0` for both zeros. -/
def plainUnsignedZero (number : Binary64) : String := number.canonical.plain

/-- Ten significant digits, one of them before the point, and an exponent; `0` for both zeros. -/
def tenDigits (number : Binary64) : String :=
  if number.isZero || !number.isFinite then number.plainUnsignedZero
  else
    let digits := Digits.rounded 10 number
    signText number ++ String.ofList digits.pointed ++ "e" ++ toString digits.leadingExponent

/-- The first and the last power of ten of the leading digit that JSON writes without exponent. -/
def jsonPositional : Int × Int := (-5, 15)

/-- The shortest digits that read back, the digits of a tie going to the even one. Positional
numbers keep a fraction, exponents a sign. -/
def jsonText? (number : Binary64) : Option String :=
  if !number.isFinite then none
  else
    let digits := Digits.shortest .toEven number
    let leading := digits.leadingExponent
    let text :=
      if jsonPositional.1 ≤ leading ∧ leading ≤ jsonPositional.2 then
        String.ofList digits.positional ++ (if 0 ≤ digits.exponent then ".0" else "")
      else
        String.ofList digits.pointed ++ (if leading < 0 then "e" else "e+") ++ toString leading
    some (signText number ++ text)

/-- Reads a numeral or one of the names `NaN`, `inf` and `-inf`. -/
def ofText? (text : String) : Option Binary64 :=
  match text with
  | "NaN" => some quietNaN
  | "inf" => some infinity
  | "-inf" => some negativeInfinity
  | _ => (Numeral.read? text.toList).map Numeral.toBinary64

end Binary64

end DecisionNetwork
