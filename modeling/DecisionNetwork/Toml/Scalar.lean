import DecisionNetwork.Number.Numeral
import DecisionNetwork.Toml.Basic

/-!
Contract: the numbers, dates and times of TOML.

Owns:
- `integer?`, decimal with a sign, or hexadecimal, octal or binary without one, within 64 bits;
- `float?`, with a fraction or an exponent, or one of the names of infinities and NaNs;
- `isDatetime`, a date, a time, or both, with or without an offset.

Each takes a whole word. Underscores stand between digits only, and no decimal integer starts with
a zero but zero itself.
-/

namespace DecisionNetwork.Toml

-- A power of naturals is the one of the core library, whatever else is imported.
attribute [local instance (high)] instPowNat

/-- Digits with single underscores between them, taken out. -/
def digits? (isDigit : Char → Bool) : List Char → Option (List Char)
  | [] => none
  | [digit] => if isDigit digit then some [digit] else none
  | digit :: '_' :: rest => if isDigit digit then (digits? isDigit rest).map (digit :: ·) else none
  | digit :: next :: rest =>
    if isDigit digit then (digits? isDigit (next :: rest)).map (digit :: ·) else none

/-- Decimal digits without a leading zero. -/
def wholeDigits? (word : List Char) : Option (List Char) := do
  let digits ← digits? Char.isDigit word
  if digits.length > 1 ∧ digits.head? = some '0' then none else return digits

/-- The value of a digit in any base up to sixteen. -/
def digitValue (digit : Char) : Nat :=
  if digit.isDigit then digit.toNat - '0'.toNat else digit.toLower.toNat - 'a'.toNat + 10

def isDigitOf (base : Nat) (character : Char) : Bool :=
  (character.isDigit || ('a' ≤ character.toLower && character.toLower ≤ 'f')) &&
    digitValue character < base

/-- Digits of a base, as a number of at most 63 bits. -/
def based? (base : Nat) (word : List Char) : Option Int := do
  let digits ← digits? (isDigitOf base) word
  let number := digits.foldl (fun number digit => base * number + digitValue digit) 0
  if number < 2 ^ (63 : Nat) then return number else none

/-- An integer. -/
def integer? : List Char → Option Int
  | '0' :: 'x' :: digits => based? 16 digits
  | '0' :: 'o' :: digits => based? 8 digits
  | '0' :: 'b' :: digits => based? 2 digits
  | word => do
    let (negative, unsigned) := Numeral.readSign word
    let number : Nat := Numeral.natOfDigits (← wholeDigits? unsigned)
    if negative then
      if number ≤ 2 ^ (63 : Nat) then return -(number : Int) else none
    else if number < 2 ^ (63 : Nat) then return (number : Int) else none

/-- The exponent part of a float, without its mark. -/
def power? (word : List Char) : Option Int := do
  let (negative, unsigned) := Numeral.readSign word
  let number : Nat := Numeral.natOfDigits (← digits? Char.isDigit unsigned)
  return if negative then -(number : Int) else number

def isExponentMark (character : Char) : Bool := character == 'e' || character == 'E'

/-- A float. Its magnitude may be too great only if it is negative. -/
def float? (word : List Char) : Option Binary64 := do
  let (negative, unsigned) := Numeral.readSign word
  if unsigned = "inf".toList then
    return Binary64.withSign negative Binary64.infinityBits
  if unsigned = "nan".toList then
    return Binary64.withSign negative Binary64.quietNaN.bits
  let mantissa := unsigned.takeWhile fun character => !isExponentMark character
  let exponent := (unsigned.dropWhile fun character => !isExponentMark character).drop 1
  let hasExponent := unsigned.any isExponentMark
  let whole ← wholeDigits? (mantissa.takeWhile (· != '.'))
  let hasFraction := mantissa.contains '.'
  let fraction ← if hasFraction then
      digits? Char.isDigit ((mantissa.dropWhile (· != '.')).drop 1)
    else some []
  let power ← if hasExponent then power? exponent else some 0
  if !hasFraction && !hasExponent then none
  let double := Numeral.toBinary64
    ⟨negative, Numeral.natOfDigits (whole ++ fraction), power - fraction.length⟩
  if double = Binary64.infinity then none else return double

/-- A number of exactly so many digits at the front, and what follows. -/
def fixedDigits? (count : Nat) (text : List Char) : Option (Nat × List Char) :=
  let digits := text.take count
  if digits.length = count ∧ digits.all Char.isDigit then
    some (Numeral.natOfDigits digits, text.drop count)
  else none

def skip? (expected : Char) : List Char → Option (List Char)
  | head :: tail => if head = expected then some tail else none
  | [] => none

def isLeapYear (year : Nat) : Bool := year % 4 == 0 && (year % 100 != 0 || year % 400 == 0)

def daysIn (year month : Nat) : Nat :=
  if month = 2 then (if isLeapYear year then 29 else 28)
  else if month = 4 ∨ month = 6 ∨ month = 9 ∨ month = 11 then 30
  else 31

/-- What follows a date at the front. -/
def afterDate? (text : List Char) : Option (List Char) := do
  let (year, text) ← fixedDigits? 4 text
  let (month, text) ← fixedDigits? 2 (← skip? '-' text)
  let (day, text) ← fixedDigits? 2 (← skip? '-' text)
  if 1 ≤ month ∧ month ≤ 12 ∧ 1 ≤ day ∧ day ≤ daysIn year month then return text else none

/-- What follows an hour and a minute at the front. -/
def afterMinute? (text : List Char) : Option (List Char) := do
  let (hour, text) ← fixedDigits? 2 text
  let (minute, text) ← fixedDigits? 2 (← skip? ':' text)
  if hour < 24 ∧ minute < 60 then return text else none

/-- What follows a time at the front. A second may be a leap second; its fraction has any number
of digits. -/
def afterTime? (text : List Char) : Option (List Char) := do
  let (second, text) ← fixedDigits? 2 (← skip? ':' (← afterMinute? text))
  if 60 < second then none
  else
    match text with
    | '.' :: fraction =>
      let (digits, rest) := Numeral.spanDigits fraction
      if digits.isEmpty then none else return rest
    | _ => return text

/-- Whether a word is an offset or empty. -/
def isOffset : List Char → Bool
  | [] => true
  | head :: tail =>
    if head = 'Z' ∨ head = 'z' then tail.isEmpty
    else if head = '+' ∨ head = '-' then afterMinute? tail == some []
    else false

/-- Whether a word is a date, a time or both, the latter with or without an offset. -/
def isDatetime (word : List Char) : Bool :=
  match afterDate? word with
  | some [] => true
  | some (mark :: rest) =>
    (mark == 'T' || mark == 't' || mark == ' ') &&
      match afterTime? rest with
      | some offset => isOffset offset
      | none => false
  | none => afterTime? word == some []

/-- The boolean, number, date or time that a word stands for. -/
def ofWord? (word : List Char) : Option Toml :=
  if word = "true".toList then some (.boolean true)
  else if word = "false".toList then some (.boolean false)
  else if isDatetime word then some .datetime
  else
    match integer? word with
    | some number => some (.integer number)
    | none => (float? word).map .float

end DecisionNetwork.Toml
