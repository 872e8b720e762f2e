import DecisionNetwork.Proofs.Number.Notation

/-!
Contract: the spellings of numerals, `[sign] digits* ['.'] digits+ [(e|E) [sign] digits+]`.

Owns:
- `Sign`, `DigitRun`, `Mantissa` and `Power`, the parts of a spelling, each with its text and its
  value;
- `Spelling`, a sign, a mantissa and a power that may be left out;
- `read?_text` and `exists_spelling_of_read?`: a text is read as a numeral if and only if it has a
  spelling of that numeral.

A text has several spellings when there is no point among its digits. They all stand for the same
numeral, since the digits count together.
-/

namespace DecisionNetwork.Numeral

/-- A sign, which may be left out. -/
inductive Sign where
  | unsigned
  | plus
  | minus
deriving DecidableEq, Repr

namespace Sign

def text : Sign → List Char
  | .unsigned => []
  | .plus => ['+']
  | .minus => ['-']

def isNegative (sign : Sign) : Bool := sign == .minus

end Sign

/-- Decimal digits, at least one. -/
structure DigitRun where
  text : List Char
  areDigits : ∀ character ∈ text, character.isDigit = true
  someDigit : text ≠ []

/-- Digits with at most one point among them and a digit at the end. -/
structure Mantissa where
  whole : List Char
  wholeDigits : ∀ character ∈ whole, character.isDigit = true
  hasPoint : Bool
  last : DigitRun

namespace Mantissa

def text (mantissa : Mantissa) : List Char :=
  mantissa.whole ++ ((if mantissa.hasPoint then ['.'] else []) ++ mantissa.last.text)

/-- The number written by all the digits. -/
def significand (mantissa : Mantissa) : Nat := natOfDigits (mantissa.whole ++ mantissa.last.text)

/-- The number of digits after the point. -/
def places (mantissa : Mantissa) : Nat :=
  if mantissa.hasPoint then mantissa.last.text.length else 0

end Mantissa

/-- A power of ten behind its mark. -/
structure Power where
  mark : Char
  isMark : mark = 'e' ∨ mark = 'E'
  sign : Sign
  digits : DigitRun

namespace Power

def text (power : Power) : List Char := power.mark :: (power.sign.text ++ power.digits.text)

def value (power : Power) : Int :=
  if power.sign.isNegative then -(natOfDigits power.digits.text : Int)
  else natOfDigits power.digits.text

end Power

/-- The text of a power that may be left out. -/
def powerText (power : Option Power) : List Char := (power.map Power.text).getD []

/-- The power of ten, nought if it is left out. -/
def powerValue (power : Option Power) : Int := (power.map Power.value).getD 0

/-- A written numeral. -/
structure Spelling where
  sign : Sign
  mantissa : Mantissa
  power : Option Power

namespace Spelling

def text (spelling : Spelling) : List Char :=
  spelling.sign.text ++ (spelling.mantissa.text ++ powerText spelling.power)

/-- The numeral that is written. -/
def numeral (spelling : Spelling) : Numeral where
  negative := spelling.sign.isNegative
  significand := spelling.mantissa.significand
  exponent := powerValue spelling.power - spelling.mantissa.places

end Spelling

section Reading

/-- A text that does not start with a sign. -/
def IsUnsigned (text : List Char) : Prop :=
  text.head? ≠ some '+' ∧ text.head? ≠ some '-'

theorem readSign_of_isUnsigned {text : List Char} (unsigned : IsUnsigned text) :
    readSign text = (false, text) := by
  unfold readSign
  split
  next => exact absurd rfl unsigned.2
  next => exact absurd rfl unsigned.1
  next => rfl

/-- A sign is read off the front of what it stands before. -/
theorem readSign_text (sign : Sign) {text : List Char} (unsigned : IsUnsigned text) :
    readSign (sign.text ++ text) = (sign.isNegative, text) := by
  cases sign with
  | unsigned => exact readSign_of_isUnsigned unsigned
  | plus => rfl
  | minus => rfl

theorem isUnsigned_cons_of_isDigit {first : Char} (digit : first.isDigit = true)
    (rest : List Char) : IsUnsigned (first :: rest) := by
  constructor
  · rintro isPlus
    cases isPlus
    exact absurd digit (by decide)
  · rintro isMinus
    cases isMinus
    exact absurd digit (by decide)

theorem DigitRun.isUnsigned (run : DigitRun) (rest : List Char) :
    IsUnsigned (run.text ++ rest) := by
  obtain ⟨first, others, isText⟩ := List.exists_cons_of_ne_nil run.someDigit
  rw [isText]
  apply isUnsigned_cons_of_isDigit
  apply run.areDigits
  rw [isText]
  exact List.mem_cons_self

theorem Mantissa.isUnsigned (mantissa : Mantissa) (rest : List Char) :
    IsUnsigned (mantissa.text ++ rest) := by
  obtain ⟨whole, wholeDigits, hasPoint, last⟩ := mantissa
  cases whole with
  | cons first others =>
      exact isUnsigned_cons_of_isDigit (wholeDigits first List.mem_cons_self) _
  | nil =>
      cases hasPoint with
      | true => exact ⟨by simp [text], by simp [text]⟩
      | false => exact last.isUnsigned rest

theorem DigitRun.digits?_text (run : DigitRun) : digits? run.text = some run.text := by
  have someDigit : run.text.isEmpty = false := by simpa using run.someDigit
  have allDigits : run.text.all Char.isDigit = true := List.all_eq_true.2 run.areDigits
  unfold digits?
  simp [someDigit, allDigits]

theorem exponent?_powerText (power : Option Power) :
    exponent? (powerText power) = some (powerValue power) := by
  cases power with
  | none => rfl
  | some power =>
      have signed := readSign_text power.sign (power.digits.isUnsigned [])
      rw [List.append_nil] at signed
      show exponent? (power.mark :: (power.sign.text ++ power.digits.text)) = some power.value
      unfold exponent?
      dsimp only
      rw [if_pos power.isMark, signed]
      dsimp only
      rw [power.digits.digits?_text]
      rfl

/-- No digit and no point stands at the front of a power. -/
theorem spanDigits_powerText (power : Option Power) :
    spanDigits (powerText power) = ([], powerText power) := by
  cases power with
  | none => rfl
  | some power =>
      obtain ⟨mark, isMark, sign, digits⟩ := power
      rcases isMark with rfl | rfl <;> rfl

/-- The digits of a run are taken from the front of what follows it. -/
theorem DigitRun.spanDigits_append (run : DigitRun) (power : Option Power) :
    spanDigits (run.text ++ powerText power) = (run.text, powerText power) := by
  rw [Numeral.spanDigits_append run.areDigits, spanDigits_powerText, List.append_nil]

theorem mantissa?_text (mantissa : Mantissa) (power : Option Power) :
    ∃ whole fraction, mantissa? (mantissa.text ++ powerText power) =
        some (whole, fraction, powerText power) ∧
      natOfDigits (whole ++ fraction) = mantissa.significand ∧
      fraction.length = mantissa.places := by
  obtain ⟨whole, wholeDigits, hasPoint, last⟩ := mantissa
  cases hasPoint with
  | true =>
      refine ⟨whole, last.text, ?_, rfl, rfl⟩
      have point : spanDigits ('.' :: (last.text ++ powerText power)) =
          ([], '.' :: (last.text ++ powerText power)) := rfl
      show mantissa? ((whole ++ ('.' :: last.text)) ++ powerText power) = _
      unfold mantissa?
      rw [List.append_assoc, List.cons_append, Numeral.spanDigits_append wholeDigits, point]
      simp [last.spanDigits_append, last.someDigit]
  | false =>
      refine ⟨whole ++ last.text, [], ?_, by rw [List.append_nil]; rfl, rfl⟩
      have noPoint : ∀ rest, powerText power ≠ '.' :: rest := by
        intro rest isPoint
        cases power with
        | none => cases isPoint
        | some power =>
            obtain ⟨mark, isMark, sign, digits⟩ := power
            cases isPoint
            exact absurd isMark (by decide)
      show mantissa? ((whole ++ last.text) ++ powerText power) = _
      unfold mantissa?
      rw [List.append_assoc, Numeral.spanDigits_append wholeDigits, last.spanDigits_append]
      dsimp only
      split
      next rest isPoint => exact absurd isPoint (noPoint rest)
      next => simp [last.someDigit]

/-- A spelling is read as its numeral. -/
theorem read?_text (spelling : Spelling) : read? spelling.text = some spelling.numeral := by
  obtain ⟨sign, mantissa, power⟩ := spelling
  obtain ⟨whole, fraction, isMantissa, isSignificand, isPlaces⟩ := mantissa?_text mantissa power
  unfold read? Spelling.text Spelling.numeral
  rw [readSign_text sign (mantissa.isUnsigned _)]
  dsimp only [bind, Option.bind, pure]
  rw [isMantissa]
  dsimp only
  rw [exponent?_powerText, isSignificand, isPlaces]

end Reading

section Spelled

theorem exists_sign (text : List Char) :
    ∃ (sign : Sign) (unsigned : List Char), readSign text = (sign.isNegative, unsigned) ∧
      sign.text ++ unsigned = text := by
  unfold readSign
  split
  next rest => exact ⟨.minus, rest, rfl, rfl⟩
  next rest => exact ⟨.plus, rest, rfl, rfl⟩
  next => exact ⟨.unsigned, text, rfl, rfl⟩

theorem exists_digitRun {text digits : List Char} (read : digits? text = some digits) :
    ∃ run : DigitRun, run.text = text ∧ digits = text := by
  have areDigits : ∀ character ∈ text, character.isDigit = true :=
    fun _ member => isDigit_of_digits? read member
  unfold digits? at read
  split at read
  next => cases read
  next someDigits =>
      cases read
      simp only [Bool.or_eq_true, not_or, List.isEmpty_iff] at someDigits
      exact ⟨⟨text, areDigits, someDigits.1⟩, rfl, rfl⟩

theorem exists_power {text : List Char} {value : Int} (read : exponent? text = some value) :
    ∃ power : Option Power, powerText power = text ∧ powerValue power = value := by
  unfold exponent? at read
  split at read
  next =>
      cases read
      exact ⟨none, rfl, rfl⟩
  next mark rest =>
    split at read
    next isMark =>
        obtain ⟨sign, unsigned, signed, rfl⟩ := exists_sign rest
        rw [signed] at read
        obtain ⟨digits, areDigits, isValue⟩ := Option.map_eq_some_iff.1 read
        obtain ⟨run, rfl, rfl⟩ := exists_digitRun areDigits
        exact ⟨some ⟨mark, isMark, sign, run⟩, rfl, isValue⟩
    next => cases read

theorem exists_mantissa {text whole fraction rest : List Char}
    (read : mantissa? text = some (whole, fraction, rest)) :
    ∃ mantissa : Mantissa, mantissa.text ++ rest = text ∧
      mantissa.significand = natOfDigits (whole ++ fraction) ∧
      mantissa.places = fraction.length := by
  obtain ⟨isText, wholeDigits⟩ := spanDigits_parts text
  unfold mantissa? at read
  dsimp only at read
  split at read
  next afterPoint isRest =>
      obtain ⟨isAfterPoint, fractionDigits⟩ := spanDigits_parts afterPoint
      split at read
      next => cases read
      next someFraction =>
          cases read
          rw [List.isEmpty_iff] at someFraction
          refine ⟨⟨_, wholeDigits, true, ⟨_, fractionDigits, someFraction⟩⟩, ?_, rfl, rfl⟩
          show ((spanDigits text).1 ++ ('.' :: (spanDigits afterPoint).1)) ++ _ = text
          rw [List.append_assoc, List.cons_append, ← isAfterPoint, ← isRest, ← isText]
  next =>
      split at read
      next => cases read
      next someWhole =>
          cases read
          rw [List.isEmpty_iff] at someWhole
          refine ⟨⟨[], by simp, false, ⟨_, wholeDigits, someWhole⟩⟩, isText.symm, ?_, rfl⟩
          show natOfDigits ([] ++ (spanDigits text).1) = natOfDigits ((spanDigits text).1 ++ [])
          rw [List.nil_append, List.append_nil]

theorem exists_spelling_of_read? {text : List Char} {numeral : Numeral}
    (read : read? text = some numeral) :
    ∃ spelling : Spelling, spelling.text = text ∧ spelling.numeral = numeral := by
  obtain ⟨sign, unsigned, signed, rfl⟩ := exists_sign text
  unfold read? at read
  rw [signed] at read
  obtain ⟨⟨whole, fraction, rest⟩, isMantissa, afterMantissa⟩ := Option.bind_eq_some_iff.1 read
  obtain ⟨value, isPower, isNumeral⟩ := Option.bind_eq_some_iff.1 afterMantissa
  obtain ⟨mantissa, rfl, isSignificand, isPlaces⟩ := exists_mantissa isMantissa
  obtain ⟨power, rfl, rfl⟩ := exists_power isPower
  refine ⟨⟨sign, mantissa, power⟩, rfl, ?_⟩
  rw [Spelling.numeral, isSignificand, isPlaces]
  exact Option.some.inj isNumeral

end Spelled

end DecisionNetwork.Numeral
