import DecisionNetwork.Json.Token
import DecisionNetwork.Json.Writer
import DecisionNetwork.Proofs.Number.Scaling
import DecisionNetwork.Proofs.Number.Spelling

/-!
Contract: the numbers of JSON texts.

Owns:
- `NumberText`, a number in the notation of JSON by its parts;
- `NumberText.numeral`, the numeral of all its digits, and `NumberText.leading`, the numeral of
  those that fit in a word;
- `number?_text`: a number is read to its end, whatever follows that is no character of numerals;
- `exists_text_whole` and `exists_writes_decimal`: whole numbers and finite numbers are written in
  this notation, the latter as the numeral of their shortest digits.
-/

namespace DecisionNetwork.Json

open Numeral

/-- A text that does not go on with a number. -/
def EndsNumber (rest : List Char) : Prop :=
  ∀ character ∈ rest.head?, ¬ IsNumeralCharacter character

/-- A text that does not start with a digit. -/
def EndsDigits (rest : List Char) : Prop :=
  ∀ character ∈ rest.head?, character.isDigit = false

/-- A number in the notation of JSON. -/
structure NumberText where
  negative : Bool
  whole : DigitRun
  noLeadingZero : whole.text = ['0'] ∨ whole.text.head? ≠ some '0'
  fraction : Option DigitRun
  power : Option Power

/-- A fraction behind its point. -/
def fractionText (fraction : Option DigitRun) : List Char :=
  (fraction.map fun digits => '.' :: digits.text).getD []

namespace NumberText

def text (number : NumberText) : List Char :=
  signCharacters number.negative ++
    (number.whole.text ++ (fractionText number.fraction ++ powerText number.power))

/-- The token of the number. A number that is too great has none. -/
def token? (number : NumberText) : Option Token :=
  numberOf? number.negative number.whole.text (number.fraction.map DigitRun.text)
    (number.power.map Power.value)

/-- The digits of the fraction, none without a point. -/
def fractionDigits (number : NumberText) : List Char :=
  (number.fraction.map DigitRun.text).getD []

/-- The numeral of all the digits. -/
def numeral (number : NumberText) : Numeral :=
  ofDigits number.negative number.whole.text number.fractionDigits (powerValue number.power)

/-- The numeral of the digits that fit in a word. -/
def leading (number : NumberText) : Numeral :=
  ofLeadingDigits number.negative number.whole.text number.fractionDigits (powerValue number.power)

/-- The text of a numeral that is not written as a whole number. Its digits before the point fit in
a word. -/
structure Writes (number : NumberText) (text : List Char) (numeral : Numeral) : Prop where
  text_eq : number.text = text
  numeral_eq : number.numeral = numeral
  isDecimal : (number.fraction.isSome || number.power.isSome) = true
  wholeShort : number.whole.text.length ≤ 16

end NumberText

section Reading

variable {rest : List Char}

theorem EndsNumber.endsDigits (ends : EndsNumber rest) : EndsDigits rest := by
  intro character isHead
  cases isDigit : character.isDigit with
  | false => rfl
  | true => exact absurd (Or.inl isDigit) (ends character isHead)

theorem endsDigits_powerText (power : Option Power) (ends : EndsNumber rest) :
    EndsDigits (powerText power ++ rest) := by
  cases power with
  | none => exact ends.endsDigits
  | some power =>
      obtain ⟨mark, isMark, sign, digits⟩ := power
      intro character isHead
      cases isHead
      rcases isMark with rfl | rfl <;> rfl

theorem endsDigits_fractionText (fraction : Option DigitRun) {rest : List Char}
    (ends : EndsDigits rest) : EndsDigits (fractionText fraction ++ rest) := by
  cases fraction with
  | none => exact ends
  | some digits =>
      intro character isHead
      cases isHead
      rfl

theorem spanDigits_run (run : DigitRun) (ends : EndsDigits rest) :
    spanDigits (run.text ++ rest) = (run.text, rest) := by
  have stops : spanDigits rest = ([], rest) := by
    cases rest with
    | nil => rfl
    | cons head tail =>
        have noDigit : head.isDigit = false := ends head rfl
        simp [spanDigits, List.span_eq_takeWhile_dropWhile, noDigit]
  rw [Numeral.spanDigits_append run.areDigits, stops, List.append_nil]

theorem wholeDigits?_run (run : DigitRun)
    (noLeadingZero : run.text = ['0'] ∨ run.text.head? ≠ some '0') (ends : EndsDigits rest) :
    wholeDigits? (run.text ++ rest) = some (run.text, rest) := by
  rcases noLeadingZero with isZero | noZero
  · rw [isZero]
    rfl
  · unfold wholeDigits?
    split
    next tail isText =>
        cases isRun : run.text with
        | nil => exact absurd isRun run.someDigit
        | cons first others =>
            rw [isRun] at isText noZero
            cases isText
            exact absurd rfl noZero
    next =>
        rw [spanDigits_run run ends]
        simp [run.someDigit]

theorem fractionDigits?_text (fraction : Option DigitRun) (power : Option Power)
    (ends : EndsNumber rest) :
    fractionDigits? (fractionText fraction ++ (powerText power ++ rest)) =
      some (fraction.map DigitRun.text, powerText power ++ rest) := by
  have endsDigits := endsDigits_powerText power ends
  cases fraction with
  | some digits =>
      show fractionDigits? ('.' :: (digits.text ++ (powerText power ++ rest))) = _
      rw [fractionDigits?, spanDigits_run digits endsDigits]
      simp [digits.someDigit]
  | none =>
      show fractionDigits? (powerText power ++ rest) = some (none, powerText power ++ rest)
      unfold fractionDigits?
      split
      next tail isPoint =>
          exfalso
          cases power with
          | none =>
              have isRest : rest = '.' :: tail := isPoint
              exact ends '.' (by rw [isRest]; rfl) (by decide)
          | some power =>
              obtain ⟨mark, isMark, sign, digits⟩ := power
              cases isPoint
              exact absurd isMark (by decide)
      next => rfl

theorem power?_text (power : Option Power) (ends : EndsNumber rest) :
    power? (powerText power ++ rest) = some (power.map Power.value, rest) := by
  cases power with
  | some power =>
      show power? (power.mark :: (power.sign.text ++ power.digits.text ++ rest)) = _
      unfold power?
      dsimp only
      rw [if_pos power.isMark, List.append_assoc,
        readSign_text power.sign (power.digits.isUnsigned rest)]
      dsimp only
      rw [spanDigits_run power.digits ends.endsDigits]
      simp [power.digits.someDigit, Power.value]
  | none =>
      show power? rest = some (none, rest)
      unfold power?
      split
      next => rfl
      next mark tail =>
          rw [if_neg]
          rintro (rfl | rfl)
          · exact ends 'e' rfl (by decide)
          · exact ends 'E' rfl (by decide)

/-- The parts of a number are read behind its sign. -/
theorem number?_signed (negative : Bool) {text : List Char} (unsigned : IsUnsigned text) :
    number? (signCharacters negative ++ text) = (do
      let (digits, rest) ← wholeDigits? text
      let (fraction, rest) ← fractionDigits? rest
      let (power, rest) ← power? rest
      return (← numberOf? negative digits fraction power, rest)) := by
  cases negative with
  | true => rfl
  | false =>
      show number? text = _
      unfold number?
      split
      next isMinus =>
          split at isMinus
          next => exact absurd rfl unsigned.2
          next =>
              cases isMinus
              rfl

/-- A number is read to its end. -/
theorem number?_text (number : NumberText) (ends : EndsNumber rest) :
    number? (number.text ++ rest) = number.token?.map fun token => (token, rest) := by
  obtain ⟨negative, whole, noLeadingZero, fraction, power⟩ := number
  have afterWhole : EndsDigits (fractionText fraction ++ (powerText power ++ rest)) :=
    endsDigits_fractionText fraction (endsDigits_powerText power ends)
  have isText : NumberText.text ⟨negative, whole, noLeadingZero, fraction, power⟩ ++ rest =
      signCharacters negative ++
        (whole.text ++ (fractionText fraction ++ (powerText power ++ rest))) := by
    simp only [NumberText.text, List.append_assoc]
  rw [isText, number?_signed negative (whole.isUnsigned _),
    wholeDigits?_run whole noLeadingZero afterWhole]
  dsimp only [bind, Option.bind, pure]
  rw [fractionDigits?_text fraction power ends]
  dsimp only
  rw [power?_text power ends, NumberText.token?]
  dsimp only
  cases numberOf? negative whole.text (fraction.map DigitRun.text) (power.map Power.value) with
  | none => rfl
  | some token => rfl

/-- A number is a token of one of two kinds. -/
theorem NumberText.kind_of_token? {number : NumberText} {token : Token}
    (isToken : number.token? = some token) :
    (∃ whole, token = .whole whole) ∨ ∃ double, token = .decimal double := by
  unfold token? numberOf? at isToken
  dsimp only at isToken
  split at isToken
  next whole _ => exact Or.inl ⟨whole, (Option.some.inj isToken).symm⟩
  next =>
    split at isToken
    next => exact Or.inr ⟨_, (Option.some.inj isToken).symm⟩
    next => cases isToken

/-- A number starts with its sign or a digit. -/
theorem NumberText.exists_cons (number : NumberText) :
    ∃ head tail, number.text = head :: tail ∧ (head = '-' ∨ head.isDigit = true) := by
  obtain ⟨negative, whole, noLeadingZero, fraction, power⟩ := number
  cases negative with
  | true => exact ⟨_, _, rfl, Or.inl rfl⟩
  | false =>
      obtain ⟨head, tail, isWhole⟩ := List.exists_cons_of_ne_nil whole.someDigit
      refine ⟨head, tail ++ (fractionText fraction ++ powerText power), ?_,
        Or.inr (whole.areDigits head (isWhole ▸ List.mem_cons_self))⟩
      show whole.text ++ _ = _
      rw [isWhole]
      rfl

end Reading

section Digits

namespace NumberText

variable {number : NumberText}

/-- A number with a fraction or a power is read in double precision. -/
theorem token?_of_isDecimal (isDecimal : (number.fraction.isSome || number.power.isSome) = true) :
    number.token? =
      if number.leading.scaled.isFinite then some (.decimal number.leading.scaled) else none := by
  unfold token? numberOf?
  rw [Option.isSome_map, Option.isSome_map]
  dsimp only
  rw [if_pos isDecimal]
  rfl

variable {text : List Char} {numeral : Numeral}

theorem Writes.leading_eq (writes : number.Writes text numeral)
    (fits : numeral.significand < 2 ^ 64) : number.leading = numeral := by
  rw [← writes.numeral_eq] at fits ⊢
  exact ofLeadingDigits_of_fits _ _ fits

end NumberText

end Digits

section Writing

/-- The digits of a natural number. -/
def digitsOf (number : Nat) : DigitRun :=
  ⟨Nat.toDigits 10 number, isDigit_toDigits number, Nat.toDigits_ne_nil⟩

/-- The digits of a positive number do not start with a zero. -/
theorem head?_toDigits_ne_zero {number : Nat} (positive : 0 < number) :
    (Nat.toDigits 10 number).head? ≠ some '0' := by
  induction number using Nat.strongRecOn with
  | _ number inductionHypothesis =>
      rcases Nat.lt_or_ge number 10 with digit | many
      · rw [Nat.toDigits_of_lt_base digit]
        simp [Nat.ne_of_gt positive]
      · have leading : (Nat.toDigits 10 (number / 10)).head? ≠ some '0' :=
          inductionHypothesis _ (by omega) (by omega)
        rw [Nat.toDigits_of_base_le (by decide) many, List.head?_append]
        cases isHead : (Nat.toDigits 10 (number / 10)).head? with
        | none => exact absurd (List.head?_eq_none_iff.1 isHead) Nat.toDigits_ne_nil
        | some first =>
            rw [isHead] at leading
            exact leading

theorem toList_toString (number : Int) :
    (toString number).toList = signCharacters (number < 0) ++ Nat.toDigits 10 number.natAbs := by
  cases number with
  | ofNat natural =>
      show natural.repr.toList = _
      simp [signCharacters]
  | negSucc natural =>
      show ("-" ++ (natural + 1).repr).toList = _
      simp [signCharacters, Int.negSucc_lt_zero]

/-- A whole number is written in the notation of JSON. -/
theorem exists_text_whole (number : Int) :
    ∃ written : NumberText, written.text = (toString number).toList := by
  refine ⟨⟨number < 0, digitsOf number.natAbs, ?_, none, none⟩, ?_⟩
  · rcases Nat.eq_zero_or_pos number.natAbs with isZero | positive
    · exact Or.inl (by rw [isZero]; rfl)
    · exact Or.inr (head?_toDigits_ne_zero positive)
  · rw [toList_toString]
    simp [NumberText.text, fractionText, powerText, digitsOf]

variable (digits : Digits) (negative : Bool)

/-- The digit before the point of a number below one. -/
def zeroRun : DigitRun := ⟨['0'], isDigit_replicate_zero 1, by simp⟩

/-- The significant digits with zeros behind them. -/
def raisedRun (zeros : Nat) : DigitRun :=
  ⟨digits.significandText ++ List.replicate zeros '0',
    List.forall_mem_append.2 ⟨isDigit_toDigits _, isDigit_replicate_zero _⟩,
    List.append_ne_nil_of_left_ne_nil Nat.toDigits_ne_nil _⟩

/-- The significant digits with zeros before them. -/
def loweredRun (zeros : Nat) : DigitRun :=
  ⟨List.replicate zeros '0' ++ digits.significandText,
    List.forall_mem_append.2 ⟨isDigit_replicate_zero _, isDigit_toDigits _⟩,
    List.append_ne_nil_of_right_ne_nil _ Nat.toDigits_ne_nil⟩

/-- Some of the significant digits. -/
def partialRun {part : List Char} (among : part ⊆ digits.significandText) (some : part ≠ []) :
    DigitRun :=
  ⟨part, fun _ member => isDigit_toDigits _ _ (among member), some⟩

theorem exists_writes_ofWhole (proper : digits.significand = 0 → digits.exponent = 0)
    (isWhole : 0 ≤ digits.exponent) (short : digits.leadingExponent ≤ 15) :
    ∃ written : NumberText, written.Writes
      (signCharacters negative ++
        (digits.significandText ++ List.replicate digits.exponent.toNat '0' ++ ['.', '0']))
      ⟨negative, digits.significand * 10 ^ (digits.exponent.toNat + 1), -1⟩ := by
  have someText : digits.significandText ≠ [] := Nat.toDigits_ne_nil
  refine ⟨⟨negative, raisedRun digits digits.exponent.toNat, ?_, some zeroRun, none⟩, ?_, ?_, rfl,
    ?_⟩
  · rcases Nat.eq_zero_or_pos digits.significand with isZero | positive
    · exact Or.inl (by simp [raisedRun, Digits.significandText, isZero, proper isZero])
    · refine Or.inr ?_
      show (digits.significandText ++ _).head? ≠ _
      rw [List.head?_append_of_ne_nil _ someText]
      exact head?_toDigits_ne_zero positive
  · simp [NumberText.text, fractionText, powerText, raisedRun, zeroRun]
  · have isNumber : natOfDigits ((raisedRun digits digits.exponent.toNat).text ++
        List.replicate 1 '0') = digits.significand * 10 ^ (digits.exponent.toNat + 1) := by
      show natOfDigits (digits.significandText ++ List.replicate _ '0' ++ _) = _
      rw [List.append_assoc, List.replicate_append_replicate, natOfDigits_append_zeros,
        Digits.significandText, natOfDigits_toDigits, Nat.mul_comm]
    show Numeral.mk negative (natOfDigits ((raisedRun digits digits.exponent.toNat).text ++
      List.replicate 1 '0')) (0 - 1) = _
    rw [isNumber]
    rfl
  · show (digits.significandText ++ List.replicate _ '0').length ≤ 16
    unfold Digits.leadingExponent at short
    rw [List.length_append, List.length_replicate]
    omega

theorem exists_writes_ofPlaces {count : Nat} (positive : 0 < digits.significand)
    (someWhole : 0 < count) (someFraction : count < digits.significandText.length)
    (isCount : (count : Int) = digits.significandText.length + digits.exponent)
    (short : count ≤ 16) :
    ∃ written : NumberText, written.Writes
      (signCharacters negative ++
        (digits.significandText.take count ++ '.' :: digits.significandText.drop count))
      ⟨negative, digits.significand, digits.exponent⟩ := by
  have whole : digits.significandText.take count ≠ [] := by
    rw [← List.length_pos_iff, List.length_take]
    omega
  have fraction : digits.significandText.drop count ≠ [] := by
    rw [← List.length_pos_iff, List.length_drop]
    omega
  refine ⟨⟨negative, partialRun digits (List.take_subset _ _) whole, Or.inr ?_,
    some (partialRun digits (List.drop_subset _ _) fraction), none⟩, ?_, ?_, rfl, ?_⟩
  · show (digits.significandText.take count).head? ≠ _
    rw [List.head?_take, if_neg (by omega)]
    exact head?_toDigits_ne_zero positive
  · simp [NumberText.text, fractionText, powerText, partialRun]
  · have isNumber : natOfDigits (digits.significandText.take count ++
        digits.significandText.drop count) = digits.significand := by
      rw [List.take_append_drop]
      exact natOfDigits_toDigits _
    have isExponent :
        (0 : Int) - (digits.significandText.drop count).length = digits.exponent := by
      rw [List.length_drop]
      omega
    show Numeral.mk negative (natOfDigits (digits.significandText.take count ++
      digits.significandText.drop count)) (0 - (digits.significandText.drop count).length) = _
    rw [isNumber, isExponent]
  · exact (List.length_take_le _ _).trans short

theorem exists_writes_belowOne {count : Nat}
    (isCount : (count : Int) + digits.significandText.length = -digits.exponent) :
    ∃ written : NumberText, written.Writes
      (signCharacters negative ++
        ('0' :: '.' :: (List.replicate count '0' ++ digits.significandText)))
      ⟨negative, digits.significand, digits.exponent⟩ := by
  refine ⟨⟨negative, zeroRun, Or.inl rfl, some (loweredRun digits count), none⟩, ?_, ?_, rfl,
    (show 1 ≤ 16 by decide)⟩
  · simp [NumberText.text, fractionText, powerText, loweredRun, zeroRun]
  · have isNumber : natOfDigits (List.replicate 1 '0' ++ (loweredRun digits count).text) =
        digits.significand := by
      show natOfDigits (_ ++ (List.replicate count '0' ++ digits.significandText)) = _
      rw [natOfDigits_zeros_append, natOfDigits_zeros_append]
      exact natOfDigits_toDigits _
    have isExponent : (0 : Int) - (loweredRun digits count).text.length = digits.exponent := by
      show (0 : Int) - (List.replicate count '0' ++ digits.significandText).length = _
      rw [List.length_append, List.length_replicate]
      omega
    show Numeral.mk negative (natOfDigits (List.replicate 1 '0' ++ (loweredRun digits count).text))
      (0 - (loweredRun digits count).text.length) = _
    rw [isNumber, isExponent]

/-- The numeral that JSON writes for digits. Whole numbers without a power of ten have a zero behind
their point. -/
def jsonNumeral (digits : Digits) (negative : Bool) : Numeral :=
  if 0 ≤ digits.exponent ∧ digits.leadingExponent ≤ Binary64.jsonPositional.2 then
    ⟨negative, digits.significand * 10 ^ (digits.exponent.toNat + 1), -1⟩
  else ⟨negative, digits.significand, digits.exponent⟩

theorem size_jsonNumeral : (jsonNumeral digits negative).size = digits.toNumeral.size := by
  unfold jsonNumeral
  split
  next whole =>
      obtain ⟨power, isPower⟩ := Int.eq_ofNat_of_zero_le whole.1
      have isTen : ((10 : ℚ) ^ (power + 1)) * 10 ^ (-1 : ℤ) = 10 ^ power := by
        rw [pow_succ, zpow_neg_one, mul_inv_cancel_right₀ (by norm_num)]
      rw [Numeral.size, Numeral.size, Digits.toNumeral, isPower, zpow_natCast]
      push_cast
      rw [Int.toNat_natCast, mul_assoc, isTen]
  next => rfl

/-- Positional notation with its fraction is the notation of JSON. -/
theorem exists_writes_positional (proper : digits.significand = 0 → digits.exponent = 0)
    (short : digits.leadingExponent ≤ Binary64.jsonPositional.2) :
    ∃ written : NumberText, written.Writes
      (signCharacters negative ++
        (digits.positional ++ if 0 ≤ digits.exponent then ['.', '0'] else []))
      (jsonNumeral digits negative) := by
  have few : digits.leadingExponent ≤ 15 := short
  unfold Digits.positional
  dsimp only
  by_cases whole : 0 ≤ digits.exponent
  · have isNumeral : jsonNumeral digits negative =
        ⟨negative, digits.significand * 10 ^ (digits.exponent.toNat + 1), -1⟩ :=
      if_pos ⟨whole, short⟩
    rw [isNumeral, if_pos whole, if_pos whole]
    exact exists_writes_ofWhole digits negative proper whole few
  · have positive : 0 < digits.significand :=
      Nat.pos_of_ne_zero fun isZero => whole (proper isZero).ge
    have isNumeral : jsonNumeral digits negative =
        ⟨negative, digits.significand, digits.exponent⟩ :=
      if_neg fun both => whole both.1
    unfold Digits.leadingExponent at few
    rw [isNumeral, if_neg whole, if_neg whole, List.append_nil]
    split
    next inside =>
        exact exists_writes_ofPlaces digits negative positive (by omega) (by omega) (by omega)
          (by omega)
    next => exact exists_writes_belowOne digits negative (by omega)

/-- One digit before the point and a power of ten are the notation of JSON. -/
theorem exists_writes_pointed (power : Power)
    (isPower : power.value = digits.leadingExponent) :
    ∃ written : NumberText, written.Writes
      (signCharacters negative ++ (digits.pointed ++ power.text))
      ⟨negative, digits.significand, digits.exponent⟩ := by
  have areDigits : ∀ character ∈ digits.significandText, character.isDigit = true :=
    isDigit_toDigits digits.significand
  have oneDigit (digit : Char) : [digit] = ['0'] ∨ [digit].head? ≠ some '0' := by
    by_cases isZero : digit = '0'
    · exact Or.inl (by rw [isZero])
    · exact Or.inr (by simp [isZero])
  have isNumber : natOfDigits digits.significandText = digits.significand := natOfDigits_toDigits _
  have isExponent : power.value - (digits.significandText.length - 1 : Nat) = digits.exponent := by
    have someText : 0 < digits.significandText.length :=
      List.length_pos_iff.2 Nat.toDigits_ne_nil
    unfold Digits.leadingExponent at isPower
    omega
  unfold Digits.pointed
  split
  next noText => exact absurd noText Nat.toDigits_ne_nil
  next digit isText =>
      rw [isText] at areDigits isNumber isExponent
      refine ⟨⟨negative, ⟨[digit], areDigits, by simp⟩, oneDigit digit, none, some power⟩, rfl, ?_,
        rfl, (show 1 ≤ 16 by decide)⟩
      exact congrArg₂ (Numeral.mk negative) isNumber isExponent
  next digit rest more isText =>
      rw [isText] at areDigits isNumber isExponent
      obtain ⟨isDigit, areRest⟩ := List.forall_mem_cons.1 areDigits
      refine ⟨⟨negative, ⟨[digit], by simpa using isDigit, by simp⟩, oneDigit digit,
        some ⟨rest, areRest, more⟩, some power⟩, ?_, ?_, rfl, (show 1 ≤ 16 by decide)⟩
      · simp [NumberText.text, fractionText, powerText]
      · exact congrArg₂ (Numeral.mk negative) isNumber isExponent

/-- Zero has no exponent among the shortest digits. -/
theorem exponent_shortest_eq_zero {number : Binary64} (finite : number.isFinite = true)
    (isZero : (Digits.shortest .toEven number).significand = 0) :
    (Digits.shortest .toEven number).exponent = 0 := by
  have reads := Digits.readsBack_shortest .toEven finite
  have noMagnitude : number.isZero = true := by
    unfold Digits.readsBack at reads
    rw [Digits.toNumeral, isZero] at reads
    exact beq_iff_eq.2 (beq_iff_eq.1 reads).symm
  unfold Digits.shortest
  rw [if_pos noMagnitude]

/-- The power of ten of a number in the notation of JSON, which keeps the sign of its exponent. -/
def powerOf (exponent : Int) : Power where
  mark := 'e'
  isMark := Or.inl rfl
  sign := if exponent < 0 then .minus else .plus
  digits := digitsOf exponent.natAbs

theorem text_powerOf (exponent : Int) :
    (powerOf exponent).text =
      (if exponent < 0 then "e" else "e+").toList ++ (toString exponent).toList := by
  rw [toList_toString]
  unfold powerOf Power.text digitsOf
  by_cases negative : exponent < 0 <;> simp [negative, Sign.text, signCharacters]

theorem value_powerOf (exponent : Int) : (powerOf exponent).value = exponent := by
  have isNumber : natOfDigits (digitsOf exponent.natAbs).text = exponent.natAbs :=
    natOfDigits_toDigits _
  unfold Power.value powerOf
  dsimp only
  rw [isNumber]
  by_cases negative : exponent < 0
  · rw [if_pos (by rw [if_pos negative]; rfl)]
    omega
  · rw [if_neg (by rw [if_neg negative]; decide)]
    omega

/-- A number that has a JSON text is written in the notation of JSON. -/
theorem exists_writes_decimal {number : Binary64} {text : String}
    (isText : number.jsonText? = some text) :
    ∃ written : NumberText, written.Writes text.toList
      (jsonNumeral (Digits.shortest .toEven number) number.isNegative) := by
  have isSign : String.toList (if number.isNegative then "-" else "") =
      signCharacters number.isNegative := by
    cases number.isNegative with
    | true => rfl
    | false => rfl
  unfold Binary64.jsonText? at isText
  split at isText
  next => cases isText
  next finite =>
    have isFinite : number.isFinite = true := by simpa using finite
    have proper := exponent_shortest_eq_zero isFinite
    obtain rfl := Option.some.inj isText
    rw [String.toList_append]
    show ∃ written : NumberText, written.Writes
      (String.toList (if number.isNegative then "-" else "") ++ _) _
    rw [isSign]
    generalize Digits.shortest .toEven number = digits at *
    split
    next positional =>
        obtain ⟨written, writes⟩ :=
          exists_writes_positional digits number.isNegative proper positional.2
        refine ⟨written, { writes with text_eq := writes.text_eq.trans ?_ }⟩
        rw [String.toList_append, String.toList_ofList]
        split <;> rfl
    next exponential =>
        obtain ⟨written, writes⟩ := exists_writes_pointed digits number.isNegative
          (powerOf digits.leadingExponent) (value_powerOf _)
        have noZero : jsonNumeral digits number.isNegative =
            ⟨number.isNegative, digits.significand, digits.exponent⟩ := by
          refine if_neg fun whole => exponential ⟨?_, whole.2⟩
          have atLeast : (-5 : Int) ≤ digits.leadingExponent := by
            unfold Digits.leadingExponent
            omega
          exact atLeast
        refine ⟨written, { writes with text_eq := writes.text_eq.trans ?_, numeral_eq := ?_ }⟩
        · rw [String.toList_append, String.toList_append, String.toList_ofList, text_powerOf,
            List.append_assoc]
        · rw [writes.numeral_eq, noZero]

end Writing

end DecisionNetwork.Json
