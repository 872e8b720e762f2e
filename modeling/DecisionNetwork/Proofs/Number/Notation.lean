import DecisionNetwork.Number.Notation
import DecisionNetwork.Proofs.Number.ReadBack

/-!
Contract: the plain notation of a finite number is a numeral of that number.

Owns:
- `Numeral.numeralCharacter_of_read?`, the characters that occur in numerals;
- `Numeral.natOfDigits_toDigits` and its likes, the value of digits with zeros beside them;
- `Numeral.read?_whole` and `Numeral.read?_pointed`, digits without and with a point;
- `Digits.isWritten_positional`, positional notation as a numeral of the same size;
- `Binary64.read?_plain`, the round trip of a finite number.
-/

namespace DecisionNetwork

namespace Numeral

/-- The characters of numerals. -/
def IsNumeralCharacter (character : Char) : Prop :=
  character.isDigit = true ∨ character ∈ ['+', '-', '.', 'e', 'E']

instance (character : Char) : Decidable (IsNumeralCharacter character) :=
  inferInstanceAs (Decidable (_ ∨ _))

theorem spanDigits_parts (text : List Char) :
    text = (spanDigits text).1 ++ (spanDigits text).2 ∧
      ∀ character ∈ (spanDigits text).1, character.isDigit = true := by
  unfold spanDigits
  rw [List.span_eq_takeWhile_dropWhile]
  exact ⟨List.takeWhile_append_dropWhile.symm, List.all_eq_true.1 List.all_takeWhile⟩

theorem spanDigits_append {digits : List Char}
    (areDigits : ∀ character ∈ digits, character.isDigit = true) (rest : List Char) :
    spanDigits (digits ++ rest) = (digits ++ (spanDigits rest).1, (spanDigits rest).2) := by
  unfold spanDigits
  rw [List.span_eq_takeWhile_dropWhile, List.span_eq_takeWhile_dropWhile,
    List.takeWhile_append_of_pos areDigits, List.dropWhile_append_of_pos areDigits]

theorem spanDigits_digits {digits : List Char}
    (areDigits : ∀ character ∈ digits, character.isDigit = true) :
    spanDigits digits = (digits, []) := by
  simpa [spanDigits, List.span_eq_takeWhile_dropWhile] using spanDigits_append areDigits []

section Characters

variable {text : List Char} {character : Char}

theorem mem_readSign (member : character ∈ text) :
    IsNumeralCharacter character ∨ character ∈ (readSign text).2 := by
  unfold readSign
  split
  next rest =>
      rcases List.mem_cons.1 member with rfl | later
      · exact Or.inl (by decide)
      · exact Or.inr later
  next rest =>
      rcases List.mem_cons.1 member with rfl | later
      · exact Or.inl (by decide)
      · exact Or.inr later
  next => exact Or.inr member

theorem isDigit_of_digits? {digits : List Char} (read : digits? text = some digits)
    (member : character ∈ text) : character.isDigit = true := by
  unfold digits? at read
  split at read
  next => cases read
  next allDigits =>
      simp only [Bool.or_eq_true, Bool.not_eq_true', not_or, Bool.not_eq_false,
        List.all_eq_true] at allDigits
      exact allDigits.2 _ member

theorem numeralCharacter_of_exponent? {power : ℤ} (read : exponent? text = some power)
    (member : character ∈ text) : IsNumeralCharacter character := by
  unfold exponent? at read
  split at read
  next => cases member
  next mark rest =>
    split at read
    next isMark =>
        rcases List.mem_cons.1 member with rfl | later
        · rcases isMark with rfl | rfl <;> decide
        · obtain ⟨digits, isDigits, -⟩ := Option.map_eq_some_iff.1 read
          rcases mem_readSign later with found | found
          · exact found
          · exact Or.inl (isDigit_of_digits? isDigits found)
    next => cases read

theorem mem_mantissa? {whole fraction rest : List Char}
    (read : mantissa? text = some (whole, fraction, rest)) (member : character ∈ text) :
    IsNumeralCharacter character ∨ character ∈ rest := by
  unfold mantissa? at read
  obtain ⟨isText, wholeDigits⟩ := spanDigits_parts text
  rw [isText, List.mem_append] at member
  rcases member with inWhole | afterWhole
  · exact Or.inl (Or.inl (wholeDigits _ inWhole))
  · dsimp only at read
    split at read
    next afterPoint isRest =>
        obtain ⟨isAfterPoint, fractionDigits⟩ := spanDigits_parts afterPoint
        rw [isRest, List.mem_cons, isAfterPoint, List.mem_append] at afterWhole
        split at read
        next => cases read
        next =>
            cases read
            rcases afterWhole with rfl | inFraction | afterFraction
            · exact Or.inl (by decide)
            · exact Or.inl (Or.inl (fractionDigits _ inFraction))
            · exact Or.inr afterFraction
    next =>
      split at read
      next => cases read
      next =>
          cases read
          exact Or.inr afterWhole

theorem numeralCharacter_of_read? {numeral : Numeral} (read : read? text = some numeral)
    (member : character ∈ text) : IsNumeralCharacter character := by
  unfold read? at read
  dsimp only [bind, Option.bind, pure] at read
  split at read
  next => cases read
  next mantissa isMantissa =>
    obtain ⟨whole, fraction, rest⟩ := mantissa
    dsimp only at read
    split at read
    next => cases read
    next power isPower =>
        rcases mem_readSign member with found | unsigned
        · exact found
        · rcases mem_mantissa? isMantissa unsigned with found | inRest
          · exact found
          · exact numeralCharacter_of_exponent? isPower inRest

end Characters

theorem ne_nil_of_read? {text : List Char} {numeral : Numeral}
    (read : read? text = some numeral) : text ≠ [] := by
  rintro rfl
  cases read

section Digits

theorem natOfDigits_append (text more : List Char) :
    natOfDigits (text ++ more) = Nat.ofDigitChars 10 more (natOfDigits text) :=
  Nat.ofDigitChars_append 0

theorem natOfDigits_append_zeros (text : List Char) (count : Nat) :
    natOfDigits (text ++ List.replicate count '0') = 10 ^ count * natOfDigits text := by
  rw [natOfDigits_append, Nat.ofDigitChars_replicate_zero]

theorem natOfDigits_zeros_append (count : Nat) (text : List Char) :
    natOfDigits (List.replicate count '0' ++ text) = natOfDigits text := by
  have noDigits : natOfDigits (List.replicate count '0') = 0 := Nat.ofDigitChars_replicate_zero
  rw [natOfDigits_append, noDigits]
  rfl

theorem isDigit_replicate_zero (count : Nat) :
    ∀ character ∈ List.replicate count '0', character.isDigit = true := by
  intro character member
  rw [List.eq_of_mem_replicate member]
  decide

theorem natOfDigits_toDigits (number : Nat) : natOfDigits (Nat.toDigits 10 number) = number :=
  Nat.ofDigitChars_ten_toDigits

theorem isDigit_toDigits (number : Nat) :
    ∀ character ∈ Nat.toDigits 10 number, character.isDigit = true := fun _ member =>
  Nat.isDigit_of_mem_toDigits (by decide) (by decide) member

end Digits

/-- The characters of a sign. -/
def signCharacters (negative : Bool) : List Char := if negative then ['-'] else []

section Forms

variable {whole : List Char} (wholeDigits : ∀ character ∈ whole, character.isDigit = true)
  (someWhole : whole ≠ [])
include wholeDigits someWhole

theorem readSign_digits (negative : Bool) (rest : List Char) :
    readSign (signCharacters negative ++ (whole ++ rest)) = (negative, whole ++ rest) := by
  cases negative with
  | true => rfl
  | false =>
      cases whole with
      | nil => exact absurd rfl someWhole
      | cons digit digits =>
          have isDigit := wholeDigits digit List.mem_cons_self
          unfold readSign signCharacters
          simp only [Bool.false_eq_true, if_false, List.nil_append, List.cons_append]
          split
          next isMinus =>
              cases isMinus
              exact absurd isDigit (by decide)
          next isPlus =>
              cases isPlus
              exact absurd isDigit (by decide)
          next => rfl

theorem read?_whole (negative : Bool) :
    read? (signCharacters negative ++ whole) = some ⟨negative, natOfDigits whole, 0⟩ := by
  have signed := readSign_digits wholeDigits someWhole negative []
  rw [List.append_nil] at signed
  have isMantissa : mantissa? whole = some (whole, [], []) := by
    unfold mantissa?
    rw [spanDigits_digits wholeDigits]
    simp [someWhole]
  unfold read?
  rw [signed]
  dsimp only [bind, Option.bind]
  rw [isMantissa]
  simp [exponent?]

theorem read?_pointed (negative : Bool) {fraction : List Char}
    (fractionDigits : ∀ character ∈ fraction, character.isDigit = true)
    (someFraction : fraction ≠ []) :
    read? (signCharacters negative ++ (whole ++ '.' :: fraction)) =
      some ⟨negative, natOfDigits (whole ++ fraction), -fraction.length⟩ := by
  have isMantissa : mantissa? (whole ++ '.' :: fraction) = some (whole, fraction, []) := by
    have point : spanDigits ('.' :: fraction) = ([], '.' :: fraction) := rfl
    unfold mantissa?
    rw [spanDigits_append wholeDigits, point]
    simp [spanDigits_digits fractionDigits, someFraction]
  unfold read?
  rw [readSign_digits wholeDigits someWhole]
  dsimp only [bind, Option.bind]
  rw [isMantissa]
  simp [exponent?]

end Forms

end Numeral

namespace Digits

open Numeral

/-- Behind a sign the text is a numeral with that sign and the size of the digits. -/
def IsWritten (digits : Digits) (negative : Bool) (text : List Char) : Prop :=
  ∃ numeral, read? (signCharacters negative ++ text) = some numeral ∧
    numeral.negative = negative ∧ numeral.size = digits.toNumeral.size

section Forms

variable (digits : Digits) (negative : Bool)

theorem isWritten_whole (whole : 0 ≤ digits.exponent) :
    IsWritten digits negative
      (digits.significandText ++ List.replicate digits.exponent.toNat '0') := by
  have someText : digits.significandText ≠ [] := Nat.toDigits_ne_nil
  have wholeDigits : ∀ character ∈
      digits.significandText ++ List.replicate digits.exponent.toNat '0',
      character.isDigit = true := by
    exact List.forall_mem_append.2 ⟨isDigit_toDigits _, isDigit_replicate_zero _⟩
  refine ⟨_, read?_whole wholeDigits (by simp [someText]) negative, rfl, ?_⟩
  obtain ⟨power, isPower⟩ := Int.eq_ofNat_of_zero_le whole
  have isNumber : natOfDigits (digits.significandText ++
      List.replicate digits.exponent.toNat '0') =
      10 ^ digits.exponent.toNat * digits.significand := by
    rw [natOfDigits_append_zeros, significandText, natOfDigits_toDigits]
  rw [isNumber]
  simp [Numeral.size, toNumeral, isPower, mul_comm]

theorem isWritten_pointed (fraction : digits.exponent < 0)
    (few : (-digits.exponent).toNat < digits.significandText.length) :
    IsWritten digits negative
      (digits.significandText.take (digits.significandText.length - (-digits.exponent).toNat) ++
        '.' :: digits.significandText.drop
          (digits.significandText.length - (-digits.exponent).toNat)) := by
  have textDigits : ∀ character ∈ digits.significandText, character.isDigit = true :=
    isDigit_toDigits _
  have places : digits.significandText.length -
      (digits.significandText.length - (-digits.exponent).toNat) = (-digits.exponent).toNat := by
    omega
  have isExponent : -((-digits.exponent).toNat : ℤ) = digits.exponent := by omega
  refine ⟨_, read?_pointed (fun _ member => textDigits _ (List.mem_of_mem_take member)) ?_
    negative (fun _ member => textDigits _ (List.mem_of_mem_drop member)) ?_, rfl, ?_⟩
  · rw [← List.length_pos_iff, List.length_take]
    omega
  · rw [← List.length_pos_iff, List.length_drop]
    omega
  · rw [List.take_append_drop, List.length_drop, places, isExponent, significandText,
      natOfDigits_toDigits]
    rfl

theorem isWritten_belowOne (fraction : digits.exponent < 0)
    (many : digits.significandText.length ≤ (-digits.exponent).toNat) :
    IsWritten digits negative
      ('0' :: '.' :: (List.replicate
        ((-digits.exponent).toNat - digits.significandText.length) '0' ++
          digits.significandText)) := by
  have someText : digits.significandText ≠ [] := Nat.toDigits_ne_nil
  have zeroDigit : ∀ character ∈ ['0'], character.isDigit = true := isDigit_replicate_zero 1
  have fractionDigits : ∀ character ∈ List.replicate
      ((-digits.exponent).toNat - digits.significandText.length) '0' ++
        digits.significandText, character.isDigit = true := by
    exact List.forall_mem_append.2 ⟨isDigit_replicate_zero _, isDigit_toDigits _⟩
  refine ⟨_, read?_pointed zeroDigit (by decide) negative fractionDigits (by simp [someText]),
    rfl, ?_⟩
  have isNumber : natOfDigits (['0'] ++ (List.replicate
      ((-digits.exponent).toNat - digits.significandText.length) '0' ++
        digits.significandText)) = digits.significand := by
    rw [← List.replicate_one, natOfDigits_zeros_append, natOfDigits_zeros_append, significandText,
      natOfDigits_toDigits]
  have isExponent : -((List.replicate
      ((-digits.exponent).toNat - digits.significandText.length) '0' ++
        digits.significandText).length : ℤ) = digits.exponent := by
    rw [List.length_append, List.length_replicate]
    omega
  rw [isNumber, isExponent]
  rfl

/-- Positional notation is a numeral of the same size. -/
theorem isWritten_positional : IsWritten digits negative digits.positional := by
  unfold positional
  dsimp only
  split
  next whole => exact isWritten_whole digits negative whole
  next fraction =>
    split
    next few => exact isWritten_pointed digits negative (by omega) few
    next many => exact isWritten_belowOne digits negative (by omega) (by omega)

end Forms

end Digits

namespace Binary64

open Numeral

theorem withSign_magnitude (number : Binary64) :
    withSign number.isNegative number.magnitude = number := by
  unfold withSign magnitude
  cases number.isNegative with
  | true => simp
  | false => rfl

theorem plain_of_finite {number : Binary64} (finite : number.isFinite = true) :
    number.plain.toList = signCharacters number.isNegative ++
      (Digits.shortest .upward number).positional := by
  have notNaN : ¬ number.isNaN = true := by
    intro isNaN
    have below : number.magnitude < infinityBits := of_decide_eq_true finite
    have above : infinityBits < number.magnitude := of_decide_eq_true isNaN
    exact UInt64.lt_asymm below above
  unfold plain
  rw [if_neg notNaN, if_pos finite, String.toList_append, String.toList_ofList]
  congr 1
  show String.toList (if number.isNegative then "-" else "") = signCharacters number.isNegative
  cases number.isNegative with
  | true => rfl
  | false => rfl

/-- The plain notation of a finite number is read as that number. -/
theorem read?_plain {number : Binary64} (finite : number.isFinite = true) :
    ∃ numeral, read? number.plain.toList = some numeral ∧ numeral.toBinary64 = number := by
  obtain ⟨numeral, read, sameSign, sameSize⟩ :=
    Digits.isWritten_positional (Digits.shortest .upward number) number.isNegative
  refine ⟨numeral, by rw [plain_of_finite finite]; exact read, ?_⟩
  have reads : (Digits.shortest .upward number).toNumeral.toBinary64.bits = number.magnitude :=
    beq_iff_eq.1 (Digits.readsBack_shortest .upward finite)
  have unsigned : toBinary64 { numeral with negative := false } =
      (Digits.shortest .upward number).toNumeral.toBinary64 :=
    toBinary64_congr rfl sameSize
  rw [toBinary64_sign, unsigned, reads, sameSign]
  exact withSign_magnitude number

end Binary64

end DecisionNetwork
