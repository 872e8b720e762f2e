import DecisionNetwork.Proofs.Json.RoundTrip

/-!
Contract: numbers in double precision through their JSON texts.

Owns:
- `exists_reread?_eq`, by which the library in use reads a number as the numeral of its shortest
  digits, cut to those that fit in a word and scaled;
- `IsShort`, numbers whose digits and power of ten are exact, which it reads as themselves.

Other numbers are rounded twice, and some of them are read as their neighbours.
-/

namespace DecisionNetwork

namespace Digits

/-- The digits of the coarsest grid that has some for the number. -/
def firstOnGrid? (number : Binary64) : Option Digits :=
  (List.range mostDigits).findSome? fun (further : Nat) =>
    onGrid? .toEven number (leadingPower (ratio number).1 (ratio number).2 - further)

theorem shortest_of_firstOnGrid? {number : Binary64} {digits : Digits}
    (nonzero : number.isZero = false) (found : firstOnGrid? number = some digits) :
    shortest .toEven number = dropZeros digits.significand digits.exponent := by
  have isShortest : shortest .toEven number =
      let digits := (firstOnGrid? number).getD (exact number)
      dropZeros digits.significand digits.exponent := if_neg (by rw [nonzero]; decide)
  rw [isShortest, found]
  rfl

theorem dropZeros_of_ends {digits : Digits} (ends : digits.significand % 10 ≠ 0) :
    dropZeros digits.significand digits.exponent = digits := by
  have nonzero : digits.significand ≠ 0 := fun isZero => ends (by rw [isZero])
  unfold dropZeros
  rw [if_neg nonzero, if_neg ends]

end Digits

namespace Binary64

open Json (compact jsonNumeral)

/-- A finite number is read as the scaled numeral of the leading digits of its text. -/
theorem exists_reread?_eq {number : Binary64} (finite : number.isFinite = true) :
    ∃ (written : Json.NumberText) (text : List Char),
      written.Writes text (jsonNumeral (Digits.shortest .toEven number) number.isNegative) ∧
        compact.reread? number =
          if written.leading.scaled.isFinite then some written.leading.scaled else none := by
  obtain ⟨text, isText⟩ : ∃ text, number.jsonText? = some text := by
    unfold jsonText?
    rw [finite]
    exact ⟨_, rfl⟩
  obtain ⟨written, writes⟩ := Json.exists_writes_decimal isText
  have isRendered : written.text = (Json.decimal number).render := by
    rw [writes.text_eq, Json.render, isText]
    rfl
  refine ⟨written, text.toList, writes, ?_⟩
  show (Json.read? (Json.write (.decimal number))).bind Json.asNumber? = _
  rw [Json.read?_number isRendered, Json.NumberText.token?_of_isDecimal writes.isDecimal]
  split <;> rfl

/-- Digits that fit in a word are all scaled. -/
theorem reread?_of_fits {number : Binary64} {numeral : Numeral} (finite : number.isFinite = true)
    (isNumeral : jsonNumeral (Digits.shortest .toEven number) number.isNegative = numeral)
    (fits : numeral.significand < 2 ^ 64) :
    compact.reread? number = if numeral.scaled.isFinite then some numeral.scaled else none := by
  obtain ⟨written, text, writes, isReread⟩ := exists_reread?_eq finite
  rw [isNumeral] at writes
  rw [isReread, writes.leading_eq fits]

/-- The magnitude of a finite number is its rounded shortest digits. -/
theorem isRounded_shortest {number : Binary64} (finite : number.isFinite = true) :
    IsRounded (withSign false number.magnitude)
      (Digits.shortest .toEven number).toNumeral.size := by
  have reads : (Digits.shortest .toEven number).toNumeral.toBinary64.bits = number.magnitude :=
    beq_iff_eq.1 (Digits.readsBack_shortest .toEven finite)
  have rounded := Numeral.isRounded_toBinary64
    (show (Digits.shortest .toEven number).toNumeral.negative = false from rfl)
  have isMagnitude : (Digits.shortest .toEven number).toNumeral.toBinary64 =
      withSign false number.magnitude := by
    rw [← reads]
    rfl
  rwa [isMagnitude] at rounded

/-- Double precision holds both the digits of the JSON text and its power of ten, so that the reader
rounds only once. -/
def IsShort (number : Binary64) : Prop :=
  let numeral := jsonNumeral (Digits.shortest .toEven number) number.isNegative
  numeral.significand < 2 ^ 53 ∧ numeral.exponent.natAbs ≤ 22

/-- Short numbers are read as themselves. -/
theorem reread?_of_isShort {number : Binary64} (finite : number.isFinite = true)
    (short : number.IsShort) : compact.reread? number = some number := by
  obtain ⟨few, small⟩ := short
  have rounded := isRounded_shortest finite
  rw [← Json.size_jsonNumeral _ number.isNegative] at rounded
  have isSign : (jsonNumeral (Digits.shortest .toEven number) number.isNegative).negative =
      number.isNegative := by
    unfold jsonNumeral
    split <;> rfl
  have isNumber : (jsonNumeral (Digits.shortest .toEven number) number.isNegative).scaled =
      number := by
    rw [Numeral.scaled_eq_toBinary64 few small, Numeral.toBinary64_of_isRounded rounded, isSign]
    exact withSign_magnitude number
  rw [reread?_of_fits finite rfl (few.trans (by decide)), isNumber, if_pos finite]

end Binary64

end DecisionNetwork
