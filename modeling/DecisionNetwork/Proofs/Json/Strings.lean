import DecisionNetwork.Json.Token
import DecisionNetwork.Json.Writer

/-!
Contract: a string is read back from its JSON form.

Owns:
- `hexEscape?_control`, the code of a control character, in four digits;
- `stringRest?_quoteChar`: the form of a character is read as that character;
- `stringRest?_quote`: the form of a text is read up to its closing quote.

Any character may stand in a text. What follows the string is left as it is.
-/

namespace DecisionNetwork.Json

theorem fourHex?_append {digits : List Char} {unit : Nat}
    (found : fourHex? digits = some (unit, [])) (rest : List Char) :
    fourHex? (digits ++ rest) = some (unit, rest) := by
  unfold fourHex? at found
  split at found
  · simp only [Option.bind_eq_bind, Option.bind_eq_some_iff, Option.pure_def,
      Option.some.injEq, Prod.mk.injEq] at found
    obtain ⟨_, isFirst, _, isSecond, _, isThird, _, isFourth, isUnit, rfl⟩ := found
    simp [fourHex?, isFirst, isSecond, isThird, isFourth, isUnit]
  · cases found

/-- The code of a control character takes four digits. -/
theorem fourHex?_control {code : Nat} (control : code < 0x20) :
    fourHex? (List.replicate (4 - (Nat.toDigits 16 code).length) '0' ++ Nat.toDigits 16 code) =
      some (code, []) := by
  revert code
  decide

theorem hexEscape?_control {character : Char} (control : character.toNat < 0x20)
    (rest : List Char) :
    hexEscape? (List.replicate (4 - (Nat.toDigits 16 character.toNat).length) '0' ++
      Nat.toDigits 16 character.toNat ++ rest) = some (character, rest) := by
  have notLeading : isLeading character.toNat = false := by
    unfold isLeading
    grind
  have notTrailing : isTrailing character.toNat = false := by
    unfold isTrailing
    grind
  unfold hexEscape?
  rw [fourHex?_append (fourHex?_control control) rest]
  simp [notLeading, notTrailing]

/-- What an escape stands for is the next character of the string. -/
theorem stringRest?_escape {escaped rest : List Char} {character : Char}
    (read : escape? escaped = some (character, rest)) :
    stringRest? ('\x5c' :: escaped) =
      (stringRest? rest).map fun read => (character :: read.1, read.2) := by
  rw [stringRest?, if_neg (by decide), if_pos rfl]
  split
  next found =>
      rw [read] at found
      cases found
      rfl
  next missing =>
      rw [read] at missing
      cases missing

/-- The form of a character is read as that character. -/
theorem stringRest?_quoteChar (character : Char) (rest : List Char) :
    stringRest? (quoteChar character ++ rest) =
      (stringRest? rest).map fun read => (character :: read.1, read.2) := by
  unfold quoteChar
  split
  next marked =>
      apply stringRest?_escape
      rcases marked with rfl | rfl <;> rfl
  next notMarked =>
    obtain ⟨notQuote, notBackslash⟩ := not_or.1 notMarked
    split
    next isBackspace => exact isBackspace ▸ stringRest?_escape rfl
    next =>
    split
    next isFeed => exact isFeed ▸ stringRest?_escape rfl
    next =>
    split
    next isLine => exact isLine ▸ stringRest?_escape rfl
    next =>
    split
    next isReturn => exact isReturn ▸ stringRest?_escape rfl
    next =>
    split
    next isTab => exact isTab ▸ stringRest?_escape rfl
    next =>
    split
    next control =>
        apply stringRest?_escape
        exact hexEscape?_control control rest
    next visible =>
        rw [List.singleton_append, stringRest?, if_neg notQuote, if_neg notBackslash,
          if_neg visible]

/-- The form of a text is read up to its closing quote. -/
theorem stringRest?_quote (text rest : List Char) :
    stringRest? (text.flatMap quoteChar ++ '\x22' :: rest) = some (text, rest) := by
  induction text with
  | nil => simp [stringRest?]
  | cons character text inductionHypothesis =>
      rw [List.flatMap_cons, List.append_assoc, stringRest?_quoteChar, inductionHypothesis]
      rfl

end DecisionNetwork.Json
