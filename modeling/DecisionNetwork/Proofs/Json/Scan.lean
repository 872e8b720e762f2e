import DecisionNetwork.Json.Token
import DecisionNetwork.Proofs.Number.Notation

/-!
Contract: the tokens of a text are found one by one.

Owns:
- `token?_length`: every token takes at least one character;
- `scanWithin_congr`: the count of steps changes no result once it covers the text;
- `scan?_cons`, the equation of `scan?` where a token has to start.
-/

namespace DecisionNetwork.Json

open Numeral

section Length

variable {text rest : List Char}

theorem spanDigits_length (text : List Char) :
    (spanDigits text).1.length + (spanDigits text).2.length = text.length := by
  rw [← List.length_append, ← (spanDigits_parts text).1]

theorem stringRest?_length {characters : List Char}
    (found : stringRest? text = some (characters, rest)) : rest.length < text.length := by
  fun_induction stringRest? text generalizing characters with
  | case1 => cases found
  | case2 tail =>
      cases found
      simp
  | case3 tail character after escaped notQuote inductionHypothesis =>
      obtain ⟨⟨others, last⟩, isRest, same⟩ := Option.map_eq_some_iff.1 found
      obtain ⟨_, rfl⟩ := Prod.mk.inj same
      have shorter := inductionHypothesis isRest
      have escapedShorter := escape?_length escaped
      rw [List.length_cons]
      omega
  | case4 => cases found
  | case5 => cases found
  | case6 head tail notQuote notEscape visible inductionHypothesis =>
      obtain ⟨⟨others, last⟩, isRest, same⟩ := Option.map_eq_some_iff.1 found
      obtain ⟨_, rfl⟩ := Prod.mk.inj same
      have shorter := inductionHypothesis isRest
      rw [List.length_cons]
      omega

theorem wholeDigits?_length {digits : List Char}
    (found : wholeDigits? text = some (digits, rest)) : rest.length < text.length := by
  unfold wholeDigits? at found
  split at found
  next => cases found; simp
  next =>
    have parts := spanDigits_length text
    dsimp only at found
    split at found
    next => cases found
    next someDigits =>
        cases found
        have positive : 0 < (spanDigits text).1.length := by
          simpa [List.length_pos_iff] using someDigits
        omega

theorem fractionDigits?_length {fraction : Option (List Char)}
    (found : fractionDigits? text = some (fraction, rest)) : rest.length ≤ text.length := by
  unfold fractionDigits? at found
  split at found
  next after =>
    have parts := spanDigits_length after
    dsimp only at found
    split at found
    next => cases found
    next =>
        cases found
        rw [List.length_cons]
        omega
  next =>
      cases found
      exact le_rfl

theorem readSign_length (text : List Char) : (readSign text).2.length ≤ text.length := by
  unfold readSign
  split <;> simp

theorem power?_length {power : Option Int} (found : power? text = some (power, rest)) :
    rest.length ≤ text.length := by
  unfold power? at found
  split at found
  next =>
      cases found
      exact le_rfl
  next mark after =>
    split at found
    next =>
        have signed := readSign_length after
        have parts := spanDigits_length (readSign after).2
        dsimp only at found
        split at found
        next => cases found
        next =>
            cases found
            rw [List.length_cons]
            omega
    next =>
        cases found
        exact le_rfl

theorem number?_length {token : Token} (found : number? text = some (token, rest)) :
    rest.length < text.length := by
  unfold number? at found
  split at found
  next negative unsigned isSigned =>
    have unsignedLength : unsigned.length ≤ text.length := by
      split at isSigned <;> cases isSigned <;> simp
    simp only [Option.bind_eq_bind, Option.bind_eq_some_iff, Option.pure_def, Option.some.injEq,
      Prod.mk.injEq] at found
    obtain ⟨⟨digits, afterWhole⟩, isWhole, ⟨fraction, afterFraction⟩, isFraction,
      ⟨power, afterPower⟩, isPower, _, _, _, rfl⟩ := found
    have wholeShorter := wholeDigits?_length isWhole
    have fractionShorter := fractionDigits?_length isFraction
    have powerShorter := power?_length isPower
    dsimp only at fractionShorter powerShorter ⊢
    omega

theorem word?_length {word : String} {token found : Token} (someWord : word.toList ≠ [])
    (isWord : word? word token text = some (found, rest)) : rest.length < text.length := by
  unfold word? at isWord
  dsimp only at isWord
  split at isWord
  next starts =>
      cases isWord
      have positive := List.length_pos_iff.2 someWord
      have within : word.toList.length ≤ text.length := by
        rw [← starts, List.length_take]
        exact Nat.min_le_right _ _
      rw [List.length_drop]
      omega
  next => cases isWord

/-- Every token takes at least one character. -/
theorem token?_length {token : Token} (found : token? text = some (token, rest)) :
    rest.length < text.length := by
  cases text with
  | nil => cases found
  | cons head tail =>
      have mark {marked : Token} (isMark : some (marked, tail) = some (token, rest)) :
          rest.length < (head :: tail).length := by
        cases isMark
        simp
      unfold token? at found
      dsimp only at found
      -- The six marks, a string, the three words and, if it is none of these, a number.
      iterate 6
        split at found
        · exact mark found
      split at found
      · obtain ⟨⟨characters, last⟩, isString, same⟩ := Option.map_eq_some_iff.1 found
        obtain ⟨_, rfl⟩ := Prod.mk.inj same
        exact Nat.lt_succ_of_lt (stringRest?_length isString)
      iterate 3
        split at found
        · exact word?_length (by decide) found
      exact number?_length found

end Length

section Scan

/-- The count of steps changes no result once it covers the text. -/
theorem scanWithin_congr (steps more : Nat) (text : List Char) (enough : text.length ≤ steps)
    (moreEnough : text.length ≤ more) : scanWithin steps text = scanWithin more text := by
  induction steps generalizing more text with
  | zero =>
      rw [List.length_eq_zero_iff.1 (Nat.le_zero.1 enough)]
      cases more <;> rfl
  | succ steps inductionHypothesis =>
      cases text with
      | nil => cases more <;> rfl
      | cons head tail =>
          obtain ⟨fewer, rfl⟩ := Nat.exists_eq_succ_of_ne_zero (Nat.ne_zero_of_lt moreEnough)
          rw [List.length_cons] at enough moreEnough
          rw [scanWithin, scanWithin, inductionHypothesis fewer tail (by omega) (by omega)]
          split
          next => rfl
          next =>
            split
            next token rest found =>
                have shorter := token?_length found
                rw [List.length_cons] at shorter
                rw [inductionHypothesis fewer rest (by omega) (by omega)]
            next => rfl

/-- Where a token has to start, the tokens are that token and those of what follows it. -/
theorem scan?_cons {head : Char} (notBlank : isBlank head = false) (tail : List Char) :
    scan? (head :: tail) = (token? (head :: tail)).bind fun found =>
      (scan? found.2).map (found.1 :: ·) := by
  unfold scan?
  rw [List.length_cons, scanWithin, notBlank, if_neg (by decide)]
  cases isToken : token? (head :: tail) with
  | none => rfl
  | some found =>
      obtain ⟨token, rest⟩ := found
      have shorter := token?_length isToken
      rw [List.length_cons] at shorter
      dsimp only [Option.bind]
      rw [scanWithin_congr tail.length rest.length rest (by omega) le_rfl]

end Scan

end DecisionNetwork.Json
