import DecisionNetwork.Proofs.Number.Notation
import DecisionNetwork.Proofs.Value.Groups

/-!
Contract: the reading of texts as values.

Owns:
- `readItems_eq`: the loop over the pieces of a list reads each group once, in order;
- `Reads` and `reads_parseText`, the ways in which a trimmed text is read;
- `parseText_induction`: what holds of a text if it holds of the groups inside its brackets holds
  of all texts;
- `groups_of_isGroup_bracket`: inside a bracketed group there is at most one group.
-/

namespace DecisionNetwork.Value

open DecisionNetwork.Text

section Items

/-- The loop over the pieces of a list reads each group once, in order; the value of an open text
is given up when the text goes on. -/
theorem readItems_eq (opened : Option (List Char)) (done : List Value)
    (pieces : List (List Char)) :
    readItems (opened.toList.map parseText ++ done) opened pieces =
      done.reverse ++ (groupsFrom opened (fragments pieces)).map parseText := by
  induction pieces generalizing opened done with
  | nil =>
      rw [readItems]
      cases opened <;> simp [fragments, groupsFrom]
  | cons piece rest inductionHypothesis =>
      rw [readItems, fragments_cons]
      split
      next => exact inductionHypothesis opened done
      next =>
          have others : (if opened.isSome then (opened.toList.map parseText ++ done).tail
              else opened.toList.map parseText ++ done) = done := by
            cases opened <;> rfl
          dsimp only
          rw [others, groupsFrom, stillOpen]
          split
          next => exact inductionHypothesis (some _) done
          next =>
              have further := inductionHypothesis none
                (parseText (joinOpen opened (trim piece)) :: done)
              rw [List.reverse_cons, List.append_assoc] at further
              exact further

theorem readItems_pieces (inner : List Char) :
    readItems [] none (pieces ',' inner) = (groups inner).map parseText :=
  readItems_eq none [] (pieces ',' inner)

end Items

section Length

private theorem length_flatMap_pieces (texts : List (List Char)) :
    ((texts.flatMap (pieces ',')).map fun piece => piece.length + 1).sum =
      (texts.map fun text => text.length + 1).sum := by
  induction texts with
  | nil => rfl
  | cons text rest inductionHypothesis =>
      rw [List.flatMap_cons, List.map_append, List.sum_append, pieces_length, inductionHypothesis,
        List.map_cons, List.sum_cons]

private theorem length_fragments_le (pieces : List (List Char)) :
    ((fragments pieces).map fun piece => piece.length + 1).sum ≤
      (pieces.map fun piece => piece.length + 1).sum := by
  induction pieces with
  | nil => rfl
  | cons piece rest inductionHypothesis =>
      have trimmed := trim_length_le piece
      rw [fragments_cons]
      split
      · rw [List.map_cons, List.sum_cons]
        omega
      · rw [List.map_cons, List.sum_cons, List.map_cons, List.sum_cons]
        omega

/-- The groups and the commas after them fit between the brackets. -/
theorem length_groups_le (inner : List Char) :
    ((groups inner).map fun group => group.length + 1).sum ≤ inner.length + 1 := by
  rw [← length_flatMap_pieces, flatMap_pieces_groups, ← pieces_length ',' inner]
  exact length_fragments_le _

theorem length_le_of_mem_groups {inner group : List Char} (member : group ∈ groups inner) :
    group.length ≤ inner.length := by
  have counted : group.length + 1 ∈ (groups inner).map fun group => group.length + 1 :=
    List.mem_map_of_mem member
  have part := List.le_sum_of_mem counted
  have total := length_groups_le inner
  omega

end Length

section Numerals

/-- The texts that stand for the numbers of a vector. -/
def numeralTexts (inner : List Char) : List (List Char) :=
  match pieces ',' inner with
  | [] => []
  | first :: rest => first :: rest.map trimLeft

theorem numerals?_eq (inner : List Char) :
    numerals? inner = (numeralTexts inner).mapM Numeral.read? := by
  unfold numerals? numeralTexts
  cases split : pieces ',' inner with
  | nil => exact absurd split (pieces_ne_nil ',' inner)
  | cons first rest =>
      dsimp only
      rw [List.mapM_cons, List.mapM_map]
      rfl

/-- Bare pieces are read as they are. -/
theorem numeralTexts_of_bare {inner : List Char} (bare : ∀ piece ∈ pieces ',' inner, Bare piece) :
    numeralTexts inner = pieces ',' inner := by
  unfold numeralTexts
  split
  next noPieces => exact noPieces.symm
  next first rest isPieces =>
      rw [isPieces] at bare ⊢
      have unchanged : rest.map trimLeft = rest := by
        conv_rhs => rw [← List.map_id rest]
        exact List.map_congr_left fun piece member =>
          (bare piece (List.mem_cons_of_mem _ member)).trimLeft_eq
      rw [unchanged]

theorem exists_mapM_iff {α β : Type} {read : α → Option β} {items : List α} :
    (∃ results, items.mapM read = some results) ↔
      ∀ item ∈ items, ∃ result, read item = some result := by
  induction items with
  | nil => simp
  | cons item rest inductionHypothesis =>
      rw [List.forall_mem_cons, ← inductionHypothesis, List.mapM_cons]
      cases read item with
      | none => simp
      | some result =>
          cases rest.mapM read with
          | none => simp
          | some results => simp

theorem weight_of_numeralCharacter {character : Char}
    (isNumeral : Numeral.IsNumeralCharacter character) : weight character = 0 := by
  unfold weight
  rw [if_neg, if_neg]
  · rintro rfl
    exact absurd isNumeral (by decide)
  · rintro rfl
    exact absurd isNumeral (by decide)

theorem visible_of_isDigit {character : Char} (digit : character.isDigit = true) :
    isBlank character = false := by
  unfold Char.isDigit at digit
  rw [Bool.and_eq_true, decide_eq_true_iff, decide_eq_true_iff] at digit
  have lower : 48 ≤ character.toNat := digit.1
  have upper : character.toNat ≤ 57 := digit.2
  unfold isBlank
  simp
  omega

theorem visible_of_numeralCharacter {character : Char}
    (isNumeral : Numeral.IsNumeralCharacter character) : isBlank character = false := by
  have marksVisible : (['+', '-', '.', 'e', 'E'].all fun mark => !isBlank mark) = true := by decide
  refine isNumeral.elim visible_of_isDigit fun isMark => ?_
  simpa using List.all_eq_true.1 marksVisible character isMark

/-- There are no parentheses among the numerals of a vector. -/
theorem weight_of_mem_numerals {inner : List Char} {numerals : List Numeral}
    (read : numerals? inner = some numerals) {character : Char} (member : character ∈ inner) :
    weight character = 0 := by
  rw [numerals?_eq] at read
  have readEach := exists_mapM_iff.1 ⟨numerals, read⟩
  have ofNumeral {text : List Char} (isText : text ∈ numeralTexts inner)
      (inText : character ∈ text) : weight character = 0 := by
    obtain ⟨numeral, readText⟩ := readEach text isText
    exact weight_of_numeralCharacter (Numeral.numeralCharacter_of_read? readText inText)
  rcases mem_pieces_of_mem ',' member with rfl | ⟨piece, isPiece, inPiece⟩
  · rfl
  · unfold numeralTexts at ofNumeral
    cases split : pieces ',' inner with
    | nil => exact absurd split (pieces_ne_nil ',' inner)
    | cons first rest =>
        rw [split] at isPiece ofNumeral
        rcases List.mem_cons.1 isPiece with rfl | later
        · exact ofNumeral List.mem_cons_self inPiece
        · obtain ⟨blanks, isTrimmed, areBlank⟩ := exists_trimLeft piece
          rw [isTrimmed] at inPiece
          rcases List.mem_append.1 inPiece with inBlanks | inText
          · exact weight_of_blank (areBlank character inBlanks)
          · exact ofNumeral (List.mem_cons_of_mem _ (List.mem_map_of_mem later)) inText

theorem noComma_of_read? {text : List Char} {numeral : Numeral}
    (read : Numeral.read? text = some numeral) : ',' ∉ text := fun member =>
  absurd (Numeral.numeralCharacter_of_read? read member) (by decide)

/-- Joined groups are numerals if and only if there are some and every group is one. -/
theorem exists_numerals?_iff {texts : List (List Char)}
    (areGroups : ∀ text ∈ texts, IsGroup text) :
    (∃ numerals, numerals? ([','].intercalate texts) = some numerals) ↔
      texts ≠ [] ∧ ∀ text ∈ texts, ∃ numeral, Numeral.read? text = some numeral := by
  by_cases noText : texts = []
  · subst noText
    have notNumerals : numerals? [] = none := by decide
    simp [notNumerals]
  have someText : texts ≠ [] := noText
  have isPieces := pieces_intercalate ',' someText
  have bare : ∀ piece ∈ pieces ',' ([','].intercalate texts), Bare piece := by
    rw [isPieces]
    intro piece member
    obtain ⟨text, isText, inText⟩ := List.mem_flatMap.1 member
    exact (areGroups text isText).bare_pieces piece inText
  rw [numerals?_eq, exists_mapM_iff, numeralTexts_of_bare bare, isPieces, and_iff_right someText]
  constructor
  · intro readPieces text isText
    have readOwn : ∀ piece ∈ pieces ',' text, ∃ numeral, Numeral.read? piece = some numeral :=
      fun piece isPiece => readPieces piece (List.mem_flatMap.2 ⟨text, isText, isPiece⟩)
    have noComma := (areGroups text isText).noComma_of_balanced fun character member => by
      rcases mem_pieces_of_mem ',' member with rfl | ⟨piece, isPiece, inPiece⟩
      · rfl
      · obtain ⟨numeral, read⟩ := readOwn piece isPiece
        exact weight_of_numeralCharacter (Numeral.numeralCharacter_of_read? read inPiece)
    rw [pieces_of_notMem noComma] at readOwn
    exact readOwn text (List.mem_singleton_self text)
  · intro readTexts piece member
    obtain ⟨text, isText, inText⟩ := List.mem_flatMap.1 member
    obtain ⟨numeral, read⟩ := readTexts text isText
    rw [pieces_of_notMem (noComma_of_read? read), List.mem_singleton] at inText
    exact ⟨numeral, by rw [inText]; exact read⟩

end Numerals

section Texts

theorem bracketed?_eq_some_iff {text inner : List Char} :
    bracketed? text = some inner ↔ text = '[' :: (inner ++ [']']) := by
  constructor
  · intro found
    unfold bracketed? at found
    split at found
    next rest =>
      split at found
      next closed =>
          cases found
          obtain ⟨front, isRest⟩ := List.getLast?_eq_some_iff.1 closed
          rw [isRest, List.dropLast_concat]
      next => cases found
    next => cases found
  · rintro rfl
    simp [bracketed?]

/-- The ways in which a trimmed text is read. -/
inductive Reads (text : List Char) : Value → Prop where
  | blank (isBlank : text = []) : Reads text .absent
  | number (numeral : Numeral) (read : Numeral.read? text = some numeral) :
      Reads text (.number numeral.toBinary64)
  | yes (word : isWord "true" text = true) : Reads text (.boolean true)
  | no (word : isWord "false" text = true) : Reads text (.boolean false)
  | absent (word : isWord "none" text = true) : Reads text .absent
  | vector (inner : List Char) (numerals : List Numeral)
      (brackets : text = '[' :: (inner ++ [']'])) (read : numerals? inner = some numerals) :
      Reads text (.vector (numerals.map Numeral.toBinary64))
  | list (inner : List Char) (brackets : text = '[' :: (inner ++ [']']))
      (notNumerals : numerals? inner = none) : Reads text (.list ((groups inner).map parseText))
  | plain : Reads text (.text (String.ofList text))

theorem parseText_eq (text : List Char) :
    parseText text = (readSimple? (trim text)).getD
      (((bracketed? (trim text)).map fun inner => .list ((groups inner).map parseText)).getD
        (.text (String.ofList (trim text)))) := by
  rw [parseText]
  split
  next isSimple => rw [isSimple, Option.getD_some]
  next notSimple =>
    rw [notSimple, Option.getD_none]
    split
    next inner found => rw [found, readItems_pieces, Option.map_some, Option.getD_some]
    next missing => rw [missing, Option.map_none, Option.getD_none]

theorem parseText_of_readSimple? {text : List Char} {value : Value}
    (read : readSimple? (trim text) = some value) : parseText text = value := by
  rw [parseText_eq, read, Option.getD_some]

theorem reads_of_readSimple? {text : List Char} {value : Value}
    (read : readSimple? text = some value) : Reads text value := by
  unfold readSimple? at read
  split at read
  next blank =>
      cases read
      exact .blank (List.isEmpty_iff.1 blank)
  next =>
    split at read
    next numeral isNumeral =>
        cases read
        exact .number numeral isNumeral
    next =>
      split at read
      next word =>
          cases read
          exact .yes word
      next =>
        split at read
        next word =>
            cases read
            exact .no word
        next =>
          split at read
          next word =>
              cases read
              exact .absent word
          next =>
              obtain ⟨inner, found, isVector⟩ := Option.bind_eq_some_iff.1 read
              obtain ⟨numerals, areNumerals, isValue⟩ := Option.bind_eq_some_iff.1 isVector
              cases isValue
              exact .vector inner numerals (bracketed?_eq_some_iff.1 found) areNumerals

theorem numerals?_of_readSimple?_eq_none {text inner : List Char}
    (read : readSimple? text = none) (found : bracketed? text = some inner) :
    numerals? inner = none := by
  cases areNumerals : numerals? inner with
  | none => rfl
  | some numerals =>
      unfold readSimple? at read
      simp [found, areNumerals] at read
      grind

/-- Every text is read in one of the ways. -/
theorem reads_parseText (text : List Char) : Reads (trim text) (parseText text) := by
  rw [parseText_eq]
  generalize trim text = trimmed
  cases isSimple : readSimple? trimmed with
  | some value => exact reads_of_readSimple? isSimple
  | none =>
      cases found : bracketed? trimmed with
      | none => exact .plain
      | some inner =>
          exact .list inner (bracketed?_eq_some_iff.1 found)
            (numerals?_of_readSimple?_eq_none isSimple found)

/-- Blank characters around a text do not change its value. -/
theorem parseText_trim (text : List Char) : parseText (trim text) = parseText text := by
  rw [parseText_eq, parseText_eq text, trim_trim]

/-- A text in brackets is read as a vector if there are numerals alone, and else as a list. -/
theorem parseText_brackets (inner : List Char) :
    parseText ('[' :: (inner ++ [']'])) =
      ((numerals? inner).map fun numerals => .vector (numerals.map Numeral.toBinary64)).getD
        (.list ((groups inner).map parseText)) := by
  have openBare : Bare ['['] := bare_singleton (by decide)
  have unchanged : trim ('[' :: (inner ++ [']'])) = '[' :: (inner ++ [']']) :=
    (openBare.append (bare_singleton (by decide)) inner).2
  have found : bracketed? ('[' :: (inner ++ [']'])) = some inner := bracketed?_eq_some_iff.2 rfl
  have notNumeral : Numeral.read? ('[' :: (inner ++ [']'])) = none := by
    cases read : Numeral.read? ('[' :: (inner ++ [']'])) with
    | none => rfl
    | some numeral =>
        have isCharacter := Numeral.numeralCharacter_of_read? read List.mem_cons_self
        exact absurd isCharacter (by decide)
  have isSimple : readSimple? ('[' :: (inner ++ [']'])) =
      (numerals? inner).map fun numerals => .vector (numerals.map Numeral.toBinary64) := by
    unfold readSimple?
    rw [if_neg (by simp), notNumeral]
    dsimp only
    rw [if_neg (by simp [isWord]), if_neg (by simp [isWord]), if_neg (by simp [isWord]), found]
    cases areNumerals : numerals? inner <;> simp [areNumerals]
  rw [parseText_eq, unchanged, isSimple, found, Option.map_some, Option.getD_some]

/-- What holds of a text if it holds of the groups inside its brackets holds of all texts. -/
theorem parseText_induction {motive : List Char → Prop}
    (step : ∀ text, (∀ inner, trim text = '[' :: (inner ++ [']']) →
      ∀ group ∈ groups inner, motive group) → motive text) (text : List Char) : motive text := by
  induction size : text.length using Nat.strong_induction_on generalizing text with
  | _ size' inductionHypothesis =>
      apply step
      intro inner brackets group member
      have shorter := length_le_of_mem_groups member
      have trimmed := trim_length_le text
      rw [brackets, List.length_cons, List.length_append, List.length_singleton] at trimmed
      exact inductionHypothesis group.length (by omega) group rfl

end Texts

end DecisionNetwork.Value
