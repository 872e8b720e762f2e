import DecisionNetwork.Proofs.Number.Spelling
import DecisionNetwork.Proofs.Value.Reading

/-!
Contract: the grammar of written values, told without reading them.

Owns:
- `NumeralArray`, numerals between brackets with blanks only after the commas, and
  `numerals?_eq_some_iff`, by which these are the texts that are read as vectors;
- `SameLetters`, `InBrackets` and `IsFreeText`, the conditions for words, lists and texts;
- `IsReadingOf` and `parse_kind_iff`: of which kind the value of a text is, for every text.

The conditions are stated on the text without the blank characters at its ends.
-/

namespace DecisionNetwork.Value

open DecisionNetwork.Text

section Arrays

/-- A numeral behind a comma and any blanks. -/
structure Successor where
  blanks : List Char
  areBlank : ∀ character ∈ blanks, isBlank character = true
  spelling : Numeral.Spelling

/-- What stands between a comma and the next one. -/
def Successor.piece (successor : Successor) : List Char :=
  successor.blanks ++ successor.spelling.text

/-- Numerals between brackets, separated by commas with blanks only after these. -/
structure NumeralArray where
  first : Numeral.Spelling
  others : List Successor

namespace NumeralArray

def inside (array : NumeralArray) : List Char :=
  array.first.text ++ array.others.flatMap fun successor => ',' :: successor.piece

def text (array : NumeralArray) : List Char := '[' :: (array.inside ++ [']'])

/-- The spellings in order. -/
def spellings (array : NumeralArray) : List Numeral.Spelling :=
  array.first :: array.others.map Successor.spelling

/-- The numbers that are spelled, in order. -/
def doubles (array : NumeralArray) : List Binary64 :=
  array.spellings.map fun spelling => spelling.numeral.toBinary64

end NumeralArray

theorem trimLeft_text (spelling : Numeral.Spelling) : trimLeft spelling.text = spelling.text := by
  apply trimLeft_eq_self
  intro first isFirst
  exact visible_of_numeralCharacter (Numeral.numeralCharacter_of_read?
    (Numeral.read?_text spelling) (List.mem_of_mem_head? isFirst))

theorem trimLeft_piece (successor : Successor) :
    trimLeft successor.piece = successor.spelling.text := by
  unfold Successor.piece trimLeft
  rw [List.dropWhile_append_of_pos successor.areBlank]
  exact trimLeft_text successor.spelling

theorem noComma_of_spelling (spelling : Numeral.Spelling) : ',' ∉ spelling.text :=
  noComma_of_read? (Numeral.read?_text spelling)

theorem noComma_of_piece (successor : Successor) : ',' ∉ successor.piece := by
  unfold Successor.piece
  rw [List.mem_append, not_or]
  constructor
  · intro inBlanks
    exact absurd (successor.areBlank ',' inBlanks) (by decide)
  · exact noComma_of_spelling successor.spelling

theorem numeralTexts_inside (array : NumeralArray) :
    numeralTexts array.inside = array.spellings.map Numeral.Spelling.text := by
  have isPieces : pieces ',' array.inside =
      array.first.text :: array.others.map Successor.piece := by
    rw [pieces_eq_cons_iff]
    refine ⟨?_, noComma_of_spelling array.first, ?_⟩
    · rw [NumeralArray.inside, List.flatMap_map]
    · exact List.forall_mem_map.2 fun successor _ => noComma_of_piece successor
  unfold numeralTexts
  rw [isPieces]
  simp [NumeralArray.spellings, trimLeft_piece]

theorem numerals?_inside (array : NumeralArray) :
    numerals? array.inside = some (array.spellings.map Numeral.Spelling.numeral) := by
  rw [numerals?_eq, numeralTexts_inside, List.mapM_map]
  have readEach : (fun spelling => Numeral.read? spelling.text) =
      fun spelling : Numeral.Spelling => some spelling.numeral := funext Numeral.read?_text
  show array.spellings.mapM (fun spelling => Numeral.read? spelling.text) = _
  rw [readEach]
  exact List.mapM_pure

/-- Pieces that are numerals but for the blanks before them are successors. -/
theorem exists_successors {pieces : List (List Char)} {numerals : List Numeral}
    (read : (pieces.map trimLeft).mapM Numeral.read? = some numerals) :
    ∃ successors : List Successor, successors.map Successor.piece = pieces ∧
      successors.map (fun successor => successor.spelling.numeral) = numerals := by
  induction pieces generalizing numerals with
  | nil =>
      cases read
      exact ⟨[], rfl, rfl⟩
  | cons piece rest inductionHypothesis =>
      rw [List.map_cons, List.mapM_cons] at read
      obtain ⟨numeral, isNumeral, afterFirst⟩ := Option.bind_eq_some_iff.1 read
      obtain ⟨others, areOthers, isList⟩ := Option.bind_eq_some_iff.1 afterFirst
      cases isList
      obtain ⟨spelling, isText, rfl⟩ := Numeral.exists_spelling_of_read? isNumeral
      obtain ⟨blanks, isPiece, areBlank⟩ := exists_trimLeft piece
      obtain ⟨successors, rfl, rfl⟩ := inductionHypothesis areOthers
      refine ⟨⟨blanks, areBlank, spelling⟩ :: successors, ?_, rfl⟩
      rw [List.map_cons, Successor.piece, isText, ← isPiece]

/-- The texts read as the numerals of a vector are the insides of arrays. -/
theorem numerals?_eq_some_iff {inner : List Char} {numerals : List Numeral} :
    numerals? inner = some numerals ↔
      ∃ array : NumeralArray, array.inside = inner ∧
        array.spellings.map Numeral.Spelling.numeral = numerals := by
  constructor
  · intro read
    rw [numerals?_eq] at read
    unfold numeralTexts at read
    cases split : pieces ',' inner with
    | nil => exact absurd split (pieces_ne_nil ',' inner)
    | cons first rest =>
        rw [split] at read
        dsimp only at read
        rw [List.mapM_cons] at read
        obtain ⟨numeral, isNumeral, afterFirst⟩ := Option.bind_eq_some_iff.1 read
        obtain ⟨others, areOthers, isList⟩ := Option.bind_eq_some_iff.1 afterFirst
        cases isList
        obtain ⟨spelling, rfl, rfl⟩ := Numeral.exists_spelling_of_read? isNumeral
        obtain ⟨successors, rfl, rfl⟩ := exists_successors areOthers
        refine ⟨⟨spelling, successors⟩, ?_, ?_⟩
        · rw [(pieces_eq_cons_iff.1 split).1, List.flatMap_map]
          rfl
        · simp [NumeralArray.spellings]
  · rintro ⟨array, rfl, rfl⟩
    exact numerals?_inside array

end Arrays

section Kinds

/-- Equal texts but for the case of the letters a to z. -/
def SameLetters (left right : List Char) : Prop := left.map Char.toLower = right.map Char.toLower

/-- A text of two characters at least that starts and ends with square brackets. -/
structure InBrackets (text : List Char) : Prop where
  twoCharacters : 2 ≤ text.length
  opens : text.head? = some '['
  closes : text.getLast? = some ']'

/-- A text of none of the other forms. -/
structure IsFreeText (text : List Char) : Prop where
  someCharacter : text ≠ []
  notNumeral : ¬ ∃ spelling : Numeral.Spelling, spelling.text = text
  noWord : ∀ word ∈ ["true", "false", "none"], ¬ SameLetters text word.toList
  notBracketed : ¬ InBrackets text

theorem inBrackets_iff {text : List Char} :
    InBrackets text ↔ ∃ inner, text = '[' :: (inner ++ [']']) := by
  constructor
  · rintro ⟨twoCharacters, opens, closes⟩
    cases text with
    | nil => cases opens
    | cons first rest =>
        cases opens
        obtain ⟨inner, last, rfl⟩ : ∃ inner last, rest = inner ++ [last] := by
          have someRest : rest ≠ [] := by
            rintro rfl
            simp at twoCharacters
          exact ⟨rest.dropLast, rest.getLast someRest, (List.dropLast_append_getLast _).symm⟩
        rw [← List.cons_append, List.getLast?_concat, Option.some.injEq] at closes
        exact ⟨inner, by rw [closes]⟩
  · rintro ⟨inner, rfl⟩
    refine ⟨by simp, rfl, ?_⟩
    rw [← List.cons_append, List.getLast?_concat]

theorem isWord_iff {word : String} {text : List Char}
    (lowerCase : word.toList.map Char.toLower = word.toList) :
    isWord word text = true ↔ SameLetters text word.toList := by
  unfold isWord SameLetters
  rw [beq_iff_eq, lowerCase]

theorem numeralCharacter_toLower {character : Char}
    (isNumeral : Numeral.IsNumeralCharacter character) :
    Numeral.IsNumeralCharacter character.toLower := by
  rcases isNumeral with digit | isMark
  · have unchanged : character.toLower = character := by
      unfold Char.toLower
      simp [Char.isDigit] at digit ⊢
      grind
    rw [unchanged]
    exact Or.inl digit
  · have marksLower : (['+', '-', '.', 'e', 'E'].all fun mark =>
        decide (Numeral.IsNumeralCharacter mark.toLower)) = true := by decide
    exact of_decide_eq_true (List.all_eq_true.1 marksLower character isMark)

/-- The words have letters that do not occur in numerals. -/
theorem read?_of_sameLetters {word : String} {text : List Char}
    (listed : word ∈ ["true", "false", "none"]) (same : SameLetters text word.toList) :
    Numeral.read? text = none := by
  have someLetter : ∀ word ∈ ["true", "false", "none"],
      ((word.toList.map Char.toLower).all fun letter =>
        decide (Numeral.IsNumeralCharacter letter)) = false := by decide
  obtain ⟨letter, inWord, notNumeral⟩ := List.all_eq_false.1 (someLetter word listed)
  rw [← same] at inWord
  obtain ⟨character, inText, rfl⟩ := List.mem_map.1 inWord
  cases read : Numeral.read? text with
  | none => rfl
  | some numeral =>
      have isNumeral := Numeral.numeralCharacter_of_read? read inText
      exact absurd (decide_eq_true (numeralCharacter_toLower isNumeral)) notNumeral

/-- A word is read as the value that it names, in any case. -/
theorem readSimple?_of_sameLetters {word : String} {text : List Char}
    (listed : word ∈ ["true", "false", "none"]) (same : SameLetters text word.toList) :
    readSimple? text = some
      (if word = "true" then .boolean true else if word = "false" then .boolean false
      else .absent) := by
  have lowerCase : ∀ word ∈ ["true", "false", "none"],
      word.toList ≠ [] ∧ word.toList.map Char.toLower = word.toList := by decide
  obtain ⟨someLetter, lower⟩ := lowerCase word listed
  have isLower : text.map Char.toLower = word.toList := same.trans lower
  have someCharacter : ¬ text.isEmpty = true := by
    intro noCharacter
    rw [List.isEmpty_iff.1 noCharacter] at isLower
    exact someLetter isLower.symm
  have notNumeral := read?_of_sameLetters listed same
  unfold readSimple? isWord
  rw [if_neg someCharacter, notNumeral, isLower]
  simp only [List.mem_cons, List.not_mem_nil, or_false] at listed
  rcases listed with rfl | rfl | rfl <;> rfl

end Kinds

section Reading

variable {text : List Char}

theorem parseText_of_blank (noCharacter : trim text = []) : parseText text = .absent :=
  parseText_of_readSimple? (by rw [noCharacter]; rfl)

theorem parseText_of_spelling {spelling : Numeral.Spelling} (spells : spelling.text = trim text) :
    parseText text = .number spelling.numeral.toBinary64 := by
  have read := Numeral.read?_text spelling
  rw [spells] at read
  have someCharacter : ¬ (trim text).isEmpty = true := by
    simpa using Numeral.ne_nil_of_read? read
  apply parseText_of_readSimple?
  unfold readSimple?
  rw [if_neg someCharacter, read]

theorem parseText_of_sameLetters {word : String} (listed : word ∈ ["true", "false", "none"])
    (same : SameLetters (trim text) word.toList) :
    parseText text =
      if word = "true" then .boolean true else if word = "false" then .boolean false
      else .absent :=
  parseText_of_readSimple? (readSimple?_of_sameLetters listed same)

theorem parseText_of_array {array : NumeralArray} (isArray : array.text = trim text) :
    parseText text = .vector array.doubles := by
  rw [← parseText_trim, ← isArray, NumeralArray.text, parseText_brackets, numerals?_inside]
  simp [NumeralArray.doubles]

theorem parseText_of_inBrackets (brackets : InBrackets (trim text))
    (noArray : ¬ ∃ array : NumeralArray, array.text = trim text) :
    ∃ items, parseText text = .list items := by
  obtain ⟨inner, isText⟩ := inBrackets_iff.1 brackets
  have notNumerals : numerals? inner = none := by
    refine Option.eq_none_iff_forall_ne_some.2 fun numerals read => noArray ?_
    obtain ⟨array, rfl, -⟩ := numerals?_eq_some_iff.1 read
    exact ⟨array, isText.symm⟩
  rw [← parseText_trim, isText, parseText_brackets, notNumerals]
  exact ⟨_, rfl⟩

theorem reads_of_parseText_eq {value : Value} (isValue : parseText text = value) :
    Reads (trim text) value :=
  isValue ▸ reads_parseText text

/-- What is read as a text has none of the other forms. -/
theorem isFreeText_of_parseText {plain : String} (isText : parseText text = .text plain) :
    IsFreeText (trim text) where
  someCharacter noCharacter := by
    rw [parseText_of_blank noCharacter] at isText
    cases isText
  notNumeral := by
    rintro ⟨spelling, spells⟩
    rw [parseText_of_spelling spells] at isText
    cases isText
  noWord := by
    intro word listed same
    rw [parseText_of_sameLetters listed same] at isText
    split at isText
    next => cases isText
    next => split at isText <;> cases isText
  notBracketed brackets := by
    by_cases someArray : ∃ array : NumeralArray, array.text = trim text
    · obtain ⟨array, isArray⟩ := someArray
      rw [parseText_of_array isArray] at isText
      cases isText
    · obtain ⟨items, isList⟩ := parseText_of_inBrackets brackets someArray
      rw [isList] at isText
      cases isText

/-- What has none of the other forms is read as a text. -/
theorem parseText_of_isFreeText (free : IsFreeText (trim text)) :
    parseText text = .text (String.ofList (trim text)) := by
  have reads := reads_parseText text
  generalize parseText text = value at reads ⊢
  cases reads with
  | blank noCharacter => exact absurd noCharacter free.someCharacter
  | number numeral read =>
      obtain ⟨spelling, spells, -⟩ := Numeral.exists_spelling_of_read? read
      exact absurd ⟨spelling, spells⟩ free.notNumeral
  | yes word => exact absurd ((isWord_iff (by decide)).1 word) (free.noWord "true" (by decide))
  | no word => exact absurd ((isWord_iff (by decide)).1 word) (free.noWord "false" (by decide))
  | absent word => exact absurd ((isWord_iff (by decide)).1 word) (free.noWord "none" (by decide))
  | vector inner numerals brackets read =>
      exact absurd (inBrackets_iff.2 ⟨inner, brackets⟩) free.notBracketed
  | list inner brackets notNumerals =>
      exact absurd (inBrackets_iff.2 ⟨inner, brackets⟩) free.notBracketed
  | plain => rfl

theorem parseText_eq_absent_iff :
    parseText text = .absent ↔ trim text = [] ∨ SameLetters (trim text) "none".toList := by
  constructor
  · intro isAbsent
    cases reads_of_parseText_eq isAbsent with
    | blank noCharacter => exact Or.inl noCharacter
    | absent word => exact Or.inr ((isWord_iff (by decide)).1 word)
  · rintro (noCharacter | same)
    · exact parseText_of_blank noCharacter
    · exact parseText_of_sameLetters (by decide) same

theorem parseText_eq_number_iff {double : Binary64} :
    parseText text = .number double ↔
      ∃ spelling : Numeral.Spelling, spelling.text = trim text ∧
        spelling.numeral.toBinary64 = double := by
  constructor
  · intro isNumber
    cases reads_of_parseText_eq isNumber with
    | number numeral read =>
        obtain ⟨spelling, spells, rfl⟩ := Numeral.exists_spelling_of_read? read
        exact ⟨spelling, spells, rfl⟩
  · rintro ⟨spelling, spells, rfl⟩
    exact parseText_of_spelling spells

theorem parseText_eq_boolean_iff {flag : Bool} :
    parseText text = .boolean flag ↔
      SameLetters (trim text) (if flag then "true" else "false").toList := by
  constructor
  · intro isBoolean
    cases reads_of_parseText_eq isBoolean with
    | yes word => exact (isWord_iff (by decide)).1 word
    | no word => exact (isWord_iff (by decide)).1 word
  · intro same
    cases flag with
    | true => exact parseText_of_sameLetters (by decide) same
    | false => exact parseText_of_sameLetters (by decide) same

theorem parseText_eq_vector_iff {doubles : List Binary64} :
    parseText text = .vector doubles ↔
      ∃ array : NumeralArray, array.text = trim text ∧ array.doubles = doubles := by
  constructor
  · intro isVector
    cases reads_of_parseText_eq isVector with
    | vector inner numerals brackets read =>
        obtain ⟨array, rfl, rfl⟩ := numerals?_eq_some_iff.1 read
        exact ⟨array, brackets.symm, by simp [NumeralArray.doubles]⟩
  · rintro ⟨array, isArray, rfl⟩
    exact parseText_of_array isArray

theorem parseText_eq_list_iff :
    (∃ items, parseText text = .list items) ↔
      InBrackets (trim text) ∧ ¬ ∃ array : NumeralArray, array.text = trim text := by
  constructor
  · rintro ⟨items, isList⟩
    -- The reading as a list does not tell by itself that the other reading was not possible.
    have noArray : ¬ ∃ array : NumeralArray, array.text = trim text := by
      rintro ⟨array, isArray⟩
      rw [parseText_of_array isArray] at isList
      cases isList
    cases reads_of_parseText_eq isList with
    | list inner brackets notNumerals => exact ⟨inBrackets_iff.2 ⟨inner, brackets⟩, noArray⟩
  · rintro ⟨brackets, noArray⟩
    exact parseText_of_inBrackets brackets noArray

theorem parseText_eq_text_iff {plain : String} :
    parseText text = .text plain ↔ plain = String.ofList (trim text) ∧ IsFreeText (trim text) := by
  constructor
  · intro isText
    have free := isFreeText_of_parseText isText
    rw [parseText_of_isFreeText free] at isText
    cases isText
    exact ⟨rfl, free⟩
  · rintro ⟨rfl, free⟩
    exact parseText_of_isFreeText free

end Reading

section Grammar

/-- The values of each kind and the texts, without blanks at their ends, that are read as them. -/
structure IsReadingOf (written : List Char) (value : Value) : Prop where
  absent : value = .absent ↔ written = [] ∨ SameLetters written "none".toList
  number : ∀ double, value = .number double ↔
    ∃ spelling : Numeral.Spelling, spelling.text = written ∧ spelling.numeral.toBinary64 = double
  boolean : ∀ flag, value = .boolean flag ↔
    SameLetters written (if flag then "true" else "false").toList
  vector : ∀ doubles, value = .vector doubles ↔
    ∃ array : NumeralArray, array.text = written ∧ array.doubles = doubles
  list : (∃ items, value = .list items) ↔
    InBrackets written ∧ ¬ ∃ array : NumeralArray, array.text = written
  text : ∀ plain, value = .text plain ↔ plain = String.ofList written ∧ IsFreeText written

/-- The grammar tells the kind of the value of every text, and the value unless it is a list. -/
theorem parse_kind_iff (text : String) : IsReadingOf (trim text.toList) (parse text) where
  absent := parseText_eq_absent_iff
  number _ := parseText_eq_number_iff
  boolean _ := parseText_eq_boolean_iff
  vector _ := parseText_eq_vector_iff
  list := parseText_eq_list_iff
  text _ := parseText_eq_text_iff

end Grammar

end DecisionNetwork.Value
