import DecisionNetwork.Proofs.Value.Equality
import DecisionNetwork.Proofs.Value.Reading

/-!
Contract: which values that were read from a text are read again from the text that shows them.

Owns:
- `OccursIn` and `IsLossy`, the parts of a value that keep it from being read again;
- `isGroup_render`: what shows the value of a group is a group of the same balance;
- `parseText_render` and `beq_parseText_render_of_lossy`, the two directions;
- `parse_display_beq_iff`, the exact condition.
-/

namespace DecisionNetwork.Value

open DecisionNetwork.Text

section Parts

/-- A value is the other value or an item of one of its lists, at any depth. -/
inductive OccursIn (part : Value) : Value → Prop where
  | itself : OccursIn part part
  | item {items : List Value} {item : Value} (member : item ∈ items) (inItem : OccursIn part item) :
      OccursIn part (.list items)

/-- Values that are not read again: numbers and vectors that are not finite, and lists of numbers
alone. -/
def IsLossy : Value → Prop
  | .number double => double.isFinite = false
  | .vector numbers => ∃ double ∈ numbers, double.isFinite = false
  | .list items => items ≠ [] ∧ ∀ item ∈ items, ∃ double, item = .number double
  | _ => False

/-- Only lists have other parts than themselves. -/
theorem isLossy_of_exists {value : Value} (notList : ∀ items, value ≠ .list items)
    (lossyPart : ∃ part, OccursIn part value ∧ IsLossy part) : IsLossy value := by
  obtain ⟨part, occurs, lossy⟩ := lossyPart
  cases occurs with
  | itself => exact lossy
  | item member inItem => exact absurd rfl (notList _)

theorem exists_lossy_list_iff {items : List Value} :
    (∃ part, OccursIn part (.list items) ∧ IsLossy part) ↔
      IsLossy (.list items) ∨ ∃ item ∈ items, ∃ part, OccursIn part item ∧ IsLossy part := by
  constructor
  · rintro ⟨part, occurs, lossy⟩
    cases occurs with
    | itself => exact Or.inl lossy
    | item member inItem => exact Or.inr ⟨_, member, part, inItem, lossy⟩
  · rintro (lossy | ⟨item, member, part, inItem, lossy⟩)
    · exact ⟨_, .itself, lossy⟩
    · exact ⟨part, .item member inItem, lossy⟩

end Parts

section Plain

/-- Whether a text has neither commas, parentheses nor blanks. -/
private def isSolid (text : List Char) : Bool :=
  text.all fun character => !isBlank character && character != ',' && weight character == 0

private theorem isGroup_of_isSolid {text : List Char} (someText : text ≠ [])
    (solid : isSolid text = true) : IsGroup text ∧ parenthesisBalance text = 0 := by
  have each (character : Char) (member : character ∈ text) :
      isBlank character = false ∧ character ≠ ',' ∧ weight character = 0 := by
    simpa [and_assoc] using List.all_eq_true.1 solid character member
  exact ⟨.fragment (bare_of_visible someText fun character member => (each character member).1)
      fun member => (each ',' member).2.1 rfl,
    parenthesisBalance_eq_zero fun character member => (each character member).2.2⟩

private theorem isSolid_of_read? {text : List Char} {numeral : Numeral}
    (read : Numeral.read? text = some numeral) : isSolid text = true := by
  unfold isSolid
  rw [List.all_eq_true]
  intro character member
  have isNumeral := Numeral.numeralCharacter_of_read? read member
  have noParenthesis := weight_of_numeralCharacter isNumeral
  have notComma : character ≠ ',' := fun isComma => noComma_of_read? read (isComma ▸ member)
  have visible := visible_of_numeralCharacter isNumeral
  simp [visible, notComma, noParenthesis]

theorem plain_of_not_finite {number : Binary64} (infinite : number.isFinite = false) :
    number.plain ∈ ["NaN", "inf", "-inf"] := by
  unfold Binary64.plain
  split
  · decide
  · rw [if_neg (by simp [infinite])]
    show (if number.isNegative then "-" else "") ++ "inf" ∈ _
    split <;> decide

theorem isGroup_plain (number : Binary64) :
    IsGroup number.plain.toList ∧ parenthesisBalance number.plain.toList = 0 := by
  cases finite : number.isFinite with
  | true =>
      obtain ⟨numeral, read, -⟩ := Binary64.read?_plain finite
      exact isGroup_of_isSolid (Numeral.ne_nil_of_read? read) (isSolid_of_read? read)
  | false =>
      have solid : ∀ name ∈ ["NaN", "inf", "-inf"],
          name.toList ≠ [] ∧ isSolid name.toList = true := by decide
      obtain ⟨someName, isSolidName⟩ := solid _ (plain_of_not_finite finite)
      exact isGroup_of_isSolid someName isSolidName

/-- The text of a number that is not finite is read as a text. -/
theorem parseText_plain_of_not_finite {number : Binary64} (infinite : number.isFinite = false) :
    parseText number.plain.toList = .text number.plain := by
  have named := plain_of_not_finite infinite
  have notValues : ∀ name ∈ ["NaN", "inf", "-inf"],
      readSimple? name.toList = none ∧ bracketed? name.toList = none := by decide
  obtain ⟨notSimple, noBrackets⟩ := notValues _ named
  rw [parseText_eq, (isGroup_plain number).1.isBare.2, notSimple, noBrackets]
  exact congrArg Value.text String.ofList_toList

theorem parseText_of_read? {text : List Char} {numeral : Numeral}
    (read : Numeral.read? text = some numeral) :
    parseText text = .number numeral.toBinary64 := by
  have someText := Numeral.ne_nil_of_read? read
  have bare := (isGroup_of_isSolid someText (isSolid_of_read? read)).1.isBare
  apply parseText_of_readSimple?
  unfold readSimple?
  rw [bare.2, if_neg (by simp [someText]), read]

theorem parseText_plain {number : Binary64} (finite : number.isFinite = true) :
    parseText number.plain.toList = .number number := by
  obtain ⟨numeral, read, isNumber⟩ := Binary64.read?_plain finite
  rw [parseText_of_read? read, isNumber]

end Plain

section Render

theorem renderItems_eq_map (items : List Value) : renderItems items = items.map render := by
  induction items with
  | nil => rfl
  | cons item rest inductionHypothesis => rw [renderItems, inductionHypothesis, List.map_cons]

theorem render_list (items : List Value) : render (.list items) = bracket (items.map render) := by
  rw [render, renderItems_eq_map]

private theorem weight_of_isWord {word : String} {text : List Char}
    (isText : isWord word text = true) (noParenthesis : '(' ∉ word.toList ∧ ')' ∉ word.toList) :
    parenthesisBalance text = 0 := by
  have isLower : text.map Char.toLower = word.toList := beq_iff_eq.1 isText
  have mapped (character : Char) (member : character ∈ text) :
      character.toLower ∈ word.toList := isLower ▸ List.mem_map_of_mem member
  apply parenthesisBalance_eq_zero
  intro character member
  unfold weight
  rw [if_neg, if_neg]
  · rintro rfl
    exact noParenthesis.2 (mapped _ member)
  · rintro rfl
    exact noParenthesis.1 (mapped _ member)

theorem parenthesisBalance_brackets (inner : List Char) :
    parenthesisBalance ('[' :: (inner ++ [']'])) = parenthesisBalance inner := by
  rw [parenthesisBalance_bracket, parenthesisBalance_append]
  exact Int.add_zero _

/-- A vector in a group has a single number, since a second one would follow a comma. -/
theorem exists_singleton_of_isGroup {inner : List Char} {numerals : List Numeral}
    (group : IsGroup ('[' :: (inner ++ [']']))) (read : numerals? inner = some numerals) :
    ∃ numeral, numerals = [numeral] := by
  have balanced : ∀ character ∈ '[' :: (inner ++ [']']), weight character = 0 := by
    intro character member
    rcases List.mem_cons.1 member with rfl | later
    · rfl
    · rcases List.mem_append.1 later with inside | last
      · exact weight_of_mem_numerals read inside
      · rw [List.mem_singleton.1 last]
        rfl
  have noComma : ',' ∉ inner := fun inside =>
    group.noComma_of_balanced balanced (List.mem_cons_of_mem _ (List.mem_append_left _ inside))
  unfold numerals? at read
  rw [pieces_of_notMem noComma] at read
  obtain ⟨numeral, -, isList⟩ := Option.bind_eq_some_iff.1 read
  cases isList
  exact ⟨numeral, rfl⟩

/-- What shows the value of a group is a group of the same balance. -/
theorem isGroup_render (text : List Char) (group : IsGroup text) :
    IsGroup (parseText text).render ∧
      parenthesisBalance (parseText text).render = parenthesisBalance text := by
  induction text using parseText_induction with
  | step text inductionHypothesis =>
      have reads := reads_parseText text
      rw [group.isBare.2] at reads inductionHypothesis
      generalize parseText text = value at reads
      cases reads with
      | blank isBlank => exact absurd isBlank group.isBare.1
      | number numeral read =>
          have balanced := (isGroup_of_isSolid group.isBare.1 (isSolid_of_read? read)).2
          rw [render, balanced]
          exact isGroup_plain _
      | yes word =>
          rw [weight_of_isWord word (by decide)]
          exact isGroup_of_isSolid (by decide) (by decide)
      | no word =>
          rw [weight_of_isWord word (by decide)]
          exact isGroup_of_isSolid (by decide) (by decide)
      | absent word =>
          rw [weight_of_isWord word (by decide)]
          exact isGroup_of_isSolid (by decide) (by decide)
      | vector inner numerals brackets read =>
          rw [brackets] at group ⊢
          obtain ⟨numeral, rfl⟩ := exists_singleton_of_isGroup group read
          have innerBalanced := parenthesisBalance_eq_zero fun _ member =>
            weight_of_mem_numerals read member
          obtain ⟨plainGroup, plainBalanced⟩ := isGroup_plain numeral.toBinary64
          rw [render, List.map_singleton, List.map_singleton, bracket, List.intercalate_singleton,
            parenthesisBalance_brackets, parenthesisBalance_brackets, innerBalanced, plainBalanced]
          exact ⟨plainGroup.bracket, rfl⟩
      | list inner brackets notNumerals =>
          rw [brackets] at group ⊢
          rw [render_list, List.map_map, parenthesisBalance_brackets]
          rcases groups_of_isGroup_bracket group with ⟨noGroup, balanced⟩ | ⟨single, isSingle, same⟩
          · rw [noGroup, balanced]
            exact isGroup_of_isSolid (by decide) (by decide)
          · have isGroup : IsGroup single :=
              isGroup_of_mem_groups (by rw [isSingle]; exact List.mem_singleton_self single)
            obtain ⟨rendered, sameRendered⟩ := inductionHypothesis inner brackets single
              (by rw [isSingle]; exact List.mem_singleton_self single) isGroup
            rw [isSingle, List.map_singleton, bracket, List.intercalate_singleton,
              parenthesisBalance_brackets, ← same, ← sameRendered]
            exact ⟨rendered.bracket, rfl⟩
      | plain =>
          rw [render, String.toList_ofList]
          exact ⟨group, rfl⟩

section Items

variable (inner : List Char)

theorem isGroup_of_mem_renders :
    ∀ text ∈ ((groups inner).map parseText).map render, IsGroup text := by
  intro text member
  simp only [List.mem_map, exists_exists_and_eq_and] at member
  obtain ⟨group, isGroup, rfl⟩ := member
  exact (isGroup_render group (isGroup_of_mem_groups isGroup)).1

/-- What shows the items of a list that was read is grouped into the same texts. -/
theorem groups_renders :
    groups ([','].intercalate (((groups inner).map parseText).map render)) =
      ((groups inner).map parseText).map render := by
  apply groups_intercalate (isGroup_of_mem_renders inner)
  intro text member
  rw [← List.map_dropLast, ← List.map_dropLast] at member
  simp only [List.mem_map, exists_exists_and_eq_and] at member
  obtain ⟨group, isEarly, rfl⟩ := member
  have isGroup := isGroup_of_mem_groups (List.mem_of_mem_dropLast isEarly)
  rw [leavesOpen_congr (isGroup_render group isGroup).2]
  exact closed_of_mem_groupsFrom none _ group isEarly

/-- The list between brackets, shown and read once more: a vector if all items are shown by
numerals, and else the list of the items shown and read once more. -/
theorem parseText_render_list :
    parseText (render (.list ((groups inner).map parseText))) =
      ((numerals? ([','].intercalate (((groups inner).map parseText).map render))).map
        fun numerals => .vector (numerals.map Numeral.toBinary64)).getD
          (.list (((groups inner).map parseText).map fun item => parseText item.render)) := by
  have again : (((groups inner).map parseText).map render).map parseText =
      ((groups inner).map parseText).map fun item => parseText item.render := List.map_map
  rw [render_list, bracket, parseText_brackets, groups_renders, again]

end Items

end Render

section Directions

theorem ne_nil_of_numerals? {inner : List Char} {numerals : List Numeral}
    (read : numerals? inner = some numerals) : numerals ≠ [] := by
  unfold numerals? at read
  split at read
  next => cases read
  next =>
      obtain ⟨first, -, isRest⟩ := Option.bind_eq_some_iff.1 read
      obtain ⟨rest, -, isList⟩ := Option.bind_eq_some_iff.1 isRest
      cases isList
      exact List.cons_ne_nil _ _

private theorem mapM_read?_plain {numbers : List Binary64}
    (finite : ∀ number ∈ numbers, number.isFinite = true) :
    ∃ numerals, (numbers.map fun number => number.plain.toList).mapM Numeral.read? = some numerals ∧
      numerals.map Numeral.toBinary64 = numbers := by
  induction numbers with
  | nil => exact ⟨[], rfl, rfl⟩
  | cons number rest inductionHypothesis =>
      obtain ⟨numeral, read, isNumber⟩ := Binary64.read?_plain (finite number List.mem_cons_self)
      obtain ⟨numerals, readRest, areNumbers⟩ :=
        inductionHypothesis fun later member => finite later (List.mem_cons_of_mem _ member)
      refine ⟨numeral :: numerals, ?_, ?_⟩
      · rw [List.map_cons, List.mapM_cons, read, readRest]
        rfl
      · rw [List.map_cons, isNumber, areNumbers]

/-- A vector of finite numbers is read again. -/
theorem parseText_render_vector {numbers : List Binary64} (someNumber : numbers ≠ [])
    (finite : ∀ number ∈ numbers, number.isFinite = true) :
    parseText (render (.vector numbers)) = .vector numbers := by
  obtain ⟨numerals, read, areNumbers⟩ := mapM_read?_plain finite
  have noComma : ∀ text ∈ numbers.map fun number => number.plain.toList, ',' ∉ text := by
    intro text member
    obtain ⟨number, isNumber, rfl⟩ := List.mem_map.1 member
    obtain ⟨numeral, readNumber, -⟩ := Binary64.read?_plain (finite number isNumber)
    exact noComma_of_read? readNumber
  have isPieces : pieces ',' ([','].intercalate (numbers.map fun number => number.plain.toList)) =
      numbers.map fun number => number.plain.toList := by
    rw [pieces_eq_splitOn, List.splitOn_intercalate ',' noComma (by simpa using someNumber)]
  have areNumerals : numerals? ([','].intercalate
      (numbers.map fun number => number.plain.toList)) = some numerals := by
    rw [numerals?_eq, numeralTexts_of_bare, isPieces]
    · exact read
    · rw [isPieces]
      intro text member
      obtain ⟨number, -, rfl⟩ := List.mem_map.1 member
      exact (isGroup_plain number).1.isBare
  rw [render, bracket, parseText_brackets, areNumerals]
  exact congrArg Value.vector areNumbers

/-- Items that are read again are not shown by numerals alone, unless they are numbers alone. -/
theorem numerals?_of_readAgain {inner : List Char}
    (readAgain : ∀ item ∈ (groups inner).map parseText, parseText item.render = item)
    (notLossy : ¬ IsLossy (.list ((groups inner).map parseText))) :
    numerals? ([','].intercalate (((groups inner).map parseText).map render)) = none := by
  refine Option.eq_none_iff_forall_ne_some.2 fun numerals areNumerals => notLossy ?_
  obtain ⟨someItem, readEach⟩ :=
    (exists_numerals?_iff (isGroup_of_mem_renders inner)).1 ⟨numerals, areNumerals⟩
  refine ⟨by simpa using someItem, fun item member => ?_⟩
  obtain ⟨numeral, read⟩ := readEach _ (List.mem_map_of_mem member)
  rw [← readAgain item member, parseText_of_read? read]
  exact ⟨_, rfl⟩

/-- Without a lossy part, a value that was read from a text is read again. -/
theorem parseText_render (text : List Char)
    (noLossyPart : ¬ ∃ part, OccursIn part (parseText text) ∧ IsLossy part) :
    parseText (parseText text).render = parseText text := by
  induction text using parseText_induction with
  | step text inductionHypothesis =>
      have reads := reads_parseText text
      generalize isValue : parseText text = value at reads noLossyPart
      cases reads with
      | blank isBlank => exact parseText_of_readSimple? rfl
      | number numeral read =>
          rw [render]
          apply parseText_plain
          by_contra infinite
          exact noLossyPart ⟨_, .itself, Bool.eq_false_iff.2 infinite⟩
      | yes word => exact parseText_of_readSimple? rfl
      | no word => exact parseText_of_readSimple? rfl
      | absent word => exact parseText_of_readSimple? rfl
      | vector inner numerals brackets read =>
          refine parseText_render_vector (by simpa using ne_nil_of_numerals? read) ?_
          intro number member
          by_contra infinite
          exact noLossyPart ⟨_, .itself, number, member, Bool.eq_false_iff.2 infinite⟩
      | list inner brackets notNumerals =>
          rw [exists_lossy_list_iff, not_or] at noLossyPart
          obtain ⟨notLossy, noLossyItem⟩ := noLossyPart
          have readAgain : ∀ item ∈ (groups inner).map parseText,
              parseText item.render = item := by
            intro item member
            obtain ⟨group, isGroup, rfl⟩ := List.mem_map.1 member
            exact inductionHypothesis inner brackets group isGroup fun lossy =>
              noLossyItem ⟨_, member, lossy⟩
          rw [parseText_render_list, numerals?_of_readAgain readAgain notLossy]
          exact congrArg Value.list ((List.map_congr_left readAgain).trans (List.map_id' _))
      | plain =>
          rw [render, String.toList_ofList, parseText_trim]
          exact isValue

theorem read?_plain_of_not_finite {number : Binary64} (infinite : number.isFinite = false) :
    Numeral.read? number.plain.toList = none := by
  have notNumerals : ∀ name ∈ ["NaN", "inf", "-inf"], Numeral.read? name.toList = none := by decide
  exact notNumerals _ (plain_of_not_finite infinite)

theorem numerals?_of_not_finite {numbers : List Binary64}
    (infinite : ∃ number ∈ numbers, number.isFinite = false) :
    numerals? ([','].intercalate (numbers.map fun number => number.plain.toList)) = none := by
  obtain ⟨number, member, isInfinite⟩ := infinite
  have areGroups : ∀ text ∈ numbers.map fun number => number.plain.toList, IsGroup text := by
    intro text isText
    obtain ⟨other, -, rfl⟩ := List.mem_map.1 isText
    exact (isGroup_plain other).1
  refine Option.eq_none_iff_forall_ne_some.2 fun numerals areNumerals => ?_
  obtain ⟨-, readEach⟩ := (exists_numerals?_iff areGroups).1 ⟨numerals, areNumerals⟩
  obtain ⟨numeral, read⟩ := readEach _ (List.mem_map_of_mem member)
  rw [read?_plain_of_not_finite isInfinite] at read
  cases read

/-- If numbers alone are not shown by numerals alone, then one of them is not finite. -/
theorem exists_changed_of_numbers {inner : List Char}
    (someItem : (groups inner).map parseText ≠ [])
    (areNumbers : ∀ item ∈ (groups inner).map parseText, ∃ double, item = .number double)
    (notNumerals :
      numerals? ([','].intercalate (((groups inner).map parseText).map render)) = none) :
    ∃ item ∈ (groups inner).map parseText, (parseText item.render == item) = false := by
  by_contra noChange
  have readEach : ∀ text ∈ ((groups inner).map parseText).map render,
      ∃ numeral, Numeral.read? text = some numeral := by
    intro text member
    obtain ⟨item, isItem, rfl⟩ := List.mem_map.1 member
    obtain ⟨number, rfl⟩ := areNumbers item isItem
    cases finite : number.isFinite with
    | true =>
        obtain ⟨numeral, read, -⟩ := Binary64.read?_plain finite
        exact ⟨numeral, by rw [render]; exact read⟩
    | false =>
        refine absurd ⟨_, isItem, ?_⟩ noChange
        rw [render, parseText_plain_of_not_finite finite]
        rfl
  obtain ⟨numerals, areNumerals⟩ := (exists_numerals?_iff (isGroup_of_mem_renders inner)).2
    ⟨by simpa using someItem, readEach⟩
  rw [notNumerals] at areNumerals
  cases areNumerals

/-- A value with a lossy part that was read from a text is not read again. -/
theorem beq_parseText_render_of_lossy (text : List Char)
    (lossyPart : ∃ part, OccursIn part (parseText text) ∧ IsLossy part) :
    (parseText (parseText text).render == parseText text) = false := by
  induction text using parseText_induction with
  | step text inductionHypothesis =>
      have reads := reads_parseText text
      generalize parseText text = value at reads lossyPart
      cases reads with
      | blank isBlank => exact (isLossy_of_exists (by simp) lossyPart).elim
      | number numeral read =>
          have infinite := isLossy_of_exists (by simp) lossyPart
          rw [render, parseText_plain_of_not_finite infinite]
          rfl
      | yes word => exact (isLossy_of_exists (by simp) lossyPart).elim
      | no word => exact (isLossy_of_exists (by simp) lossyPart).elim
      | absent word => exact (isLossy_of_exists (by simp) lossyPart).elim
      | vector inner numerals brackets read =>
          have infinite := isLossy_of_exists (by simp) lossyPart
          rw [render, bracket, parseText_brackets, numerals?_of_not_finite infinite]
          rfl
      | list inner brackets notNumerals =>
          rw [parseText_render_list]
          cases isVector : numerals?
              ([','].intercalate (((groups inner).map parseText).map render)) with
          | some numerals => rfl
          | none =>
              have changedItem : ∃ item ∈ (groups inner).map parseText,
                  (parseText item.render == item) = false := by
                rcases exists_lossy_list_iff.1 lossyPart with ⟨someItem, areNumbers⟩ | inItem
                · exact exists_changed_of_numbers someItem areNumbers isVector
                · obtain ⟨item, member, lossy⟩ := inItem
                  obtain ⟨group, isGroup, rfl⟩ := List.mem_map.1 member
                  exact ⟨_, member, inductionHypothesis inner brackets group isGroup lossy⟩
              obtain ⟨item, member, changed⟩ := changedItem
              exact beq_list_map_of_mem member changed
      | plain => exact (isLossy_of_exists (by simp) lossyPart).elim

end Directions

theorem parse_display (value : Value) : parse value.display = parseText value.render := by
  rw [parse, display, String.toList_ofList]

/-- A value that was read from a text is the value read from the text that shows it if and only
if none of its parts, at any depth, is lossy. -/
theorem parse_display_beq_iff (text : String) :
    (parse (parse text).display == parse text) = true ↔
      ∀ part, OccursIn part (parse text) → ¬ IsLossy part := by
  rw [parse_display]
  constructor
  · intro same part occurs lossy
    have differs := beq_parseText_render_of_lossy text.toList ⟨part, occurs, lossy⟩
    rw [parse, differs] at same
    cases same
  · intro notLossy
    have same := parseText_render text.toList fun ⟨part, occurs, lossy⟩ =>
      notLossy part occurs lossy
    rw [parse, same]
    exact beq_self _

end DecisionNetwork.Value
