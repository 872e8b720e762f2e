import DecisionNetwork.Proofs.Value.Characters

/-!
Contract: which lists of values are read again from the text that shows them.

Owns:
- `eq_of_intercalate_eq`: texts are told from their joined text if none has more commas than the
  one at its place;
- `isGroup_iff`, the groups of a list told by their pieces and by the parentheses before each comma;
- `groups_eq_of_beq`: a list that is read again is grouped into what shows its items;
- `parse_display_list_beq_iff`, the exact condition.
-/

namespace DecisionNetwork.Value

open DecisionNetwork.Text

section Commas

theorem length_pieces (separator : Char) (text : List Char) :
    (pieces separator text).length = text.count separator + 1 := by
  induction text with
  | nil => rfl
  | cons head tail inductionHypothesis =>
      unfold pieces
      by_cases isSeparator : head = separator
      · rw [if_pos isSeparator, List.length_cons, inductionHypothesis, isSeparator,
          List.count_cons_self]
      · rw [if_neg isSeparator, List.count_cons_of_ne isSeparator, ← inductionHypothesis]
        cases split : pieces separator tail with
        | nil => exact absurd split (pieces_ne_nil separator tail)
        | cons piece rest => rfl

/-- A text is split at a comma in one way only, once the commas before it are counted. -/
theorem append_comma_inj {left right leftRest rightRest : List Char}
    (same : left ++ ',' :: leftRest = right ++ ',' :: rightRest)
    (sameCount : left.count ',' = right.count ',') : left = right ∧ leftRest = rightRest := by
  have samePieces := congrArg (pieces ',') same
  rw [pieces_append_cons, pieces_append_cons] at samePieces
  have sameLength : (pieces ',' left).length = (pieces ',' right).length := by
    rw [length_pieces, length_pieces, sameCount]
  obtain ⟨front, back⟩ := List.append_inj samePieces sameLength
  have joined {first second : List Char} (equal : pieces ',' first = pieces ',' second) :
      first = second := by
    rw [← intercalate_pieces ',' first, equal, intercalate_pieces]
  exact ⟨joined front, joined back⟩

/-- Texts are told from their joined text if none has more commas than the one at its place. -/
theorem eq_of_intercalate_eq {lefts rights : List (List Char)}
    (fewer : List.Forall₂ (Preserves (· == ',')) lefts rights)
    (same : [','].intercalate lefts = [','].intercalate rights) : lefts = rights := by
  induction fewer with
  | nil => rfl
  | cons head tail inductionHypothesis =>
      cases tail with
      | nil => simpa using same
      | cons next further =>
          have restFewer := (Preserves.intercalate (.cons next further)).le
          rw [List.intercalate_cons_cons, List.intercalate_cons_cons, List.append_assoc,
            List.append_assoc, List.singleton_append, List.singleton_append] at same
          have total := congrArg (List.count ',') same
          simp only [List.count_append, List.count_cons_self] at total
          have headFewer := head.le
          simp only [← List.count_eq_countP] at restFewer headFewer
          obtain ⟨sameHead, sameRest⟩ := append_comma_inj same (by omega)
          rw [sameHead, inductionHypothesis sameRest]

end Commas

section Groups

private theorem exists_last_comma {text : List Char} (member : ',' ∈ text) :
    ∃ before after, text = before ++ ',' :: after ∧ ',' ∉ after := by
  obtain ⟨after, before, isReverse, noComma⟩ :=
    List.eq_append_cons_of_mem (List.mem_reverse.2 member)
  refine ⟨before.reverse, after.reverse, ?_, by simpa using noComma⟩
  rw [← text.reverse_reverse, isReverse]
  simp

/-- A text is a group if and only if its pieces are bare and before each comma more parentheses
are opened than closed. -/
theorem isGroup_iff {text : List Char} :
    IsGroup text ↔ (∀ piece ∈ pieces ',' text, Bare piece) ∧
      ∀ before after, text = before ++ ',' :: after → before.count ')' < before.count '(' := by
  constructor
  · intro group
    refine ⟨group.bare_pieces, ?_⟩
    induction group with
    | fragment bare noComma =>
        rintro before after rfl
        exact absurd (List.mem_append_right _ List.mem_cons_self) noComma
    | joined group isOpen bare noComma inductionHypothesis =>
        intro before after isText
        rcases List.append_eq_append_iff.1 isText with ⟨between, isBefore, isRest⟩ | early
        · -- the comma lies at the end of the open text, since none follows it
          cases between with
          | nil =>
              rw [isBefore, List.append_nil]
              exact (leavesOpen_iff_count _).1 isOpen
          | cons first between =>
              rw [List.cons_append, List.cons.injEq] at isRest
              exact absurd (isRest.2 ▸ List.mem_append_right _ List.mem_cons_self) noComma
        · obtain ⟨between, isOpened, isRest⟩ := early
          cases between with
          | nil =>
              rw [List.append_nil] at isOpened
              rw [← isOpened]
              exact (leavesOpen_iff_count _).1 isOpen
          | cons first between =>
              rw [List.cons_append, List.cons.injEq] at isRest
              rw [← isRest.1] at isOpened
              exact inductionHypothesis before between isOpened
  · rintro ⟨bare, opened⟩
    induction size : text.length using Nat.strong_induction_on generalizing text with
    | _ size' inductionHypothesis =>
        by_cases comma : ',' ∈ text
        · obtain ⟨before, after, rfl, noComma⟩ := exists_last_comma comma
          rw [pieces_append_cons, pieces_of_notMem noComma] at bare
          have shorter : before.length < size' := by
            rw [← size, List.length_append, List.length_cons]
            omega
          have group : IsGroup before := by
            refine inductionHypothesis before.length shorter
              (fun piece member => bare piece (List.mem_append_left _ member)) ?_ rfl
            rintro early late rfl
            exact opened early (late ++ ',' :: after) (by simp)
          exact .joined group ((leavesOpen_iff_count before).2 (opened before after rfl))
            (bare after (List.mem_append_right _ (List.mem_singleton_self after))) noComma
        · rw [pieces_of_notMem comma] at bare
          exact .fragment (bare text (List.mem_singleton_self text)) comma

end Groups

section Lists

variable {items : List Value}

/-- A list that is read again is grouped into what shows its items. -/
theorem groups_eq_of_beq
    (same : (Value.list ((groups ([','].intercalate (items.map render))).map parseText) ==
      .list items) = true) :
    groups ([','].intercalate (items.map render)) = items.map render := by
  generalize isInner : [','].intercalate (items.map render) = inner at same ⊢
  rw [beq_list_iff, List.forall₂_map_left_iff] at same
  have preserved {test : Char → Bool}
      (overlooks : ∀ character, isPlain character = true → test character = false) :
      List.Forall₂ (Preserves test) (items.map render) (groups inner) := by
    rw [List.forall₂_map_left_iff]
    refine same.flip.imp fun item group readsItem => ?_
    exact (preserves_render_of_beq overlooks _ _ (beq_symm readsItem)).trans
      (preserves_render_parseText overlooks group)
  -- what shows the items has no more blanks and commas than the groups, so none was left out
  have loose := preserved fun _ plain => isLoose_eq_false_of_isPlain plain
  have looseKept := (Preserves.intercalate loose).le
  rw [isInner] at looseKept
  have nothingLost := (thins_groups inner).eq_of_countP_le looseKept
  have commas := preserved fun _ plain =>
    (Bool.or_eq_false_iff.1 (isLoose_eq_false_of_isPlain plain)).2
  exact (eq_of_intercalate_eq commas (isInner.trans nothingLost.symm)).symm

/-- A number that is read again is shown by a numeral. -/
theorem exists_read?_of_beq {double : Binary64}
    (same : (parseText (render (.number double)) == .number double) = true) :
    ∃ numeral, Numeral.read? (render (.number double)) = some numeral := by
  rw [render] at same ⊢
  cases finite : double.isFinite with
  | true =>
      obtain ⟨numeral, read, -⟩ := Binary64.read?_plain finite
      exact ⟨numeral, read⟩
  | false =>
      rw [parseText_plain_of_not_finite finite] at same
      cases kind_eq_of_beq same

/-- An item that is shown by a numeral and read again is a number. -/
theorem exists_number_of_beq {item : Value} {numeral : Numeral}
    (read : Numeral.read? item.render = some numeral)
    (same : (parseText item.render == item) = true) : ∃ double, item = .number double := by
  rw [parseText_of_read? read] at same
  have sameKind := kind_eq_of_beq same
  cases item with
  | number double => exact ⟨double, rfl⟩
  | _ => cases sameKind

theorem numerals?_renders_iff (someItem : items ≠ [])
    (readAgain : ∀ item ∈ items, (parseText item.render == item) = true)
    (areGroups : ∀ item ∈ items, IsGroup item.render) :
    (∃ numerals, numerals? ([','].intercalate (items.map render)) = some numerals) ↔
      ∀ item ∈ items, ∃ double, item = .number double := by
  rw [exists_numerals?_iff (List.forall_mem_map.2 areGroups), List.forall_mem_map,
    and_iff_right (by simpa using someItem)]
  constructor
  · intro readEach item member
    obtain ⟨numeral, read⟩ := readEach item member
    exact exists_number_of_beq read (readAgain item member)
  · intro areNumbers item member
    obtain ⟨double, rfl⟩ := areNumbers item member
    exact exists_read?_of_beq (readAgain _ member)


/-- A list that is read again holds items that are read again on their own, and groups shown by
them. -/
theorem items_of_beq (someItem : items ≠ [])
    (same : (parseText (render (.list items)) == .list items) = true) :
    (¬ ∀ item ∈ items, ∃ double, item = .number double) ∧
      (∀ item ∈ items, (parseText item.render == item) = true) ∧
      (∀ item ∈ items, IsGroup item.render) ∧
      ∀ item ∈ items.dropLast, leavesOpen item.render = false := by
  rw [render_list, bracket, parseText_brackets] at same
  cases areNumerals : numerals? ([','].intercalate (items.map render)) with
  | some numerals =>
      rw [areNumerals] at same
      cases kind_eq_of_beq same
  | none =>
      rw [areNumerals, Option.map_none, Option.getD_none] at same
      have isGrouped := groups_eq_of_beq same
      have readAgain : ∀ item ∈ items, (parseText item.render == item) = true := by
        rwa [isGrouped, beq_list_iff, List.map_map, List.forall₂_map_left_iff,
          List.forall₂_same] at same
      have areGroups : ∀ item ∈ items, IsGroup item.render := by
        intro item member
        apply isGroup_of_mem_groups
        rw [isGrouped]
        exact List.mem_map_of_mem member
      refine ⟨fun areNumbers => ?_, readAgain, areGroups, fun item member => ?_⟩
      · obtain ⟨numerals, read⟩ := (numerals?_renders_iff someItem readAgain areGroups).2 areNumbers
        rw [areNumerals] at read
        cases read
      · apply closed_of_mem_groupsFrom none (fragments (pieces ',' _))
        rw [← groups, isGrouped, ← List.map_dropLast]
        exact List.mem_map_of_mem member

theorem beq_of_items (someItem : items ≠ [])
    (notNumbers : ¬ ∀ item ∈ items, ∃ double, item = .number double)
    (readAgain : ∀ item ∈ items, (parseText item.render == item) = true)
    (areGroups : ∀ item ∈ items, IsGroup item.render)
    (closed : ∀ item ∈ items.dropLast, leavesOpen item.render = false) :
    (parseText (render (.list items)) == .list items) = true := by
  have notNumerals : numerals? ([','].intercalate (items.map render)) = none := by
    refine Option.eq_none_iff_forall_ne_some.2 fun numerals areNumerals => notNumbers ?_
    exact (numerals?_renders_iff someItem readAgain areGroups).1 ⟨numerals, areNumerals⟩
  have isGrouped : groups ([','].intercalate (items.map render)) = items.map render := by
    apply groups_intercalate (List.forall_mem_map.2 areGroups)
    rw [← List.map_dropLast]
    exact List.forall_mem_map.2 closed
  rw [render_list, bracket, parseText_brackets, notNumerals, Option.map_none, Option.getD_none,
    isGrouped, beq_list_iff, List.map_map, List.forall₂_map_left_iff, List.forall₂_same]
  exact readAgain

theorem beq_nil : (parseText (render (.list [])) == .list []) = true := by
  have notNumerals : numerals? [] = none := by decide
  have noGroup : groups [] = [] := by decide
  rw [render_list, bracket, List.map_nil, List.intercalate_nil, parseText_brackets, notNumerals,
    noGroup]
  rfl

end Lists

/-- A list is read from the text that shows it if and only if it is empty, or its items are not
numbers alone, each is read again on its own, is shown by bare pieces between commas before each of
which more parentheses are opened than closed, and but for the last opens no more than it
closes. -/
theorem parse_display_list_beq_iff (items : List Value) :
    (parse (Value.list items).display == .list items) = true ↔
      items = [] ∨
        (¬ ∀ item ∈ items, ∃ double, item = .number double) ∧
        (∀ item ∈ items, (parse item.display == item) = true) ∧
        (∀ item ∈ items, (∀ piece ∈ pieces ',' item.render, Bare piece) ∧
          ∀ before after, item.render = before ++ ',' :: after →
            before.count ')' < before.count '(') ∧
        ∀ item ∈ items.dropLast, item.render.count '(' ≤ item.render.count ')' := by
  have closedIff (text : List Char) :
      text.count '(' ≤ text.count ')' ↔ leavesOpen text = false := by
    rw [← Bool.not_eq_true, leavesOpen_iff_count, Nat.not_lt]
  simp only [parse_display, ← isGroup_iff, closedIff]
  by_cases someItem : items = []
  · subst someItem
    exact iff_of_true beq_nil (Or.inl rfl)
  · rw [or_iff_right someItem]
    constructor
    · exact items_of_beq someItem
    · rintro ⟨notNumbers, readAgain, areGroups, closed⟩
      exact beq_of_items someItem notNumbers readAgain areGroups closed

end DecisionNetwork.Value
