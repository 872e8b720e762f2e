import DecisionNetwork.Proofs.Value.RoundTrip

/-!
Contract: which characters of a text are still shown by the value that was read from it.

Owns:
- `Thins`, a text without some of its blanks and commas, and `thins_groups`: this is what the groups
  of a list are, joined by commas;
- `Preserves`, by which one text shows no more characters of a kind than another, and as many if
  the kind has neither blanks nor commas;
- `preserves_render_parseText` and `preserves_render_of_beq`: the kinds that no number and no word
  is written with are preserved by reading and showing, and by equality;
- `count_render_parseText` and `count_render_of_beq`, the same for a single character.
-/

namespace DecisionNetwork.Value

open DecisionNetwork.Text

/-- A character that reading may drop. -/
def isLoose (character : Char) : Bool := isBlank character || character == ','

/-- A character that numbers and words are written with. -/
def isPlain (character : Char) : Bool :=
  character.isAlphanum || ['+', '-', '.'].contains character

/-- Reading drops no character that numbers and words are written with. -/
theorem isLoose_eq_false_of_isPlain {character : Char} (plain : isPlain character = true) :
    isLoose character = false := by
  unfold isPlain at plain
  rcases Bool.or_eq_true_iff.1 plain with letter | isMark
  · unfold Char.isAlphanum Char.isAlpha Char.isUpper Char.isLower Char.isDigit at letter
    have inRange : 48 ≤ character.toNat ∧ character.toNat ≤ 122 := by
      simp [UInt32.le_iff_toNat_le] at letter
      omega
    have notComma : character ≠ ',' := by
      rintro rfl
      exact absurd inRange.1 (by decide)
    unfold isLoose isBlank
    simp [notComma]
    omega
  · have marksSolid : (['+', '-', '.'].all fun mark => !isLoose mark) = true := by decide
    simpa using List.all_eq_true.1 marksSolid character (by simpa using isMark)
section Thins

/-- A text is another one without some of its loose characters. -/
structure Thins (thin text : List Char) : Prop where
  sublist : thin.Sublist text
  solid : (thin.filter fun character => !isLoose character) =
    text.filter fun character => !isLoose character

namespace Thins

variable {thin text : List Char}

theorem refl (text : List Char) : Thins text text := ⟨List.Sublist.refl _, rfl⟩

theorem nil (loose : ∀ character ∈ text, isLoose character = true) : Thins [] text := by
  refine ⟨List.nil_sublist _, (List.filter_eq_nil_iff.2 fun character member => ?_).symm⟩
  simp [loose character member]

theorem append {otherThin otherText : List Char} (front : Thins thin text)
    (back : Thins otherThin otherText) : Thins (thin ++ otherThin) (text ++ otherText) where
  sublist := front.sublist.append back.sublist
  solid := by rw [List.filter_append, List.filter_append, front.solid, back.solid]

/-- A text that has lost no loose character is unchanged. -/
theorem eq_of_countP_le (thins : Thins thin text)
    (kept : text.countP isLoose ≤ thin.countP isLoose) : thin = text := by
  apply thins.sublist.eq_of_length
  have solid := congrArg List.length thins.solid
  have fewer := thins.sublist.countP_le (p := isLoose)
  simp only [← List.countP_eq_length_filter] at solid
  have thinLength := thin.length_eq_countP_add_countP isLoose
  have textLength := text.length_eq_countP_add_countP isLoose
  simp only [Bool.not_eq_true, Bool.decide_eq_false] at thinLength textLength
  omega

end Thins

theorem isLoose_of_blank {character : Char} (blank : isBlank character = true) :
    isLoose character = true := by rw [isLoose, blank, Bool.true_or]

theorem thins_trimLeft (text : List Char) : Thins (trimLeft text) text := by
  obtain ⟨before, isText, blankBefore⟩ := exists_trimLeft text
  have front := Thins.nil fun character member => isLoose_of_blank (blankBefore character member)
  have thins := front.append (Thins.refl (trimLeft text))
  rwa [← isText] at thins

theorem thins_trim (text : List Char) : Thins (trim text) text := by
  obtain ⟨before, after, isText, blankBefore, blankAfter⟩ := exists_trim text
  have front := Thins.nil fun character member => isLoose_of_blank (blankBefore character member)
  have back := Thins.nil fun character member => isLoose_of_blank (blankAfter character member)
  have thins := front.append ((Thins.refl (trim text)).append back)
  rwa [← isText, List.nil_append, List.append_nil] at thins

private theorem thins_comma : Thins [] [','] := Thins.nil (List.forall_mem_singleton.2 rfl)

theorem thins_fragments (pieces : List (List Char)) :
    Thins ([','].intercalate (fragments pieces)) ([','].intercalate pieces) := by
  induction pieces with
  | nil => exact Thins.refl _
  | cons piece rest inductionHypothesis =>
      have trimmed := thins_trim piece
      rw [fragments_cons]
      cases rest with
      | nil =>
          split
          next blank =>
              rw [List.isEmpty_iff.1 blank] at trimmed
              simpa [fragments] using trimmed
          next => simpa [fragments] using trimmed
      | cons next further =>
          rw [List.intercalate_cons_cons]
          split
          next blank =>
              rw [List.isEmpty_iff.1 blank] at trimmed
              exact (trimmed.append thins_comma).append inductionHypothesis
          next =>
              generalize fragments (next :: further) = others at inductionHypothesis
              cases others with
              | nil =>
                  have thins := (trimmed.append thins_comma).append inductionHypothesis
                  simpa using thins
              | cons other others =>
                  rw [List.intercalate_cons_cons]
                  exact (trimmed.append (Thins.refl [','])).append inductionHypothesis

theorem intercalate_pieces (separator : Char) (text : List Char) :
    [separator].intercalate (pieces separator text) = text := by
  rw [pieces_eq_splitOn, List.intercalate_splitOn]

/-- The groups of a list are its inside without some blanks and commas. -/
theorem thins_groups (inner : List Char) : Thins ([','].intercalate (groups inner)) inner := by
  have thins := thins_fragments (pieces ',' inner)
  rw [intercalate_pieces] at thins
  have sameFragments := flatMap_pieces_groups inner
  by_cases noGroup : groups inner = []
  · rw [noGroup] at sameFragments ⊢
    rwa [← sameFragments] at thins
  · rwa [← sameFragments, ← pieces_intercalate ',' noGroup, intercalate_pieces] at thins

end Thins

section Preserves

/-- A text has no more characters of a kind than another, and as many if none of the kind is
loose. -/
structure Preserves (test : Char → Bool) (shown text : List Char) : Prop where
  le : shown.countP test ≤ text.countP test
  eq : (∀ character, isLoose character = true → test character = false) →
    shown.countP test = text.countP test

namespace Preserves

variable {test : Char → Bool} {shown text : List Char}

theorem refl (test : Char → Bool) (text : List Char) : Preserves test text text :=
  ⟨le_refl _, fun _ => rfl⟩

theorem trans {middle : List Char} (first : Preserves test shown middle)
    (second : Preserves test middle text) : Preserves test shown text :=
  ⟨first.le.trans second.le, fun solid => (first.eq solid).trans (second.eq solid)⟩

theorem append {otherShown otherText : List Char} (front : Preserves test shown text)
    (back : Preserves test otherShown otherText) :
    Preserves test (shown ++ otherShown) (text ++ otherText) where
  le := by
    rw [List.countP_append, List.countP_append]
    exact Nat.add_le_add front.le back.le
  eq solid := by rw [List.countP_append, List.countP_append, front.eq solid, back.eq solid]

theorem of_thins (test : Char → Bool) (thins : Thins shown text) : Preserves test shown text where
  le := thins.sublist.countP_le
  eq solid := by
    have counted (characters : List Char) : characters.countP test =
        (characters.filter fun character => !isLoose character).countP test := by
      rw [List.countP_filter]
      refine List.countP_congr fun character _ => ?_
      cases loose : isLoose character with
      | true => simp [solid character loose]
      | false => simp
    rw [counted, thins.solid, ← counted]

theorem brackets (inside : Preserves test shown text) :
    Preserves test ('[' :: (shown ++ [']'])) ('[' :: (text ++ [']'])) :=
  (refl test ['[']).append (inside.append (refl test [']']))

theorem intercalate {left right : List (List Char)}
    (each : List.Forall₂ (Preserves test) left right) :
    Preserves test ([','].intercalate left) ([','].intercalate right) := by
  induction each with
  | nil => exact refl test _
  | cons head tail inductionHypothesis =>
      cases tail with
      | nil => simpa using head
      | cons next further =>
          rw [List.intercalate_cons_cons, List.intercalate_cons_cons]
          exact (head.append (refl test [','])).append inductionHypothesis

end Preserves

section Shown

theorem isPlain_of_numeralCharacter {character : Char}
    (isNumeral : Numeral.IsNumeralCharacter character) : isPlain character = true := by
  rcases isNumeral with digit | isMark
  · simp [isPlain, Char.isAlphanum, digit]
  · have marksPlain : (['+', '-', '.', 'e', 'E'].all isPlain) = true := by decide
    exact List.all_eq_true.1 marksPlain character isMark

theorem all_isPlain_of_read? {text : List Char} {numeral : Numeral}
    (read : Numeral.read? text = some numeral) : text.all isPlain = true :=
  List.all_eq_true.2 fun _ member =>
    isPlain_of_numeralCharacter (Numeral.numeralCharacter_of_read? read member)

theorem all_isPlain_plain (number : Binary64) : number.plain.toList.all isPlain = true := by
  cases finite : number.isFinite with
  | true =>
      obtain ⟨numeral, read, -⟩ := Binary64.read?_plain finite
      exact all_isPlain_of_read? read
  | false =>
      have namesPlain : ∀ name ∈ ["NaN", "inf", "-inf"], name.toList.all isPlain = true := by
        decide
      exact namesPlain _ (plain_of_not_finite finite)

theorem all_isPlain_of_isWord {word : String} {text : List Char}
    (isText : isWord word text = true) (letters : word.toList.all Char.isLower = true) :
    text.all isPlain = true := by
  refine List.all_eq_true.2 fun character member => ?_
  have isLower : text.map Char.toLower = word.toList := beq_iff_eq.1 isText
  have lower := List.all_eq_true.1 letters character.toLower
    (isLower ▸ List.mem_map_of_mem member)
  unfold isPlain Char.isAlphanum Char.isAlpha
  cases upper : character.isUpper with
  | true => rfl
  | false =>
      have unchanged : character.toLower = character := by
        unfold Char.isUpper at upper
        unfold Char.toLower
        simp at upper ⊢
        grind
      rw [unchanged] at lower
      rw [lower]
      rfl

variable {test : Char → Bool}
  (overlooks : ∀ character, isPlain character = true → test character = false)
include overlooks

/-- Plain characters do not count. -/
theorem Preserves.of_plain {shown text : List Char}
    (shownPlain : shown.all isPlain = true) (textPlain : text.all isPlain = true) :
    Preserves test shown text := by
  have none {characters : List Char} (plain : characters.all isPlain = true) :
      characters.countP test = 0 :=
    List.countP_eq_zero.2 fun character member => by
      simp [overlooks character (List.all_eq_true.1 plain character member)]
  exact ⟨(none shownPlain).trans_le (Nat.zero_le _),
    fun _ => (none shownPlain).trans (none textPlain).symm⟩

theorem preserves_plain_of_read? {text : List Char} {numeral : Numeral}
    (read : Numeral.read? text = some numeral) :
    Preserves test numeral.toBinary64.plain.toList text :=
  .of_plain overlooks (all_isPlain_plain _) (all_isPlain_of_read? read)

omit overlooks in
theorem preserves_numeralTexts (inner : List Char) :
    Preserves test ([','].intercalate (numeralTexts inner)) inner := by
  conv_rhs => rw [← intercalate_pieces ',' inner]
  apply Preserves.intercalate
  unfold numeralTexts
  cases pieces ',' inner with
  | nil => exact List.Forall₂.nil
  | cons first rest =>
      refine .cons (.refl test first) ?_
      rw [List.forall₂_map_left_iff, List.forall₂_same]
      exact fun piece _ => .of_thins test (thins_trimLeft piece)

omit overlooks in
theorem forall₂_of_mapM {α β : Type} {read : α → Option β} {items : List α} {results : List β}
    (succeeds : items.mapM read = some results) :
    List.Forall₂ (fun result item => read item = some result) results items := by
  induction items generalizing results with
  | nil =>
      cases succeeds
      exact .nil
  | cons item rest inductionHypothesis =>
      rw [List.mapM_cons] at succeeds
      obtain ⟨result, isResult, later⟩ := Option.bind_eq_some_iff.1 succeeds
      obtain ⟨others, areOthers, isList⟩ := Option.bind_eq_some_iff.1 later
      cases isList
      exact .cons isResult (inductionHypothesis areOthers)

theorem preserves_vector {inner : List Char} {numerals : List Numeral}
    (read : numerals? inner = some numerals) :
    Preserves test (render (.vector (numerals.map Numeral.toBinary64)))
      ('[' :: (inner ++ [']'])) := by
  rw [numerals?_eq] at read
  rw [render, bracket, List.map_map]
  refine Preserves.brackets
    (Preserves.trans (Preserves.intercalate ?_) (preserves_numeralTexts inner))
  rw [List.forall₂_map_left_iff]
  exact (forall₂_of_mapM read).imp fun _ _ readText => preserves_plain_of_read? overlooks readText

/-- What shows the value of a text has the same characters but for blanks, commas and what numbers
and words are written with. -/
theorem preserves_render_parseText (text : List Char) :
    Preserves test (parseText text).render text := by
  induction text using parseText_induction with
  | step text inductionHypothesis =>
      refine .trans ?_ (.of_thins test (thins_trim text))
      have reads := reads_parseText text
      generalize parseText text = value at reads
      cases reads with
      | blank isBlank =>
          rw [isBlank]
          exact .of_plain overlooks (by decide) (by decide)
      | number numeral read =>
          rw [render]
          exact preserves_plain_of_read? overlooks read
      | yes word =>
          exact .of_plain overlooks (by decide) (all_isPlain_of_isWord word (by decide))
      | no word =>
          exact .of_plain overlooks (by decide) (all_isPlain_of_isWord word (by decide))
      | absent word =>
          exact .of_plain overlooks (by decide) (all_isPlain_of_isWord word (by decide))
      | vector inner numerals brackets read =>
          rw [brackets]
          exact preserves_vector overlooks read
      | list inner brackets notNumerals =>
          rw [brackets, render_list, bracket, List.map_map]
          refine Preserves.brackets (Preserves.trans (Preserves.intercalate ?_)
            (.of_thins test (thins_groups inner)))
          rw [List.forall₂_map_left_iff, List.forall₂_same]
          exact inductionHypothesis inner brackets
      | plain =>
          rw [render, String.toList_ofList]
          exact .refl test _

end Shown

section Equal

variable {test : Char → Bool}

theorem preserves_plains_of_compare_eq
    (overlooks : ∀ character, isPlain character = true → test character = false) :
    ∀ {lefts rights : List Binary64}, compare lefts rights = .eq → List.Forall₂ (Preserves test)
      (lefts.map fun double => double.plain.toList) (rights.map fun double => double.plain.toList)
  | [], [], _ => .nil
  | [], _ :: _, same | _ :: _, [], same => by cases same
  | left :: lefts, right :: rights, same => by
      rw [List.compare_cons_cons, Ordering.then_eq_eq] at same
      exact .cons (.of_plain overlooks (all_isPlain_plain _) (all_isPlain_plain _))
        (preserves_plains_of_compare_eq overlooks same.2)

mutual

/-- Equal values are shown by the same characters but for what numbers are written with. -/
theorem preserves_render_of_beq
    (overlooks : ∀ character, isPlain character = true → test character = false)
    (left right : Value) (same : (left == right) = true) :
    Preserves test left.render right.render := by
  have sameKind := kind_eq_of_beq same
  cases left <;> cases right <;> simp [kind] at sameKind
  case absent.absent => exact .refl test _
  case boolean.boolean flag other =>
    have wordsPlain : ∀ flag, (Value.boolean flag).render.all isPlain = true := by decide
    exact .of_plain overlooks (wordsPlain flag) (wordsPlain other)
  case number.number double other =>
    rw [render, render]
    exact .of_plain overlooks (all_isPlain_plain _) (all_isPlain_plain _)
  case vector.vector doubles others =>
    rw [render, render]
    have samePlaces := preserves_plains_of_compare_eq overlooks (beq_iff_compare_eq.1 same)
    exact .brackets (.intercalate samePlaces)
  case text.text characters others =>
    have isSame : characters = others := Std.compare_eq_iff_eq.1 (beq_iff_compare_eq.1 same)
    rw [isSame]
    exact .refl test _
  case list.list lefts rights =>
    rw [render_list, render_list]
    have samePlaces := preserves_renders_of_beq overlooks lefts rights (beq_list_iff.1 same)
    exact .brackets (.intercalate samePlaces)

theorem preserves_renders_of_beq
    (overlooks : ∀ character, isPlain character = true → test character = false) :
    ∀ lefts rights : List Value,
      List.Forall₂ (fun left right => (left == right) = true) lefts rights →
      List.Forall₂ (Preserves test) (lefts.map render) (rights.map render)
  | [], _, .nil => .nil
  | left :: lefts, right :: rights, .cons head tail =>
      .cons (preserves_render_of_beq overlooks left right head)
        (preserves_renders_of_beq overlooks lefts rights tail)

end

end Equal

section Count

variable (character : Char) (rare : isPlain character = false)
include rare

private theorem overlooks_of_rare (other : Char) (plain : isPlain other = true) :
    (other == character) = false := by
  refine beq_eq_false_iff_ne.2 fun same => ?_
  rw [same, rare] at plain
  cases plain

variable (solid : isLoose character = false)
include solid

omit rare in
private theorem solid_of_count (other : Char) (loose : isLoose other = true) :
    (other == character) = false := by
  refine beq_eq_false_iff_ne.2 fun same => ?_
  rw [same, solid] at loose
  cases loose

/-- What shows the value of a text has a rare character as often as the text. -/
theorem count_render_parseText (text : List Char) :
    (parseText text).render.count character = text.count character :=
  (preserves_render_parseText (overlooks_of_rare character rare) text).eq
    (solid_of_count character solid)

theorem count_render_of_beq {left right : Value} (same : (left == right) = true) :
    left.render.count character = right.render.count character :=
  (preserves_render_of_beq (overlooks_of_rare character rare) left right same).eq
    (solid_of_count character solid)

omit rare in
theorem count_trim (text : List Char) : (trim text).count character = text.count character :=
  (Preserves.of_thins _ (thins_trim text)).eq (solid_of_count character solid)

end Count

end Preserves

end DecisionNetwork.Value
