import DecisionNetwork.Proofs.Assignment.Bindings
import DecisionNetwork.Proofs.Rule.Slots

/-!
Contract: templates that are filled more than once.

Owns:
- `bracesAroundSlots_iff`: the braces of a text are around slots if and only if it is written from
  slots and characters other than braces, and `segments_flatMap_source`, by which it is read as
  what it is written from;
- `filledSegments`, what becomes of a segment, and `segments_filledText`, the reading of a filled
  text;
- `trim_flatMap_fillSegment_trim`, by which trimming between two fillings does not show;
- `fill_fill`: filling twice is filling once from both assignments, of which the first one wins.
-/

namespace DecisionNetwork.Template

open DecisionNetwork.Text

section Segments

/-- A slot, or a character other than a brace. -/
def Segment.IsPlain : Segment → Prop
  | .character shown => isBrace shown = false
  | .slot inside => IsInside inside

instance (inside : List Char) : Decidable (IsInside inside) :=
  decidable_of_iff (inside ≠ [] ∧ (inside.all fun character => !isBrace character) = true) <| by
    rw [List.all_eq_true]
    constructor
    · rintro ⟨someCharacter, noBrace⟩
      exact ⟨someCharacter, fun character member => by simpa using noBrace character member⟩
    · intro isInside
      exact ⟨isInside.someCharacter, fun character member => by
        simpa using isInside.noBrace character member⟩

instance : DecidablePred Segment.IsPlain
  | .character shown => inferInstanceAs (Decidable (isBrace shown = false))
  | .slot inside => inferInstanceAs (Decidable (IsInside inside))

theorem segments_cons_of_noBrace {shown : Char} (noBrace : isBrace shown = false)
    (text : List Char) : segments (shown :: text) = .character shown :: segments text := by
  have notOpen : shown ≠ openBrace := by
    rintro rfl
    cases noBrace
  rw [segments, if_neg notOpen]

theorem segments_slotText_append {inside : List Char} (isInside : IsInside inside)
    (text : List Char) : segments (slotText inside ++ text) = .slot inside :: segments text := by
  have found : slotInside? (inside ++ closeBrace :: text) = some (inside, text) :=
    slotInside?_eq_some_iff.2 ⟨rfl, isInside⟩
  rw [slotText, List.cons_append, List.append_assoc, List.singleton_append, segments, if_pos rfl]
  split
  next other rest isFound =>
      rw [found] at isFound
      cases isFound
      rfl
  next missing =>
      rw [found] at missing
      cases missing

/-- A text is read as the plain segments that it is written from. -/
theorem segments_flatMap_source {written : List Segment}
    (plain : ∀ segment ∈ written, segment.IsPlain) :
    segments (written.flatMap Segment.source) = written := by
  induction written with
  | nil => rw [List.flatMap_nil, segments]
  | cons first rest inductionHypothesis =>
      have isRest := inductionHypothesis fun segment member =>
        plain segment (List.mem_cons_of_mem first member)
      have firstPlain := plain first List.mem_cons_self
      rw [List.flatMap_cons]
      cases first with
      | character shown =>
          show segments (shown :: rest.flatMap Segment.source) = _
          rw [segments_cons_of_noBrace firstPlain, isRest]
      | slot inside =>
          show segments (slotText inside ++ rest.flatMap Segment.source) = _
          rw [segments_slotText_append firstPlain, isRest]

/-- The segments of a template whose braces are around slots are plain. -/
theorem BracesAroundSlots.isPlain {template : Template} (slotsAlone : template.BracesAroundSlots) :
    ∀ segment ∈ segments template.text.toList, segment.IsPlain := by
  intro segment member
  cases segment with
  | character shown => exact slotsAlone shown member
  | slot inside => exact isInside_of_mem_segments member

/-- All braces of a template are around slots if and only if its text is written from slots and
characters other than braces. -/
theorem bracesAroundSlots_iff {template : Template} :
    template.BracesAroundSlots ↔
      ∃ written : List Segment, (∀ segment ∈ written, segment.IsPlain) ∧
        written.flatMap Segment.source = template.text.toList := by
  constructor
  · intro slotsAlone
    exact ⟨segments template.text.toList, slotsAlone.isPlain, flatMap_source_segments _⟩
  · rintro ⟨written, plain, isText⟩ shown member
    rw [← isText, segments_flatMap_source plain] at member
    exact plain _ member

theorem segments_append_of_noBrace_left {before : List Char}
    (noBrace : ∀ character ∈ before, isBrace character = false) (text : List Char) :
    segments (before ++ text) = before.map .character ++ segments text := by
  induction before with
  | nil => rfl
  | cons first rest inductionHypothesis =>
      rw [List.cons_append, segments_cons_of_noBrace (noBrace first List.mem_cons_self),
        inductionHypothesis fun character member =>
          noBrace character (List.mem_cons_of_mem first member)]
      rfl

/-- What follows cannot close a slot unless it has a brace. -/
theorem slotInside?_append_eq_none {text after : List Char}
    (noBrace : ∀ character ∈ after, isBrace character = false)
    (missing : slotInside? text = none) : slotInside? (text ++ after) = none := by
  refine Option.eq_none_iff_forall_ne_some.2 fun ⟨inside, rest⟩ found => ?_
  obtain ⟨isText, isInside⟩ := slotInside?_eq_some_iff.1 found
  have closeNotAfter : closeBrace ∉ after := fun member => by cases noBrace closeBrace member
  rcases List.append_eq_append_iff.1 isText with ⟨middle, rfl, isAfter⟩ | ⟨middle, rfl, isRest⟩
  -- The closing brace is either among what follows or was in the text before.
  · rw [isAfter] at closeNotAfter
    simp at closeNotAfter
  · cases middle with
    | nil =>
        rw [← show closeBrace :: rest = after from isRest] at closeNotAfter
        simp at closeNotAfter
    | cons brace middle =>
        cases (List.cons.inj isRest).1
        rw [slotInside?_eq_some_iff.2 ⟨rfl, isInside⟩] at missing
        cases missing

theorem segments_append_of_noBrace_right {after : List Char}
    (noBrace : ∀ character ∈ after, isBrace character = false) (text : List Char) :
    segments (text ++ after) = segments text ++ after.map .character := by
  fun_induction segments text with
  | case1 => simpa [segments] using segments_append_of_noBrace_left noBrace []
  | case2 tail inside rest found inductionHypothesis =>
      obtain ⟨rfl, isInside⟩ := slotInside?_eq_some_iff.1 found
      have isSlot : openBrace :: (inside ++ closeBrace :: rest) ++ after =
          slotText inside ++ (rest ++ after) := by simp [slotText]
      rw [isSlot, segments_slotText_append isInside, inductionHypothesis]
      rfl
  | case3 tail missing inductionHypothesis =>
      rw [List.cons_append, segments, if_pos rfl]
      have stillMissing := slotInside?_append_eq_none noBrace missing
      split
      next inside rest found =>
          rw [stillMissing] at found
          cases found
      next =>
          rw [inductionHypothesis]
          rfl
  | case4 head tail differs inductionHypothesis =>
      rw [List.cons_append, segments, if_neg differs, inductionHypothesis]
      rfl

theorem noBrace_of_isBlank {character : Char} (blank : isBlank character = true) :
    isBrace character = false := by
  rw [isBrace, Bool.or_eq_false_iff, beq_eq_false_iff_ne, beq_eq_false_iff_ne]
  constructor
  · rintro rfl
    exact absurd blank (by decide)
  · rintro rfl
    exact absurd blank (by decide)

/-- Trimming takes blank characters off and no slots. -/
theorem exists_segments_trim (text : List Char) :
    ∃ before after : List Char,
      segments text = before.map .character ++ (segments (trim text) ++ after.map .character) ∧
      (∀ character ∈ before, isBlank character = true) ∧
      ∀ character ∈ after, isBlank character = true := by
  obtain ⟨before, after, isText, blankBefore, blankAfter⟩ := exists_trim text
  refine ⟨before, after, ?_, blankBefore, blankAfter⟩
  conv_lhs => rw [isText]
  rw [segments_append_of_noBrace_left fun character member =>
      noBrace_of_isBlank (blankBefore character member),
    segments_append_of_noBrace_right fun character member =>
      noBrace_of_isBlank (blankAfter character member)]

end Segments

section Fill

variable {template : Template} {input first second : Assignment}

/-- No value of an assignment shows a brace. -/
def ShowsNoBrace (input : Assignment) : Prop :=
  ∀ name value, input.value? name = some value →
    ∀ character ∈ value.display.toList, isBrace character = false

instance : DecidablePred ShowsNoBrace := fun input =>
  decidable_of_iff ((input.toList.all fun binding =>
      binding.2.display.toList.all fun character => !isBrace character) = true) <| by
    simp only [List.all_eq_true, Bool.not_eq_true']
    constructor
    · intro noBrace name value bound
      exact noBrace (name, value) (Assignment.mem_toList_iff.2 bound)
    · intro noBrace binding member
      exact noBrace binding.1 binding.2 (Assignment.mem_toList_iff.1 member)

theorem ShowsNoBrace.render (noBrace : ShowsNoBrace input) {name : String} {value : Value}
    (bound : input.value? name = some value) :
    ∀ character ∈ value.render, isBrace character = false := by
  have shown := noBrace name value bound
  rw [Value.display, String.toList_ofList] at shown
  exact shown

theorem ShowsNoBrace.compose (firstPlain : ShowsNoBrace first) (secondPlain : ShowsNoBrace second) :
    ShowsNoBrace (second.compose first) := by
  intro name value bound
  rw [Assignment.value?_compose, Option.or_eq_some_iff] at bound
  rcases bound with inFirst | ⟨-, inSecond⟩
  · exact firstPlain name value inFirst
  · exact secondPlain name value inSecond

/-- What becomes of a segment that is filled with values without braces. -/
def filledSegments (input : Assignment) : Segment → List Segment
  | .character shown => [.character shown]
  | .slot inside =>
    match input.value? (slotName inside) with
    | some value => value.render.map .character
    | none => [.slot inside]

theorem filledSegments_of_value {inside : List Char} {value : Value}
    (bound : input.value? (slotName inside) = some value) :
    filledSegments input (.slot inside) = value.render.map .character := by
  simp [filledSegments, bound]

theorem filledSegments_of_unbound {inside : List Char}
    (unbound : input.value? (slotName inside) = none) :
    filledSegments input (.slot inside) = [.slot inside] := by
  simp [filledSegments, unbound]

private theorem flatMap_source_map_character (text : List Char) :
    (text.map Segment.character).flatMap Segment.source = text := by
  rw [List.flatMap_map]
  exact List.flatMap_singleton' text

private theorem flatMap_fillSegment_map_character (input : Assignment) (text : List Char) :
    (text.map Segment.character).flatMap (fillSegment input) = text := by
  rw [List.flatMap_map]
  exact List.flatMap_singleton' text

theorem flatMap_source_filledSegments (input : Assignment) (segment : Segment) :
    (filledSegments input segment).flatMap Segment.source = fillSegment input segment := by
  cases segment with
  | character shown => rfl
  | slot inside =>
      cases bound : input.value? (slotName inside) with
      | some value =>
          rw [filledSegments_of_value bound, fillSegment_of_value bound,
            flatMap_source_map_character]
      | none =>
          rw [filledSegments_of_unbound bound, fillSegment_of_unbound bound]
          exact List.append_nil _

theorem isPlain_of_mem_filledSegments (noBrace : ShowsNoBrace input) {segment : Segment}
    (plain : segment.IsPlain) : ∀ part ∈ filledSegments input segment, part.IsPlain := by
  intro part member
  cases segment with
  | character shown =>
      rw [List.mem_singleton.1 member]
      exact plain
  | slot inside =>
      cases bound : input.value? (slotName inside) with
      | some value =>
          rw [filledSegments_of_value bound] at member
          obtain ⟨character, inValue, rfl⟩ := List.mem_map.1 member
          exact noBrace.render bound character inValue
      | none =>
          rw [filledSegments_of_unbound bound] at member
          rw [List.mem_singleton.1 member]
          exact plain

/-- A filled text is read as the segments that were filled, one after the other. -/
theorem segments_filledText (slotsAlone : template.BracesAroundSlots)
    (noBrace : ShowsNoBrace input) :
    segments (template.filledText input) =
      (segments template.text.toList).flatMap (filledSegments input) := by
  have written : template.filledText input =
      ((segments template.text.toList).flatMap (filledSegments input)).flatMap
        Segment.source := by
    rw [List.flatMap_assoc]
    exact List.flatMap_congr fun segment _ => (flatMap_source_filledSegments input segment).symm
  rw [written]
  apply segments_flatMap_source
  intro part member
  obtain ⟨segment, isSegment, inSegment⟩ := List.mem_flatMap.1 member
  exact isPlain_of_mem_filledSegments noBrace (slotsAlone.isPlain segment isSegment) part inSegment

theorem slot_mem_segments_trim_iff {inside text : List Char} :
    Segment.slot inside ∈ segments (trim text) ↔ Segment.slot inside ∈ segments text := by
  obtain ⟨before, after, areSegments, -, -⟩ := exists_segments_trim text
  rw [areSegments]
  simp

/-- The slots that are left in a filled text are those without a value. -/
theorem slot_mem_segments_filledText_iff (slotsAlone : template.BracesAroundSlots)
    (noBrace : ShowsNoBrace input) {inside : List Char} :
    Segment.slot inside ∈ segments (template.filledText input) ↔
      Segment.slot inside ∈ segments template.text.toList ∧
        input.value? (slotName inside) = none := by
  rw [segments_filledText slotsAlone noBrace, List.mem_flatMap]
  constructor
  · rintro ⟨segment, isSegment, inSegment⟩
    cases segment with
    | character shown => simp [filledSegments] at inSegment
    | slot other =>
        cases bound : input.value? (slotName other) with
        | some value =>
            rw [filledSegments_of_value bound] at inSegment
            simp at inSegment
        | none =>
            rw [filledSegments_of_unbound bound, List.mem_singleton] at inSegment
            cases inSegment
            exact ⟨isSegment, bound⟩
  · rintro ⟨isSlot, unbound⟩
    exact ⟨_, isSlot, by simp [filledSegments_of_unbound unbound]⟩

/-- A filled segment that is filled again holds the first value, or else the second one. -/
theorem flatMap_fillSegment_filledSegments (first second : Assignment) (segment : Segment) :
    (filledSegments first segment).flatMap (fillSegment second) =
      fillSegment (second.compose first) segment := by
  cases segment with
  | character shown => rfl
  | slot inside =>
      cases bound : first.value? (slotName inside) with
      | some value =>
          have composed : (second.compose first).value? (slotName inside) = some value := by
            rw [Assignment.value?_compose, bound, Option.some_or]
          rw [filledSegments_of_value bound, fillSegment_of_value composed,
            flatMap_fillSegment_map_character]
      | none =>
          have composed : (second.compose first).value? (slotName inside) =
              second.value? (slotName inside) := by
            rw [Assignment.value?_compose, bound, Option.none_or]
          rw [filledSegments_of_unbound bound, List.flatMap_singleton]
          simp only [fillSegment, composed]

/-- Trimming a text before it is filled does not show once the filled text is trimmed. -/
theorem trim_flatMap_fillSegment_trim (input : Assignment) (text : List Char) :
    trim ((segments (trim text)).flatMap (fillSegment input)) =
      trim ((segments text).flatMap (fillSegment input)) := by
  obtain ⟨before, after, areSegments, blankBefore, blankAfter⟩ := exists_segments_trim text
  rw [areSegments, List.flatMap_append, List.flatMap_append, flatMap_fillSegment_map_character,
    flatMap_fillSegment_map_character, trim_between_blanks _ blankBefore blankAfter]

/-- The text of a trimmed template after filling, whether there are slots or not. -/
theorem text_fill_of_trimmed (trimmed : trim template.text.toList = template.text.toList) :
    (template.fill input).text.toList = trim (template.filledText input) := by
  cases isOpen : template.isOpen with
  | true => exact text_fill_of_open isOpen
  | false =>
      have noSlot : ∀ name ∈ template.slotNames, input.value? name = none := by
        intro name member
        rw [isOpen_iff_exists.2 ⟨name, member⟩] at isOpen
        cases isOpen
      rw [fill_of_closed isOpen, filledText_of_unbound noSlot, trimmed]

/-- Filling twice is filling once from both assignments, of which the first one wins. -/
theorem fill_fill_eq (slotsAlone : template.BracesAroundSlots) (firstPlain : ShowsNoBrace first)
    (second : Assignment) :
    (template.fill first).fill second = template.fill (second.compose first) := by
  cases isOpen : template.isOpen with
  | false => rw [fill_of_closed isOpen, fill_of_closed isOpen, fill_of_closed isOpen]
  | true =>
      have isFirst : (template.fill first).text.toList = trim (template.filledText first) :=
        text_fill_of_open isOpen
      -- The first filling may leave no slot at all, in which case the second one changes nothing.
      have trimmed : trim (template.fill first).text.toList =
          (template.fill first).text.toList := by
        rw [isFirst, trim_trim]
      have sameText : ((template.fill first).fill second).text.toList =
          (template.fill (second.compose first)).text.toList := calc
        ((template.fill first).fill second).text.toList
        _ = trim ((template.fill first).filledText second) := text_fill_of_trimmed trimmed
        _ = trim ((segments (trim (template.filledText first))).flatMap (fillSegment second)) := by
          rw [filledText, isFirst]
        _ = trim ((segments (template.filledText first)).flatMap (fillSegment second)) :=
          trim_flatMap_fillSegment_trim second _
        _ = trim (template.filledText (second.compose first)) := by
          rw [segments_filledText slotsAlone firstPlain, List.flatMap_assoc, filledText]
          simp only [flatMap_fillSegment_filledSegments]
        _ = (template.fill (second.compose first)).text.toList := (text_fill_of_open isOpen).symm
      exact congrArg Template.mk (String.toList_inj.1 sameText)

/-- The slots that are left are those without a value. -/
theorem mem_slotNames_fill_iff (slotsAlone : template.BracesAroundSlots)
    (noBrace : ShowsNoBrace input) {name : String} :
    name ∈ (template.fill input).slotNames ↔
      name ∈ template.slotNames ∧ input.value? name = none := by
  cases isOpen : template.isOpen with
  | false =>
      have noSlot : name ∉ template.slotNames := by
        intro member
        rw [isOpen_iff_exists.2 ⟨name, member⟩] at isOpen
        cases isOpen
      rw [fill_of_closed isOpen]
      simp [noSlot]
  | true =>
      have isText : (template.fill input).text.toList = trim (template.filledText input) :=
        text_fill_of_open isOpen
      rw [mem_slotNames_iff, mem_slotNames_iff, isText]
      simp only [slot_mem_segments_trim_iff, slot_mem_segments_filledText_iff slotsAlone noBrace]
      constructor
      · rintro ⟨inside, ⟨isSlot, unbound⟩, rfl⟩
        exact ⟨⟨inside, isSlot, rfl⟩, unbound⟩
      · rintro ⟨⟨inside, isSlot, rfl⟩, unbound⟩
        exact ⟨inside, ⟨isSlot, unbound⟩, rfl⟩

/-- A template whose braces are around slots, filled with values that show no braces. Filling it
again gives what filling it once from both assignments gives, where the first one wins: the second
one fills what the first has left, and the slots without a value in either are left. -/
theorem fill_fill (slotsAlone : template.BracesAroundSlots) (firstPlain : ShowsNoBrace first)
    (secondPlain : ShowsNoBrace second) :
    (template.fill first).fill second = template.fill (second.compose first) ∧
      (template.fill first).fill second =
        (template.fill first).fill (second.without first.names) ∧
      ∀ name, name ∈ ((template.fill first).fill second).slotNames ↔
        name ∈ template.slotNames ∧ first.value? name = none ∧ second.value? name = none := by
  have once := fill_fill_eq slotsAlone firstPlain
  refine ⟨once second, ?_, fun name => ?_⟩
  · have sameValues : (second.without first.names).compose first = second.compose first := by
      ext1 name
      rw [Assignment.value?_compose, Assignment.value?_compose, Assignment.value?_without]
      split
      next isFirst =>
          obtain ⟨value, bound⟩ := Option.isSome_iff_exists.1 (Assignment.mem_names_iff.1 isFirst)
          rw [bound, Option.some_or, Option.some_or]
      next => rfl
    rw [once, once, sameValues]
  · rw [once, mem_slotNames_fill_iff slotsAlone (firstPlain.compose secondPlain),
      Assignment.value?_compose, Option.or_eq_none_iff]

/-- Two slots with a dash between them. -/
def dashed : Template := ⟨"\x7bA\x7d-\x7b B \x7d"⟩

/-- The slot at the start is filled with a blank, which is trimmed off before the other one is
filled, and is not filled again. -/
theorem fill_fill_dashed :
    let first : Assignment := .single "A" (.text " ")
    let second : Assignment := .ofList [("A", .text "late"), ("B", .boolean true)]
    dashed.BracesAroundSlots ∧ ShowsNoBrace first ∧ ShowsNoBrace second ∧
      (dashed.fill first).fill second = dashed.fill (second.compose first) ∧
      (dashed.fill first).fill second = ⟨"-true"⟩ := by
  intro first second
  have slotsAlone : dashed.BracesAroundSlots := bracesAroundSlots_iff.2
    ⟨[.slot ['A'], .character '-', .slot [' ', 'B', ' ']], by decide, by decide⟩
  have firstPlain : ShowsNoBrace first := by decide +kernel
  have secondPlain : ShowsNoBrace second := by decide +kernel
  have both := fill_fill slotsAlone firstPlain secondPlain
  have filled : (dashed.fill first).fill second = ⟨"-true"⟩ := by decide +kernel
  exact ⟨slotsAlone, firstPlain, secondPlain, both.1, filled⟩

end Fill

end DecisionNetwork.Template
