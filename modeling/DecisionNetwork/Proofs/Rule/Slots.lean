import DecisionNetwork.Proofs.Text.Pieces
import DecisionNetwork.Rule.Template
import Mathlib.Data.List.Basic

/-!
Contract: where the slots of a text are, and which are left after it was filled.

Owns:
- `HasSlot`, a text with a slot somewhere in it, and `isOpen_iff`;
- `flatMap_source_segments`: a text is its segments in order;
- `filledText`, the text of a template after filling, before it is trimmed;
- `fill_of_closed` and `fill_of_unbound`, what filling leaves alone;
- `fill_congr`: filling reads nothing of an assignment but the variables that slots name;
- `isOpen_fill_of_unbound` and `isOpen_fill_of_value`, the slots that are left or come about.
-/

namespace DecisionNetwork.Template

open DecisionNetwork.Text

section Segments

/-- What stands between the braces of a slot. -/
structure IsInside (inside : List Char) : Prop where
  someCharacter : inside ≠ []
  noBrace : ∀ character ∈ inside, isBrace character = false

/-- The characters of a slot. -/
def slotText (inside : List Char) : List Char := openBrace :: (inside ++ [closeBrace])

/-- A text with a slot somewhere in it. -/
def HasSlot (text : List Char) : Prop :=
  ∃ before inside after, text = before ++ (slotText inside ++ after) ∧ IsInside inside

theorem HasSlot.openBrace_mem {text : List Char} (hasSlot : HasSlot text) : openBrace ∈ text := by
  obtain ⟨before, inside, after, rfl, -⟩ := hasSlot
  exact List.mem_append_right _ List.mem_cons_self

/-- The characters that a segment was read from. -/
def Segment.source : Segment → List Char
  | .character shown => [shown]
  | .slot inside => slotText inside

theorem slotInside?_eq_some_iff {text inside rest : List Char} :
    slotInside? text = some (inside, rest) ↔
      text = inside ++ closeBrace :: rest ∧ IsInside inside := by
  constructor
  · intro found
    unfold slotInside? at found
    split at found
    next => cases found
    next brace tail remaining =>
        dsimp only at found
        split at found
        next closed =>
            cases found
            obtain ⟨rfl, someCharacter⟩ := closed
            refine ⟨?_, by simpa using someCharacter, fun character member => ?_⟩
            · rw [← remaining, List.takeWhile_append_dropWhile]
            · simpa using List.all_eq_true.1 List.all_takeWhile character member
        next => cases found
  · rintro ⟨rfl, isInside⟩
    have noBrace : ∀ character ∈ inside, (!isBrace character) = true := fun character member => by
      simp [isInside.noBrace character member]
    unfold slotInside?
    rw [List.takeWhile_append_of_pos noBrace, List.dropWhile_append_of_pos noBrace,
      List.takeWhile_cons_of_neg (by decide), List.dropWhile_cons_of_neg (by decide)]
    simp [isInside.someCharacter]

/-- A text is its segments in order. -/
theorem flatMap_source_segments (text : List Char) :
    (segments text).flatMap Segment.source = text := by
  fun_induction segments text with
  | case1 => rfl
  | case2 tail inside rest found inductionHypothesis =>
      rw [List.flatMap_cons, inductionHypothesis, (slotInside?_eq_some_iff.1 found).1]
      simp [Segment.source, slotText]
  | case3 tail found inductionHypothesis =>
      rw [List.flatMap_cons, inductionHypothesis]
      rfl
  | case4 head tail differs inductionHypothesis =>
      rw [List.flatMap_cons, inductionHypothesis]
      rfl

theorem isInside_of_mem_segments {text inside : List Char}
    (member : Segment.slot inside ∈ segments text) : IsInside inside := by
  fun_induction segments text with
  | case1 => cases member
  | case2 tail isInside rest found inductionHypothesis =>
      rcases List.mem_cons.1 member with same | later
      · cases same
        exact (slotInside?_eq_some_iff.1 found).2
      · exact inductionHypothesis later
  | case3 tail found inductionHypothesis =>
      exact inductionHypothesis ((List.mem_cons.1 member).resolve_left (by simp))
  | case4 head tail differs inductionHypothesis =>
      exact inductionHypothesis ((List.mem_cons.1 member).resolve_left (by simp))

/-- The reading of a text with a slot finds one. -/
theorem exists_slot_of_hasSlot {text : List Char} (hasSlot : HasSlot text) :
    ∃ inside, Segment.slot inside ∈ segments text := by
  fun_induction segments text with
  | case1 =>
      obtain ⟨before, inside, after, isText, -⟩ := hasSlot
      simp [slotText] at isText
  | case2 tail inside rest found inductionHypothesis => exact ⟨inside, List.mem_cons_self⟩
  | case3 tail found inductionHypothesis =>
      obtain ⟨before, inside, after, isText, isInside⟩ := hasSlot
      cases before with
      | nil =>
          have isTail : tail = inside ++ closeBrace :: after := by simpa [slotText] using isText
          rw [slotInside?_eq_some_iff.2 ⟨isTail, isInside⟩] at found
          cases found
      | cons first before =>
          obtain ⟨slot, member⟩ :=
            inductionHypothesis ⟨before, inside, after, (List.cons.inj isText).2, isInside⟩
          exact ⟨slot, List.mem_cons_of_mem _ member⟩
  | case4 head tail differs inductionHypothesis =>
      obtain ⟨before, inside, after, isText, isInside⟩ := hasSlot
      cases before with
      | nil => exact absurd (List.cons.inj isText).1 differs
      | cons first before =>
          obtain ⟨slot, member⟩ :=
            inductionHypothesis ⟨before, inside, after, (List.cons.inj isText).2, isInside⟩
          exact ⟨slot, List.mem_cons_of_mem _ member⟩

end Segments

section Open

variable {template : Template}

theorem mem_slotNames_iff {name : String} :
    name ∈ template.slotNames ↔
      ∃ inside, Segment.slot inside ∈ segments template.text.toList ∧ slotName inside = name := by
  unfold slotNames
  rw [List.mem_filterMap]
  constructor
  · rintro ⟨segment, member, isName⟩
    cases segment with
    | character shown => cases isName
    | slot inside => exact ⟨inside, member, Option.some.inj isName⟩
  · rintro ⟨inside, member, rfl⟩
    exact ⟨.slot inside, member, rfl⟩

theorem isOpen_iff_exists : template.isOpen = true ↔ ∃ name, name ∈ template.slotNames := by
  unfold isOpen
  rw [Bool.not_eq_true', List.isEmpty_eq_false_iff_exists_mem]

theorem hasSlot_of_mem_segments {text inside : List Char}
    (member : Segment.slot inside ∈ segments text) : HasSlot text := by
  obtain ⟨front, back, areSegments⟩ := List.append_of_mem member
  have isText := flatMap_source_segments text
  rw [areSegments, List.flatMap_append, List.flatMap_cons] at isText
  exact ⟨front.flatMap Segment.source, inside, back.flatMap Segment.source, isText.symm,
    isInside_of_mem_segments member⟩

/-- A template is open if and only if its text has a slot. -/
theorem isOpen_iff : template.isOpen = true ↔ HasSlot template.text.toList := by
  rw [isOpen_iff_exists]
  constructor
  · rintro ⟨name, member⟩
    obtain ⟨inside, isSlot, -⟩ := mem_slotNames_iff.1 member
    exact hasSlot_of_mem_segments isSlot
  · intro hasSlot
    obtain ⟨inside, isSlot⟩ := exists_slot_of_hasSlot hasSlot
    exact ⟨slotName inside, mem_slotNames_iff.2 ⟨inside, isSlot, rfl⟩⟩

/-- No name of a slot has a brace in it. -/
theorem noBrace_of_mem_slotNames {name : String} (member : name ∈ template.slotNames) :
    ∀ character ∈ name.toList, isBrace character = false := by
  obtain ⟨inside, isSlot, rfl⟩ := mem_slotNames_iff.1 member
  intro character inName
  rw [slotName, String.toList_ofList] at inName
  exact (isInside_of_mem_segments isSlot).noBrace character (mem_of_mem_trim inName)

/-- A text with a slot names no slot. -/
theorem notMem_slotNames_of_hasSlot {name : String} (hasSlot : HasSlot name.toList) :
    name ∉ template.slotNames := fun member =>
  absurd (noBrace_of_mem_slotNames member openBrace hasSlot.openBrace_mem) (by decide)

theorem HasSlot.append {text : List Char} (hasSlot : HasSlot text) (front back : List Char) :
    HasSlot (front ++ (text ++ back)) := by
  obtain ⟨before, inside, after, rfl, isInside⟩ := hasSlot
  exact ⟨front ++ before, inside, after ++ back, by simp, isInside⟩

/-- Trimming neither makes nor breaks a slot. -/
theorem hasSlot_trim_iff {text : List Char} : HasSlot (trim text) ↔ HasSlot text := by
  constructor
  · intro hasSlot
    obtain ⟨before, after, isText, -⟩ := exists_trim text
    rw [isText]
    exact hasSlot.append before after
  · rintro ⟨before, inside, after, rfl, isInside⟩
    refine ⟨trimLeft before, inside, trimRight after, ?_, isInside⟩
    have openVisible : isBlank openBrace = false := by decide
    have closeVisible : isBlank closeBrace = false := by decide
    have left := trimLeft_append_cons before (inside ++ closeBrace :: after) openVisible
    have right := trimRight_append_cons (trimLeft before ++ openBrace :: inside) after closeVisible
    simp only [slotText, List.append_assoc, List.cons_append, List.nil_append] at left right ⊢
    rw [trim, left, right]

end Open

section Fill

variable (template : Template) (input : Assignment)

/-- The text of a template with its slots filled, before it is trimmed. -/
def filledText : List Char := (segments template.text.toList).flatMap (fillSegment input)

variable {template input}

theorem fill_of_closed (closed : template.isOpen = false) : template.fill input = template := by
  unfold fill
  rw [closed]
  rfl

theorem text_fill_of_open (isOpen : template.isOpen = true) :
    (template.fill input).text.toList = trim (template.filledText input) := by
  unfold fill
  rw [isOpen, if_pos rfl, ofText, String.toList_ofList, String.toList_ofList]
  rfl

/-- Filling reads nothing of an assignment but the variables that slots name. -/
theorem fill_congr {other : Assignment}
    (agree : ∀ name ∈ template.slotNames, input.value? name = other.value? name) :
    template.fill input = template.fill other := by
  have sameText : (segments template.text.toList).flatMap (fillSegment input) =
      (segments template.text.toList).flatMap (fillSegment other) := by
    refine List.flatMap_congr fun segment member => ?_
    cases segment with
    | character shown => rfl
    | slot inside =>
        simp only [fillSegment]
        rw [agree _ (mem_slotNames_iff.2 ⟨inside, member, rfl⟩)]
  unfold fill
  rw [sameText]

theorem fillSegment_of_unbound {inside : List Char}
    (unbound : input.value? (slotName inside) = none) :
    fillSegment input (.slot inside) = slotText inside := by
  simp [fillSegment, unbound, slotText]

theorem fillSegment_of_value {inside : List Char} {value : Value}
    (bound : input.value? (slotName inside) = some value) :
    fillSegment input (.slot inside) = value.render := by
  simp [fillSegment, bound]

theorem filledText_of_unbound
    (unbound : ∀ name ∈ template.slotNames, input.value? name = none) :
    template.filledText input = template.text.toList := by
  have sameText : template.filledText input =
      (segments template.text.toList).flatMap Segment.source := by
    refine List.flatMap_congr fun segment member => ?_
    cases segment with
    | character shown => rfl
    | slot inside =>
        exact fillSegment_of_unbound (unbound _ (mem_slotNames_iff.2 ⟨inside, member, rfl⟩))
  rw [sameText, flatMap_source_segments]

/-- A trimmed template is left as it is where none of its slots is bound. -/
theorem fill_of_unbound (trimmed : trim template.text.toList = template.text.toList)
    (unbound : ∀ name ∈ template.slotNames, input.value? name = none) :
    template.fill input = template := by
  cases isOpen : template.isOpen with
  | false => exact fill_of_closed isOpen
  | true =>
      have sameText : (template.fill input).text.toList = trim (template.filledText input) :=
        text_fill_of_open isOpen
      rw [filledText_of_unbound unbound, trimmed, String.toList_inj] at sameText
      exact congrArg Template.mk sameText

theorem trim_text_of_isOpen_fill (isOpen : (template.fill input).isOpen = true) :
    trim (template.fill input).text.toList = (template.fill input).text.toList := by
  have wasOpen : template.isOpen = true := by
    cases closed : template.isOpen with
    | true => rfl
    | false =>
        rw [fill_of_closed closed, closed] at isOpen
        cases isOpen
  rw [text_fill_of_open wasOpen, trim_trim]

/-- What is put in for a slot that can be filled again, or is left of it, keeps the template
open. -/
theorem isOpen_fill_of_mem {inside : List Char}
    (member : Segment.slot inside ∈ segments template.text.toList)
    (hasSlot : HasSlot (fillSegment input (.slot inside))) :
    (template.fill input).isOpen = true := by
  have wasOpen : template.isOpen = true := isOpen_iff.2 (hasSlot_of_mem_segments member)
  obtain ⟨front, back, areSegments⟩ := List.append_of_mem member
  rw [isOpen_iff, text_fill_of_open wasOpen, hasSlot_trim_iff, filledText, areSegments,
    List.flatMap_append, List.flatMap_cons]
  exact hasSlot.append _ _

/-- A slot without a value stays a slot. -/
theorem isOpen_fill_of_unbound {name : String} (member : name ∈ template.slotNames)
    (unbound : input.value? name = none) : (template.fill input).isOpen = true := by
  obtain ⟨inside, isSlot, rfl⟩ := mem_slotNames_iff.1 member
  apply isOpen_fill_of_mem isSlot
  rw [fillSegment_of_unbound unbound]
  exact ⟨[], inside, [], by simp, isInside_of_mem_segments isSlot⟩

/-- A slot stays open if the text put into it has a slot. -/
theorem isOpen_fill_of_value {name : String} {value : Value} (member : name ∈ template.slotNames)
    (bound : input.value? name = some value) (hasSlot : HasSlot value.render) :
    (template.fill input).isOpen = true := by
  obtain ⟨inside, isSlot, rfl⟩ := mem_slotNames_iff.1 member
  apply isOpen_fill_of_mem isSlot
  rw [fillSegment_of_value bound]
  exact hasSlot

/-- All braces of a template are around slots. -/
def BracesAroundSlots (template : Template) : Prop :=
  ∀ shown, Segment.character shown ∈ segments template.text.toList → isBrace shown = false

end Fill

end DecisionNetwork.Template
