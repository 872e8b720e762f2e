import DecisionNetwork.Proofs.Assignment.Bindings
import DecisionNetwork.Proofs.Rule.Slots
import DecisionNetwork.Proofs.Value.Characters
import DecisionNetwork.Rule.CaseRule

/-!
Contract: when the actions realise an effect whose slots were filled from the input.

Owns:
- `BasicEffect.isMet`, what a basic effect says of actions once its slots were filled, and
  `BasicEffect.FilledBy`, by which no slot is left and none has come about;
- `holds_of_filledBy` and `exists_holds_ne_isMet`: the condition of a filled effect is what the
  effect says of all actions if and only if no slot is left;
- `realised_iff_of_filledBy`, the same for the effects of a rule.
-/

namespace DecisionNetwork

open DecisionNetwork.Text

namespace Assignment

theorem valueOrAbsent_single_self (name : String) (value : Value) :
    (single name value).valueOrAbsent name = value := by
  rw [valueOrAbsent, value?_single, if_pos rfl]
  rfl

@[simp] theorem removePrimes_empty : empty.removePrimes = empty := rfl

/-- Every assignment of a single variable is what is left of one for the primed variable. -/
theorem removePrimes_single_prime (name : String) (value : Value) :
    (single (name ++ "'") value).removePrimes = single name value := by
  have unprimed : stripPrime (name ++ "'") = name := by
    simp [stripPrime, primeMark]
  show ofList [(stripPrime (name ++ "'"), value)] = single name value
  rw [unprimed]
  rfl

end Assignment

namespace Template

variable {template : Template} {actions : Assignment}

/-- Slots in a text that opens with a bracket are filled with the value of the text: then there are
more brackets than before. -/
theorem count_lt_count_filledText {rest : List Char} {value : Value}
    (isOpen : template.isOpen = true) (bracketed : template.text.toList = '[' :: rest)
    (bound : ∀ name ∈ template.slotNames, actions.value? name = some value)
    (sameCount : value.render.count '[' = template.text.toList.count '[') :
    template.text.toList.count '[' < (template.filledText actions).count '[' := by
  have isSegments : segments template.text.toList = .character '[' :: segments rest := by
    rw [bracketed, segments, if_neg (by decide)]
  have filled {inside : List Char} (member : Segment.slot inside ∈ segments rest) :
      (Segment.slot inside).source.count '[' < (fillSegment actions (.slot inside)).count '[' := by
    have inTemplate : Segment.slot inside ∈ segments template.text.toList := by
      rw [isSegments]
      exact List.mem_cons_of_mem _ member
    rw [fillSegment_of_value (bound _ (mem_slotNames_iff.2 ⟨inside, inTemplate, rfl⟩)), sameCount,
      bracketed, List.count_cons_self]
    have inRest : (Segment.slot inside).source.Sublist rest := by
      have inside := List.sublist_flatten_of_mem (List.mem_map_of_mem (f := Segment.source) member)
      rwa [← List.flatMap_def, flatMap_source_segments] at inside
    exact Nat.lt_succ_of_le (inRest.count_le '[')
  have more : ((segments rest).flatMap Segment.source).count '[' <
      ((segments rest).flatMap (fillSegment actions)).count '[' := by
    rw [List.count_flatMap, List.count_flatMap]
    apply List.sum_lt_sum
    · intro segment member
      cases segment with
      | character shown => exact le_refl _
      | slot inside => exact (filled member).le
    · obtain ⟨inside, member⟩ := exists_slot_of_hasSlot (isOpen_iff.1 isOpen)
      rw [isSegments] at member
      have inRest := (List.mem_cons.1 member).resolve_left (by simp)
      exact ⟨_, inRest, filled inRest⟩
  rw [flatMap_source_segments] at more
  rw [filledText, isSegments, List.flatMap_cons, List.count_append, bracketed, List.count_cons_self]
  have single : (fillSegment actions (.character '[')).count '[' = 1 := rfl
  omega

/-- An open template in brackets is read as another value once it was filled with its own. -/
theorem beq_toValue_fill_of_bracket {rest : List Char} (isOpen : template.isOpen = true)
    (bracketed : template.text.toList = '[' :: rest)
    (bound : ∀ name ∈ template.slotNames, actions.value? name = some template.toValue) :
    (template.toValue == (template.fill actions).toValue) = false := by
  refine Bool.eq_false_iff.2 fun same => ?_
  have sameCount := Value.count_render_of_beq '[' rfl rfl same
  have shown : template.toValue.render.count '[' = template.text.toList.count '[' :=
    Value.count_render_parseText _ rfl rfl _
  have refilled : (template.fill actions).toValue.render.count '[' =
      (template.filledText actions).count '[' := by
    rw [toValue, Value.parse, Value.count_render_parseText _ rfl rfl, text_fill_of_open isOpen,
      Value.count_trim _ rfl]
  have more := count_lt_count_filledText isOpen bracketed bound shown
  omega

/-- An open template is not read as absent. -/
theorem toValue_ne_absent (isOpen : template.isOpen = true) :
    (Value.absent == template.toValue) = false := by
  refine Bool.eq_false_iff.2 fun same => ?_
  have sameCount := Value.count_render_of_beq openBrace rfl rfl same
  rw [toValue, Value.parse, Value.count_render_parseText _ rfl rfl] at sameCount
  have noBrace : Value.absent.render.count openBrace = 0 := by decide
  rw [noBrace] at sameCount
  exact List.count_eq_zero.1 sameCount.symm (isOpen_iff.1 isOpen).openBrace_mem

/-- The value of an open template, put into all of its slots, leaves a slot or is another value than
before. -/
theorem isOpen_or_ne_of_fill (isOpen : template.isOpen = true)
    (trimmed : trim template.text.toList = template.text.toList)
    (bound : ∀ name ∈ template.slotNames, actions.value? name = some template.toValue) :
    (template.fill actions).isOpen = true ∨
      (template.toValue == (template.fill actions).toValue) = false := by
  have braceIn := (isOpen_iff.1 isOpen).openBrace_mem
  have reads := Value.reads_parseText template.text.toList
  rw [trimmed] at reads
  have plainCase (plain : template.text.toList.all Value.isPlain = true) : False := by
    have bracePlain := List.all_eq_true.1 plain openBrace braceIn
    cases bracePlain
  generalize isValue : Value.parseText template.text.toList = value at reads
  cases reads with
  | blank isBlank =>
      rw [isBlank] at braceIn
      cases braceIn
  | number numeral read => exact (plainCase (Value.all_isPlain_of_read? read)).elim
  | yes word => exact (plainCase (Value.all_isPlain_of_isWord word (by decide))).elim
  | no word => exact (plainCase (Value.all_isPlain_of_isWord word (by decide))).elim
  | absent word => exact (plainCase (Value.all_isPlain_of_isWord word (by decide))).elim
  | vector inner numerals brackets read =>
      exact Or.inr (beq_toValue_fill_of_bracket isOpen brackets bound)
  | list inner brackets notNumerals =>
      exact Or.inr (beq_toValue_fill_of_bracket isOpen brackets bound)
  | plain =>
      obtain ⟨name, member⟩ := isOpen_iff_exists.1 isOpen
      refine Or.inl (isOpen_fill_of_value member (bound name member) ?_)
      rw [toValue, Value.parse, isValue, Value.render, String.toList_ofList]
      exact isOpen_iff.1 isOpen

end Template

namespace BasicCondition

variable {condition : BasicCondition} {actions : Assignment}

theorem holds_eq (condition : BasicCondition) (actions : Assignment) :
    condition.holds actions =
      if (condition.name.fill actions).isOpen || (condition.expected.fill actions).isOpen then false
      else condition.relation.relates
        (actions.valueOrAbsent (condition.name.fill actions).text)
        (condition.expected.fill actions).toValue := rfl

theorem holds_of_closed (nameClosed : condition.name.isOpen = false)
    (expectedClosed : condition.expected.isOpen = false) :
    condition.holds actions =
      condition.relation.relates (actions.valueOrAbsent condition.name.text)
        condition.expected.toValue := by
  rw [holds_eq, Template.fill_of_closed nameClosed, Template.fill_of_closed expectedClosed,
    nameClosed, expectedClosed]
  rfl

theorem holds_eq_false (slotLeft : (condition.name.fill actions).isOpen = true ∨
    (condition.expected.fill actions).isOpen = true) : condition.holds actions = false := by
  rw [holds_eq]
  rcases slotLeft with nameOpen | expectedOpen
  · rw [nameOpen]
    rfl
  · rw [expectedOpen, Bool.or_true]
    rfl

/-- Every value stands in either relation to some other value. -/
theorem exists_relates (relation : Relation) (expected : Value) :
    ∃ actual, relation.relates actual expected = true := by
  cases relation with
  | equal => exact ⟨expected, Value.beq_self expected⟩
  | unequal =>
      by_cases same : (Value.boolean true == expected) = true
      · refine ⟨.boolean false, ?_⟩
        have differ : (Value.boolean false == expected) = false := by
          refine Bool.eq_false_iff.2 fun alsoSame => ?_
          have both := Value.beq_trans same (Value.beq_symm alsoSame)
          exact absurd both (by decide)
        show (!(Value.boolean false == expected)) = true
        rw [differ]
        rfl
      · refine ⟨.boolean true, ?_⟩
        show (!(Value.boolean true == expected)) = true
        rw [Bool.eq_false_iff.2 same]
        rfl

/-- For actions that bind the text of an open name, the condition fails whatever they bind it to. -/
theorem exists_actions_of_name_open (nameOpen : condition.name.isOpen = true)
    (trimmed : trim condition.name.text.toList = condition.name.text.toList) :
    ∃ actions : Assignment, condition.holds actions.removePrimes = false ∧
      condition.relation.relates (actions.removePrimes.valueOrAbsent condition.name.text)
        condition.expected.toValue = true := by
  obtain ⟨actual, related⟩ := exists_relates condition.relation condition.expected.toValue
  refine ⟨.single (condition.name.text ++ "'") actual, ?_, ?_⟩
  · rw [Assignment.removePrimes_single_prime]
    apply holds_eq_false
    left
    rw [Template.fill_of_unbound trimmed, nameOpen]
    intro name member
    rw [Assignment.value?_single, if_neg]
    rintro rfl
    exact Template.notMem_slotNames_of_hasSlot (Template.isOpen_iff.1 nameOpen) member
  · rw [Assignment.removePrimes_single_prime, Assignment.valueOrAbsent_single_self]
    exact related

/-- For actions that bind a variable to the value of an open text, or for none, the condition
fails. -/
theorem exists_actions_of_expected_open (nameClosed : condition.name.isOpen = false)
    (expectedOpen : condition.expected.isOpen = true)
    (trimmed : trim condition.expected.text.toList = condition.expected.text.toList) :
    ∃ actions : Assignment, condition.holds actions.removePrimes = false ∧
      condition.relation.relates (actions.removePrimes.valueOrAbsent condition.name.text)
        condition.expected.toValue = true := by
  cases isRelation : condition.relation with
  | unequal =>
      refine ⟨.empty, ?_, ?_⟩
      · apply holds_eq_false
        right
        rw [Assignment.removePrimes_empty,
          Template.fill_of_unbound trimmed fun name _ => Assignment.value?_empty name]
        exact expectedOpen
      · show (!(Value.absent == condition.expected.toValue)) = true
        rw [Template.toValue_ne_absent expectedOpen]
        rfl
  | equal =>
      refine ⟨.single (condition.name.text ++ "'") condition.expected.toValue, ?_, ?_⟩
      · rw [Assignment.removePrimes_single_prime]
        by_cases others : ∃ name ∈ condition.expected.slotNames, name ≠ condition.name.text
        · obtain ⟨name, member, differ⟩ := others
          refine holds_eq_false (Or.inr (Template.isOpen_fill_of_unbound member ?_))
          rw [Assignment.value?_single, if_neg differ]
        · -- all slots are filled with the value that the variable is compared with
          have bound : ∀ name ∈ condition.expected.slotNames,
              (Assignment.single condition.name.text condition.expected.toValue).value? name =
                some condition.expected.toValue := by
            intro name member
            have isName : name = condition.name.text :=
              not_not.1 fun differ => others ⟨name, member, differ⟩
            rw [Assignment.value?_single, if_pos isName]
          rcases Template.isOpen_or_ne_of_fill expectedOpen trimmed bound with still | differ
          · exact holds_eq_false (Or.inr still)
          · rw [holds_eq, Template.fill_of_closed nameClosed, isRelation,
              Assignment.valueOrAbsent_single_self]
            split
            next => rfl
            next => exact differ
      · rw [Assignment.removePrimes_single_prime, Assignment.valueOrAbsent_single_self]
        exact Value.beq_self _

end BasicCondition

namespace BasicEffect

variable (effect : BasicEffect) (input : Assignment)

/-- What a basic effect says of actions once its slots are filled from the input: the value of its
variable, absent where nothing is bound, equals or differs from the value of its text. -/
def isMet (actions : Assignment) : Bool :=
  effect.kind.relation.relates (actions.valueOrAbsent (effect.name.fill input).text)
    (effect.value.fill input).toValue

/-- Filling from the input leaves no slot, neither one of the effect nor one that came about with
the text of a value. -/
structure FilledBy : Prop where
  name : (effect.name.fill input).isOpen = false
  value : (effect.value.fill input).isOpen = false

variable {effect input}

theorem holds_of_filledBy (filled : effect.FilledBy input) (actions : Assignment) :
    (effect.fill input).toCondition.holds actions = effect.isMet input actions :=
  BasicCondition.holds_of_closed filled.name filled.value

/-- If a slot is left, the condition of the filled effect is not what the effect says of all
actions. -/
theorem exists_holds_ne_isMet (slotLeft : ¬ effect.FilledBy input) :
    ∃ actions : Assignment, (effect.fill input).toCondition.holds actions.removePrimes ≠
      effect.isMet input actions.removePrimes := by
  have unlike : ∃ actions : Assignment,
      (effect.fill input).toCondition.holds actions.removePrimes = false ∧
        effect.isMet input actions.removePrimes = true := by
    cases nameOpen : (effect.name.fill input).isOpen with
    | true =>
        exact BasicCondition.exists_actions_of_name_open nameOpen
          (Template.trim_text_of_isOpen_fill nameOpen)
    | false =>
        cases valueOpen : (effect.value.fill input).isOpen with
        | true =>
            exact BasicCondition.exists_actions_of_expected_open nameOpen valueOpen
              (Template.trim_text_of_isOpen_fill valueOpen)
        | false => exact absurd ⟨nameOpen, valueOpen⟩ slotLeft
  obtain ⟨actions, fails, met⟩ := unlike
  refine ⟨actions, ?_⟩
  rw [fails, met]
  decide

end BasicEffect

namespace Condition

theorem holdAll_iff {conditions : List Condition} {input : Assignment} :
    holdAll input conditions = true ↔ ∀ condition ∈ conditions, condition.holds input = true := by
  induction conditions with
  | nil => simp [holdAll]
  | cons condition rest inductionHypothesis =>
      rw [holdAll, Bool.and_eq_true, inductionHypothesis, List.forall_mem_cons]

end Condition

theorem Effect.holds_toCondition_iff {effect : Effect} {actions : Assignment} :
    effect.toCondition.holds actions = true ↔
      ∀ part ∈ effect.parts, part.toCondition.holds actions = true := by
  rw [Effect.toCondition, Condition.holds, Condition.holdAll_iff, List.forall_mem_map]
  rfl

namespace CaseRule

variable {α : Type}

theorem output_of_first {rule : CaseRule α} {input : Assignment}
    {entry : Condition × RuleOutput α}
    (first : rule.cases.find? (fun entry => entry.1.holds input) = some entry) :
    rule.output input = entry.2.fill input := by
  unfold output
  rw [first]

/-- The effects of the first case that applies come out filled. If filling leaves no slot in an
effect, its condition holds of actions exactly if they meet all of its parts. For a single part the
condition and what the part asks for agree on all actions if and only if filling leaves no slot in
it. -/
theorem realised_iff_of_filledBy (rule : CaseRule α) (input : Assignment)
    {entry : Condition × RuleOutput α}
    (first : rule.cases.find? (fun entry => entry.1.holds input) = some entry)
    {effect : Effect} {parameter : Parameter α} (member : (effect, parameter) ∈ entry.2.effects) :
    (effect.fill input, parameter) ∈ (rule.output input).effects ∧
      ((∀ part ∈ effect.parts, part.FilledBy input) → ∀ actions : Assignment,
        (effect.fill input).toCondition.holds actions.removePrimes = true ↔
          ∀ part ∈ effect.parts, part.isMet input actions.removePrimes = true) ∧
      ∀ part ∈ effect.parts, (∀ actions : Assignment,
        (part.fill input).toCondition.holds actions.removePrimes =
          part.isMet input actions.removePrimes) ↔ part.FilledBy input := by
  refine ⟨?_, fun filled actions => ?_, fun part _ => ⟨fun same => ?_, fun filled actions => ?_⟩⟩
  · rw [output_of_first first]
    exact List.mem_map.2 ⟨(effect, parameter), member, rfl⟩
  · rw [Effect.holds_toCondition_iff, Effect.fill, List.forall_mem_map]
    refine forall₂_congr fun part isPart => ?_
    rw [BasicEffect.holds_of_filledBy (filled part isPart)]
  · by_contra slotLeft
    obtain ⟨actions, differ⟩ := BasicEffect.exists_holds_ne_isMet slotLeft
    exact differ (same actions)
  · exact BasicEffect.holds_of_filledBy filled actions.removePrimes

/-- Repeating what was heard. -/
def echoPart : BasicEffect := ⟨.ofText "said", .assign, .ofText "\x7bheard\x7d"⟩

/-- The output that rewards repeating what was heard. -/
def echoOutput : RuleOutput Binary64 := ⟨[(⟨[echoPart]⟩, .fixed .one)]⟩

def echoRule : CaseRule Binary64 where
  id := "echo"
  kind := .utility
  outputs := .ofList ["said"]
  parameters := .empty
  cases := [(.always, echoOutput)]

theorem echoRule_realised_iff :
    (∀ part ∈ [echoPart], part.FilledBy (.single "heard" (.text "good day"))) ∧
      ∀ actions : Assignment,
        ((Effect.mk [echoPart]).fill (.single "heard" (.text "good day"))).toCondition.holds
            actions.removePrimes = true ↔
          ∀ part ∈ [echoPart],
            part.isMet (.single "heard" (.text "good day")) actions.removePrimes = true := by
  have filled : ∀ part ∈ [echoPart], part.FilledBy (.single "heard" (.text "good day")) := by
    intro part member
    cases List.mem_singleton.1 member
    exact ⟨by decide +kernel, by decide +kernel⟩
  have first : echoRule.cases.find?
      (fun entry => entry.1.holds (.single "heard" (.text "good day"))) =
        some (.always, echoOutput) := rfl
  have realised := realised_iff_of_filledBy echoRule (.single "heard" (.text "good day")) first
    (List.mem_singleton_self (Effect.mk [echoPart], Parameter.fixed Binary64.one))
  exact ⟨filled, realised.2.1 filled⟩

/-- Who hears the name of a slot and repeats it meets the effect, whose only slot is bound, but does
not satisfy its condition: what was heard is read as a slot. -/
theorem echoRule_hears_slot :
    ∃ input actions : Assignment,
      echoRule.cases.find? (fun entry => entry.1.holds input) = some (.always, echoOutput) ∧
      (∀ part ∈ [echoPart], ∀ name ∈ part.name.slotNames ++ part.value.slotNames,
        (input.value? name).isSome) ∧
      (∀ part ∈ [echoPart], part.isMet input actions.removePrimes = true) ∧
      ((Effect.mk [echoPart]).fill input).toCondition.holds actions.removePrimes = false := by
  refine ⟨.single "heard" (.text "\x7bname\x7d"), .single "said" (.text "\x7bname\x7d"), rfl, ?_,
    ?_, ?_⟩ <;> decide +kernel

end CaseRule

end DecisionNetwork
