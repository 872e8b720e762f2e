import DecisionNetwork.Proofs.Assignment.Bindings
import DecisionNetwork.Proofs.Rule.Slots
import DecisionNetwork.Rule.CaseRule
import Mathlib.Data.List.Find

/-!
Contract: which variables a case rule reads.

Owns:
- `Assignment.AgreeOn`, by which two assignments bind the same values to some variables;
- `mentioned`, the variables that the parts of a rule name, up to `CaseRule.mentioned`;
- `Condition.holds_iff_basics`: a condition holds if its basic conditions do, at any depth;
- `CaseRule.output_congr`: inputs that agree on the variables that the cases mention have the same
  output, provided that no condition finds the name of its variable in a slot.
-/

namespace DecisionNetwork

namespace Assignment

/-- Identical values are bound to some variables, and none to the same of them. Zeros of different
sign are equal but not identical. -/
def AgreeOn (names : List String) (left right : Assignment) : Prop :=
  ∀ name ∈ names, left.value? name = right.value? name

variable {names : List String} {left right : Assignment}

theorem AgreeOn.mono {fewer : List String} (agree : AgreeOn names left right)
    (within : fewer ⊆ names) : AgreeOn fewer left right :=
  fun name member => agree name (within member)

theorem AgreeOn.without (agree : AgreeOn names left right) (dropped : List String) :
    AgreeOn names (left.without dropped) (right.without dropped) := by
  intro name member
  rw [value?_without, value?_without, agree name member]

theorem AgreeOn.restrict_eq (agree : AgreeOn names left right) :
    left.restrict names = right.restrict names := by
  apply ext_value?
  intro name
  rw [value?_restrict, value?_restrict]
  split
  next member => exact agree name member
  next => rfl

/-- Variables that are kept have the values they had. -/
theorem agreeOn_restrict (assignment : Assignment) {kept : List String} (within : names ⊆ kept) :
    AgreeOn names (assignment.restrict kept) assignment := by
  intro name member
  rw [value?_restrict, if_pos (within member)]

end Assignment

open Assignment

namespace BasicCondition

/-- The variable that is compared, and those that slots name. -/
def mentioned (condition : BasicCondition) : List String :=
  condition.name.text :: (condition.name.slotNames ++ condition.expected.slotNames)

theorem holds_congr {condition : BasicCondition} {left right : Assignment}
    (closed : condition.name.isOpen = false) (agree : AgreeOn condition.mentioned left right) :
    condition.holds left = condition.holds right := by
  have sameExpected : condition.expected.fill left = condition.expected.fill right :=
    Template.fill_congr fun name member =>
      agree name (List.mem_cons_of_mem _ (List.mem_append_right _ member))
  have sameActual : left.valueOrAbsent condition.name.text =
      right.valueOrAbsent condition.name.text := by
    unfold valueOrAbsent
    rw [agree _ List.mem_cons_self]
  simp only [holds, Template.fill_of_closed closed]
  rw [sameExpected, sameActual]

end BasicCondition

namespace Condition

mutual

/-- The basic conditions of a condition, at any depth. -/
def basics : Condition → List BasicCondition
  | .basic condition => [condition]
  | .all conditions => basicsOfAll conditions

def basicsOfAll : List Condition → List BasicCondition
  | [] => []
  | condition :: conditions => basics condition ++ basicsOfAll conditions

end

mutual

/-- A condition holds if and only if all of its basic conditions do. -/
theorem holds_iff_basics (input : Assignment) : ∀ condition : Condition,
    condition.holds input = true ↔ ∀ basic ∈ condition.basics, basic.holds input = true
  | .basic condition => by
      rw [holds, basics, List.forall_mem_singleton]
  | .all conditions => by
      rw [holds, basics]
      exact holdAll_iff_basics input conditions

theorem holdAll_iff_basics (input : Assignment) : ∀ conditions : List Condition,
    holdAll input conditions = true ↔
      ∀ basic ∈ basicsOfAll conditions, basic.holds input = true
  | [] => by simp [holdAll, basicsOfAll]
  | condition :: conditions => by
      rw [holdAll, basicsOfAll, Bool.and_eq_true, List.forall_mem_append,
        holds_iff_basics input condition, holdAll_iff_basics input conditions]

end

def mentioned (condition : Condition) : List String :=
  condition.basics.flatMap BasicCondition.mentioned

/-- No slot is left to tell which variables are compared. -/
def NamesClosed (condition : Condition) : Prop :=
  ∀ basic ∈ condition.basics, basic.name.isOpen = false

theorem holds_congr {condition : Condition} {left right : Assignment}
    (closed : condition.NamesClosed) (agree : AgreeOn condition.mentioned left right) :
    condition.holds left = condition.holds right := by
  rw [Bool.eq_iff_iff, holds_iff_basics, holds_iff_basics]
  refine forall₂_congr fun basic member => ?_
  rw [BasicCondition.holds_congr (closed basic member)
    (agree.mono fun name inBasic => List.mem_flatMap.2 ⟨basic, member, inBasic⟩)]

end Condition

namespace Effect

/-- The variables that slots name. -/
def mentioned (effect : Effect) : List String :=
  effect.parts.flatMap fun part => part.name.slotNames ++ part.value.slotNames

theorem fill_congr {effect : Effect} {left right : Assignment}
    (agree : AgreeOn effect.mentioned left right) : effect.fill left = effect.fill right := by
  refine congrArg Effect.mk (List.map_congr_left fun part member => ?_)
  have inEffect {name : String} (inPart : name ∈ part.name.slotNames ++ part.value.slotNames) :
      left.value? name = right.value? name :=
    agree name (List.mem_flatMap.2 ⟨part, member, inPart⟩)
  unfold BasicEffect.fill
  rw [Template.fill_congr fun name inName => inEffect (List.mem_append_left _ inName),
    Template.fill_congr fun name inValue => inEffect (List.mem_append_right _ inValue)]

end Effect

variable {α : Type}

namespace Parameter

/-- The variable that a weight is read from. -/
def mentioned : Parameter α → List String
  | .fixed _ => []
  | .bound name => [name]

theorem value_congr [Scalar α] {parameter : Parameter α} {left right : Assignment}
    (agree : AgreeOn parameter.mentioned left right) :
    parameter.value left = parameter.value right := by
  cases parameter with
  | fixed weight => rfl
  | bound name =>
      simp only [value]
      rw [agree name (List.mem_singleton_self name)]

end Parameter

namespace RuleOutput

def mentioned (output : RuleOutput α) : List String :=
  output.effects.flatMap fun entry => entry.1.mentioned ++ entry.2.mentioned

theorem fill_congr {output : RuleOutput α} {left right : Assignment}
    (agree : AgreeOn output.mentioned left right) : output.fill left = output.fill right := by
  refine congrArg RuleOutput.mk (List.map_congr_left fun entry member => ?_)
  rw [Effect.fill_congr (agree.mono fun name inEffect =>
    List.mem_flatMap.2 ⟨entry, member, List.mem_append_left _ inEffect⟩)]

end RuleOutput

namespace CaseRule

/-- The variables that the cases mention: those compared, those that slots name and those that
weights are read from. -/
def caseMentioned (rule : CaseRule α) : List String :=
  rule.cases.flatMap fun entry => entry.1.mentioned ++ entry.2.mentioned

/-- The variables that a rule mentions, its outputs included. -/
def mentioned (rule : CaseRule α) : List String := rule.outputs.toList ++ rule.caseMentioned

/-- No condition finds the name of its variable in a slot. -/
def NamesClosed (rule : CaseRule α) : Prop := ∀ entry ∈ rule.cases, entry.1.NamesClosed

variable {rule : CaseRule α} {left right : Assignment}

theorem mem_caseMentioned {entry : Condition × RuleOutput α} (member : entry ∈ rule.cases) :
    entry.1.mentioned ⊆ rule.caseMentioned ∧ entry.2.mentioned ⊆ rule.caseMentioned :=
  ⟨fun _ inCondition => List.mem_flatMap.2 ⟨entry, member, List.mem_append_left _ inCondition⟩,
    fun _ inOutput => List.mem_flatMap.2 ⟨entry, member, List.mem_append_right _ inOutput⟩⟩

/-- Inputs that agree on what the cases mention have the same output. -/
theorem output_congr (closed : rule.NamesClosed) (agree : AgreeOn rule.caseMentioned left right) :
    rule.output left = rule.output right := by
  have sameCase : rule.cases.find? (fun entry => entry.1.holds left) =
      rule.cases.find? fun entry => entry.1.holds right :=
    List.find?_congr fun entry member =>
      Condition.holds_congr (closed entry member) (agree.mono (mem_caseMentioned member).1)
  unfold output
  rw [sameCase]
  cases first : rule.cases.find? fun entry => entry.1.holds right with
  | none => rfl
  | some entry =>
      exact RuleOutput.fill_congr
        (agree.mono (mem_caseMentioned (List.mem_of_find?_eq_some first)).2)

/-- The weights of an output are read from variables that the cases mention. -/
theorem parameter_mentioned_subset {input : Assignment} {entry : Effect × Parameter α}
    (member : entry ∈ (rule.output input).effects) :
    entry.2.mentioned ⊆ rule.caseMentioned := by
  unfold output at member
  split at member
  next chosen first =>
      obtain ⟨unfilled, isEntry, rfl⟩ := List.mem_map.1 member
      intro name inParameter
      apply (mem_caseMentioned (List.mem_of_find?_eq_some first)).2
      exact List.mem_flatMap.2 ⟨unfilled, isEntry, List.mem_append_right _ inParameter⟩
  next => cases member

end CaseRule

end DecisionNetwork
