import DecisionNetwork.Network.Node
import DecisionNetwork.Proofs.Rule.Mentioned
import DecisionNetwork.Proofs.RuleUtility.Recall

/-!
Contract: the utility of a rule depends on nothing but the variables that the rule mentions.

Owns:
- `plainUtility_congr`: assignments that agree on what a case rule mentions have the same utility;
- `node_evaluate_of_mentioned`, the same through a utility node that sees its inputs alone.

The two are proved for whole assignments: which case applies, how slots are filled, from the input
and once more from the actions, and which weights are added.
-/

namespace DecisionNetwork.RuleUtility

open DecisionNetwork.Assignment

variable {α : Type} [Scalar α]

section Congruence

/-- Inputs from which the same weights are read add up to the same total. -/
theorem addRealised_congr {left right : Assignment} (actions : Assignment)
    {effects : List (Effect × Parameter α)}
    (same : ∀ entry ∈ effects, entry.2.value left = entry.2.value right) (total : α) :
    addRealised left actions total effects = addRealised right actions total effects := by
  induction effects generalizing total with
  | nil => rfl
  | cons entry rest inductionHypothesis =>
      have restSame := inductionHypothesis fun later member =>
        same later (List.mem_cons_of_mem _ member)
      obtain ⟨effect, parameter⟩ := entry
      simp only [addRealised, same _ List.mem_cons_self, restSame]

variable {rule : CaseRule α} {left right : Assignment}

theorem score_congr (closed : rule.NamesClosed) (agree : AgreeOn rule.caseMentioned left right)
    (actions : Assignment) :
    score (rule.anchor.matchingOutput left) left actions =
      score (rule.anchor.matchingOutput right) right actions := by
  have sameOutput := rule.output_congr closed agree
  have sameTotal : addRealised left actions.removePrimes Scalar.zero (rule.output right).effects =
      addRealised right actions.removePrimes Scalar.zero (rule.output right).effects :=
    addRealised_congr _ (fun entry member =>
      Parameter.value_congr (agree.mono (CaseRule.parameter_mentioned_subset member))) _
  show scoreOutput (rule.output left) left actions = scoreOutput (rule.output right) right actions
  rw [sameOutput, scoreOutput, sameTotal]
  rfl

/-- Assignments that agree on what a case rule mentions have the same utility under it. -/
theorem plainUtility_congr (closed : rule.NamesClosed)
    (agree : AgreeOn rule.mentioned left right) :
    plainUtility rule.anchor left = plainUtility rule.anchor right := by
  have sameActions : actionsOf rule.anchor left = actionsOf rule.anchor right :=
    (agree.mono (List.subset_append_left _ _)).restrict_eq
  have onCases : AgreeOn rule.caseMentioned (inputOf rule.anchor left)
      (inputOf rule.anchor right) :=
    (agree.mono (List.subset_append_right _ _)).without rule.outputs.toList
  unfold plainUtility scoreOrZero
  rw [sameActions, score_congr closed onCases]

end Congruence

section Node

variable {rule : CaseRule α} {utility : RuleUtility α} {node : UtilityNode α}
  {library : RuleLibrary α} {handle : Nat}

/-- A node that has all variables mentioned by its uncached rule among its inputs answers as the
rule does for the whole assignment, and assignments that agree on those variables have the same
answer. The values may show any braces; zeros of different sign are different values here, since
they are shown differently. -/
theorem node_evaluate_of_mentioned (closed : rule.NamesClosed)
    (sameRule : utility.rule = rule.anchor) (plain : utility.isCached = false)
    (isFunction : node.function = .rule handle) (found : library.get? handle = some utility)
    (declared : rule.mentioned ⊆ node.inputs.toList) (full : Assignment) :
    (node.evaluate full library).1 = (utility.evaluate full).1 ∧
      ∀ other, AgreeOn rule.mentioned full other →
        (utility.evaluate full).1 = (utility.evaluate other).1 ∧
          (node.evaluate full library).1 = (node.evaluate other library).1 := by
  have ofRule (full : Assignment) : (utility.evaluate full).1 = plainUtility rule.anchor full := by
    rw [evaluate_of_not_cached plain, sameRule]
  have ofNode (full : Assignment) :
      (node.evaluate full library).1 = (utility.evaluate full).1 := by
    have trimmed : (node.evaluate full library).1 =
        (utility.evaluate (full.restrict node.inputs.toList)).1 := by
      unfold UtilityNode.evaluate
      rw [isFunction]
      exact library_evaluate_of_getElem? found _
    rw [trimmed, ofRule, ofRule]
    exact plainUtility_congr closed (agreeOn_restrict full declared)
  refine ⟨ofNode full, fun other agree => ?_⟩
  have same : (utility.evaluate full).1 = (utility.evaluate other).1 := by
    rw [ofRule, ofRule]
    exact plainUtility_congr closed agree
  exact ⟨same, by rw [ofNode, ofNode, same]⟩

/-- The rule that rewards a greeting by name to whoever is in the mood asked for. -/
def greetingRule : CaseRule Binary64 where
  id := "greeting"
  kind := .utility
  outputs := .ofList ["said"]
  parameters := .ofList ["weight"]
  cases := [(.all [.basic ⟨.ofText "mood", .equal, .ofText "\x7bwanted\x7d"⟩, .always],
    ⟨[(⟨[⟨.ofText "said", .assign, .ofText "hello \x7bname\x7d"⟩]⟩, .bound "weight")]⟩)]

/-- A node over the greeting rule that sees one variable more than the rule mentions. -/
def greetingNode : UtilityNode Binary64 :=
  ⟨"greeting", .ofList ["mood", "name", "said", "time", "wanted", "weight"], .rule 0⟩

/-- A greeting of Ann in some weather. -/
def greeting (weather : String) : Assignment :=
  .ofList [("mood", .text "good"), ("wanted", .text "good"), ("name", .text "Ann"),
    ("said", .text "hello Ann"), ("weight", .number .one), ("weather", .text weather)]

/-- A greeting in the mood asked for is worth its weight. -/
theorem plainUtility_greeting : plainUtility greetingRule.anchor (greeting "sun") = .one := by
  decide +kernel

/-- The node sees the time, which is not bound, and not the weather, which is. -/
theorem greetingNode_evaluate :
    greetingRule.NamesClosed ∧ greetingRule.mentioned ⊆ greetingNode.inputs.toList ∧
      AgreeOn greetingRule.mentioned (greeting "sun") (greeting "rain") ∧
      let utility : RuleUtility Binary64 := ⟨greetingRule.anchor, .disabled, 0⟩
      (greetingNode.evaluate (greeting "sun") ⟨[utility]⟩).1 =
          (utility.evaluate (greeting "sun")).1 ∧
        (utility.evaluate (greeting "sun")).1 = (utility.evaluate (greeting "rain")).1 ∧
        (greetingNode.evaluate (greeting "sun") ⟨[utility]⟩).1 =
          (greetingNode.evaluate (greeting "rain") ⟨[utility]⟩).1 ∧
        (utility.evaluate (greeting "sun")).1 = .one := by
  have isMentioned : greetingRule.mentioned = ["said", "mood", "wanted", "name", "weight"] := by
    decide +kernel
  have closed : greetingRule.NamesClosed := by
    intro entry isEntry
    cases List.mem_singleton.1 isEntry
    intro basic isBasic
    cases List.mem_singleton.1 isBasic
    decide +kernel
  have declared : greetingRule.mentioned ⊆ greetingNode.inputs.toList := by
    rw [isMentioned]
    decide
  have agree : AgreeOn greetingRule.mentioned (greeting "sun") (greeting "rain") := by
    rw [isMentioned]
    intro name member
    simp only [List.mem_cons, List.not_mem_nil, or_false] at member
    rcases member with rfl | rfl | rfl | rfl | rfl <;> rfl
  let utility : RuleUtility Binary64 := ⟨greetingRule.anchor, .disabled, 0⟩
  have sameRule : utility.rule = greetingRule.anchor := rfl
  have found : (RuleLibrary.mk [utility]).get? 0 = some utility := rfl
  obtain ⟨asRule, noninterference⟩ :=
    node_evaluate_of_mentioned closed sameRule rfl rfl found declared (greeting "sun")
  have worth : (utility.evaluate (greeting "sun")).1 = .one :=
    (evaluate_of_not_cached rfl (greeting "sun")).trans plainUtility_greeting
  obtain ⟨sameUtility, sameNode⟩ := noninterference _ agree
  exact ⟨closed, declared, agree, asRule, sameUtility, sameNode, worth⟩

end Node

end DecisionNetwork.RuleUtility
