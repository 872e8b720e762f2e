import DecisionNetwork.Rule.Basic

/-!
Contract: rules made of guarded cases.

Owns:
- `CaseRule`, whose output is that of the first case whose condition holds, filled from the input,
  and empty when none does;
- `CaseRule.anchor`, the case rule as an anchored rule.
-/

namespace DecisionNetwork

structure CaseRule (α : Type) where
  id : String
  kind : RuleKind
  outputs : SortedSet String
  parameters : SortedSet String
  cases : List (Condition × RuleOutput α)

namespace CaseRule

variable {α : Type}

def display (rule : CaseRule α) : String := rule.id ++ " (" ++ rule.kind.display ++ ")"

/-- The filled output of the first case that applies. -/
def output (rule : CaseRule α) (input : Assignment) : RuleOutput α :=
  match rule.cases.find? fun entry => entry.1.holds input with
  | some entry => entry.2.fill input
  | none => .empty

def anchor (rule : CaseRule α) : AnchoredRule α where
  label := rule.display
  kind := rule.kind
  outputs := rule.outputs
  parameters := rule.parameters
  matchingOutput := fun input => .ok (rule.output input)

end CaseRule

namespace AnchoredRule

/-- The rule with every match failing for the given reason. -/
def failing {α : Type} (rule : AnchoredRule α) (reason : String) : AnchoredRule α :=
  { rule with matchingOutput := fun _ => .error (.matching reason) }

end AnchoredRule

end DecisionNetwork
