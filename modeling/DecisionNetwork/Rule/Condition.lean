import DecisionNetwork.Rule.Template

/-!
Contract: conditions on assignments.

Owns:
- `BasicCondition`, the comparison of one variable with an expected value;
- `Condition`, a basic condition or a conjunction of conditions, the empty one always holding;
- `holds` and the texts of both.

The slots of a basic condition are filled from the assignment first. One that stays open makes the
condition fail, whichever the relation; a variable without a binding counts as absent.
-/

namespace DecisionNetwork

inductive Relation where
  | equal
  | unequal
deriving DecidableEq, Repr

namespace Relation

def sign : Relation → String
  | .equal => "="
  | .unequal => "!="

/-- Whether two values stand in the relation. -/
def relates (relation : Relation) (actual expected : Value) : Bool :=
  match relation with
  | .equal => actual == expected
  | .unequal => actual != expected

end Relation

/-- A variable compared with an expected value. -/
structure BasicCondition where
  name : Template
  relation : Relation
  expected : Template
deriving DecidableEq, Repr

namespace BasicCondition

def holds (condition : BasicCondition) (input : Assignment) : Bool :=
  let name := condition.name.fill input
  let expected := condition.expected.fill input
  if name.isOpen || expected.isOpen then false
  else condition.relation.relates (input.valueOrAbsent name.text) expected.toValue

def display (condition : BasicCondition) : String :=
  condition.name.text ++ condition.relation.sign ++ condition.expected.text

end BasicCondition

/-- A condition on an assignment. -/
inductive Condition where
  | basic (condition : BasicCondition)
  | all (conditions : List Condition)
deriving Repr

namespace Condition

/-- The condition that always holds. -/
def always : Condition := .all []

mutual

def holds (input : Assignment) : Condition → Bool
  | .basic condition => condition.holds input
  | .all conditions => holdAll input conditions

def holdAll (input : Assignment) : List Condition → Bool
  | [] => true
  | condition :: conditions => holds input condition && holdAll input conditions

end

mutual

/-- The conditions joined by ` ^ `, or `true` when there are none. -/
def display : Condition → String
  | .basic condition => condition.display
  | .all [] => "true"
  | .all (condition :: conditions) =>
    " ^ ".intercalate (display condition :: displayAll conditions)

def displayAll : List Condition → List String
  | [] => []
  | condition :: conditions => display condition :: displayAll conditions

end

end Condition

end DecisionNetwork
