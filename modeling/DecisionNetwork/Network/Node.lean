import DecisionNetwork.RuleUtility.Library
import DecisionNetwork.Table.Conditional
import DecisionNetwork.Table.Utility
import DecisionNetwork.Value.Sequence

/-!
Contract: the nodes of a decision network.

Owns:
- `ChanceNode`, with a local distribution given its inputs;
- `ActionNode`, whose distinct values are equally likely;
- `UtilityNode`, with a utility table or a shared rule utility;
- `Node`, any of them, and what all have in common.

Each reads from an assignment only the variables that are its inputs.
-/

namespace DecisionNetwork

inductive NodeKind where
  | chance
  | action
  | utility
deriving DecidableEq, Repr

/-- A variable with a distribution that depends on the inputs. -/
structure ChanceNode (α : Type) where
  id : String
  inputs : SortedSet String
  distribution : Distribution α

namespace ChanceNode

variable {α : Type}

/-- The domain of the variable. -/
def values (node : ChanceNode α) : List Value := node.distribution.values node.id

/-- The probability of a value, the inputs being read from an assignment. -/
def probability [Scalar α] (node : ChanceNode α) (condition : Assignment) (value : Value) : α :=
  node.distribution.probability (condition.restrict node.inputs.toList) (.single node.id value)

end ChanceNode

/-- A variable that is decided; no two of its values are equal. -/
structure ActionNode where
  id : String
  values : List Value
  apart : values.Pairwise fun left right => compare left right ≠ .eq

namespace ActionNode

/-- The action over the distinct values of a list. -/
def make (id : String) (values : List Value) : ActionNode :=
  ⟨id, Value.distinct values, Value.distinct_pairwise values⟩

/-- The prior probability of a value. -/
def probability {α : Type} [Scalar α] (node : ActionNode) (value : Value) : α :=
  if node.values.contains value then
    Scalar.div (Scalar.ofNat 1) (Scalar.ofNat node.values.length)
  else Scalar.zero

end ActionNode

/-- What a utility node computes: a table, or the rule utility of a handle. -/
inductive UtilityFunction (α : Type) where
  | table (rows : UtilityTable α)
  | rule (handle : Nat)

namespace UtilityFunction

variable {α : Type}

/-- The utility of an assignment, and the library after it was asked for. -/
def evaluate [Scalar α] (function : UtilityFunction α) (input : Assignment)
    (library : RuleLibrary α) : α × RuleLibrary α :=
  match function with
  | .table rows => (rows.utility input, library)
  | .rule handle => library.evaluate handle input

/-- The library after a variable was given a new name. -/
def renameVariable (function : UtilityFunction α) (old new : String)
    (library : RuleLibrary α) : RuleLibrary α :=
  match function with
  | .table _ => library
  | .rule handle => library.modify handle fun utility => utility.renameVariable old new

end UtilityFunction

/-- A node that contributes a utility. -/
structure UtilityNode (α : Type) where
  id : String
  inputs : SortedSet String
  function : UtilityFunction α

namespace UtilityNode

/-- The utility of an assignment, of which the node sees its inputs alone. -/
def evaluate {α : Type} [Scalar α] (node : UtilityNode α) (full : Assignment)
    (library : RuleLibrary α) : α × RuleLibrary α :=
  node.function.evaluate (full.restrict node.inputs.toList) library

end UtilityNode

inductive Node (α : Type) where
  | chance (node : ChanceNode α)
  | action (node : ActionNode)
  | utility (node : UtilityNode α)

namespace Node

variable {α : Type}

def id : Node α → String
  | .chance node => node.id
  | .action node => node.id
  | .utility node => node.id

def kind : Node α → NodeKind
  | .chance _ => .chance
  | .action _ => .action
  | .utility _ => .utility

/-- The inputs of a node; an action has none. -/
def inputs : Node α → SortedSet String
  | .chance node => node.inputs
  | .action _ => .empty
  | .utility node => node.inputs

/-- The domain of a node; a utility has none. -/
def values : Node α → List Value
  | .chance node => node.values
  | .action node => node.values
  | .utility _ => []

end Node

end DecisionNetwork
