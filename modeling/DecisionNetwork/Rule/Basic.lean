import DecisionNetwork.Number.Notation
import DecisionNetwork.Number.Scalar
import DecisionNetwork.Rule.Effect
import DecisionNetwork.Text.Visible

/-!
Contract: what a rule yields for an input, and rules as the distributions see them.

Owns:
- `Parameter`, the weight of an effect, fixed or read from a variable of the input;
- `RuleOutput`, weighted effects;
- `RuleError` and its messages;
- `AnchoredRule`, a rule known by its outputs, its parameters and a function of the input.
-/

namespace DecisionNetwork

inductive RuleKind where
  | probability
  | utility
deriving DecidableEq, Repr

def RuleKind.display : RuleKind → String
  | .probability => "prob"
  | .utility => "util"

/-- Why a rule yields no utility. -/
inductive RuleError (α : Type) where
  | matching (reason : String)
  | unboundParameter (name : String)
  | nonFiniteUtility (utility : α)
deriving DecidableEq, Repr

def RuleError.message : RuleError Binary64 → String
  | .matching reason => "Rule matching failed: " ++ reason
  | .unboundParameter name =>
    "Parameter " ++ Text.quoted name ++ " has no numeric value in the input"
  | .nonFiniteUtility utility => "Utility " ++ utility.plain ++ " is not a finite number"

/-- The weight of an effect. -/
inductive Parameter (α : Type) where
  | fixed (weight : α)
  | bound (name : String)
deriving DecidableEq, Repr

namespace Parameter

/-- The number of a parameter for an input. -/
def value {α : Type} [Scalar α] (parameter : Parameter α) (input : Assignment) :
    Except (RuleError α) α :=
  match parameter with
  | .fixed weight => .ok weight
  | .bound name =>
    match (input.value? name).bind Value.asNumber? with
    | some number => .ok (Scalar.ofBinary64 number)
    | none => .error (.unboundParameter name)

def display : Parameter Binary64 → String
  | .fixed weight => weight.plain
  | .bound name => name

end Parameter

/-- Effects with their weights. -/
structure RuleOutput (α : Type) where
  effects : List (Effect × Parameter α)
deriving DecidableEq, Repr

namespace RuleOutput

variable {α : Type}

def empty : RuleOutput α := ⟨[]⟩

def size (output : RuleOutput α) : Nat := output.effects.length

def isEmpty (output : RuleOutput α) : Bool := output.effects.isEmpty

/-- Fills the slots of every effect. -/
def fill (output : RuleOutput α) (input : Assignment) : RuleOutput α :=
  ⟨output.effects.map fun entry => (entry.1.fill input, entry.2)⟩

end RuleOutput

/-- A rule as a function of its input. The output variables may be primed. -/
structure AnchoredRule (α : Type) where
  label : String
  kind : RuleKind
  outputs : SortedSet String
  parameters : SortedSet String
  matchingOutput : Assignment → Except (RuleError α) (RuleOutput α)

end DecisionNetwork
