import DecisionNetwork.Inference.Posterior
import DecisionNetwork.Network.Order
import DecisionNetwork.Network.Reach

/-!
Contract: smaller networks over some of the chance variables.

Owns:
- `ReductionPlan`, the variables kept in order, the inputs of each and the evidence;
- `ReductionPlan.ofNetwork`, which orders the variables with inputs first and gives each the
  earlier ones that are connected to it; the others are independent of it under any evidence;
- `reduce`, which rebuilds every variable with a conditional table of posteriors.

Identifiers that the network lacks come last in a plan, so that `reduce` reports them.
-/

namespace DecisionNetwork

/-- The variables of a smaller network. -/
structure ReductionPlan where
  order : List String
  inputs : SortedMap String (SortedSet String)
  evidence : Assignment

namespace ReductionPlan

/-- The inputs of a variable, none if it is not listed. -/
def inputsOf (plan : ReductionPlan) (name : String) : SortedSet String :=
  (plan.inputs.get? name).getD .empty

/-- Replaces the inputs of a variable. -/
def withInputs (plan : ReductionPlan) (name : String) (inputs : List String) : ReductionPlan :=
  { plan with inputs := plan.inputs.insert name (.ofList inputs) }

/-- The inputs of each variable among those before it. -/
def connectedInputs (neighbours : Network.Neighbours) (earlier : List String) :
    List String → List (String × SortedSet String)
  | [] => []
  | name :: rest =>
    let connected := Network.connectedIds neighbours name
    (name, .ofList (earlier.filter connected.contains)) ::
      connectedInputs neighbours (earlier ++ [name]) rest

/-- The plan that keeps the given variables. -/
def ofNetwork {α : Type} (network : Network α) (retained : List String) (evidence : Assignment) :
    ReductionPlan :=
  let retained := (SortedSet.ofList retained).toList
  let order := network.sortedIds.filter retained.contains ++
    retained.filter fun id => !network.contains id
  ⟨order, SortedMap.empty.insertMany (connectedInputs network.undirectedEdges [] order), evidence⟩

end ReductionPlan

namespace Inference

variable {α : Type} [Scalar α]

/-- Adds to a table the posterior of a variable for each assignment of its inputs. An assignment
without probability mass gets none. -/
def conditionalTable (settings : Settings) (network : Network α) (name : String)
    (evidence : Assignment) (table : ConditionalTable α) :
    List Assignment → Except InferenceError (ConditionalTable α)
  | [] => .ok table
  | parents :: rest =>
    match posterior settings network [name] (evidence.compose parents) with
    | .ok distribution =>
      conditionalTable settings network name evidence (table.add parents distribution) rest
    | .error (.degenerateQuery _) =>
      conditionalTable settings network name evidence table rest
    | .error failure => .error failure

/-- Adds a variable of the plan to the smaller network. -/
def reduceVariable (settings : Settings) (network : Network α) (plan : ReductionPlan)
    (reduced : Network α) (name : String) : Except InferenceError (Network α) := do
  if (network.chanceNode? name).isNone then throw (.unknownVariable name)
  let inputs := plan.inputsOf name
  let domains ← chanceDomains settings network inputs.toList
  let table ← conditionalTable settings network name plan.evidence .empty domains.combinations
  match reduced.add (.chance ⟨name, inputs, .conditional table⟩) with
  | .ok next => return next
  | .error cause => throw (.model cause)

/-- The network over the variables of a plan. -/
def reduce (settings : Settings) (network : Network α) (plan : ReductionPlan) :
    Except InferenceError (Network α) :=
  plan.order.foldlM (reduceVariable settings network plan) .empty

end Inference

end DecisionNetwork
