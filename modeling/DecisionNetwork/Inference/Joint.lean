import DecisionNetwork.Assignment.Combinations
import DecisionNetwork.Network.Basic
import DecisionNetwork.Settings.Reader

/-!
Contract: the joint distribution of a network by enumeration.

Owns:
- `fullJoint`, the probability of every assignment of the chance variables and, if asked for, of
  the action variables;
- `checkSize`, which refuses to enumerate more assignments than the settings allow.

A joint probability is the product of the local ones formed by their logarithms, chance nodes first
and both kinds in the order of their identifiers.
-/

namespace DecisionNetwork.Inference

variable {α : Type}

/-- The domains of the chance variables and, if asked for, of the action variables. -/
def jointDomains (network : Network α) (withActions : Bool) : Domains :=
  let chance : Domains :=
    SortedMap.empty.insertMany (network.chanceNodes.map fun node => (node.id, node.values))
  if withActions then
    chance.insertMany (network.actionNodes.map fun node => (node.id, node.values))
  else chance

def checkSize (settings : Settings) (domains : Domains) : Except InferenceError Unit :=
  if settings.maxAssignments < domains.count then
    .error (.tooManyAssignments domains.count settings.maxAssignments)
  else .ok ()

variable [Scalar α]

/-- The local probabilities of the values in a row. -/
def localProbabilities (network : Network α) (withActions : Bool) (row : Assignment) : List α :=
  let chance := network.chanceNodes.map fun node =>
    node.probability row (row.valueOrAbsent node.id)
  if withActions then
    chance ++ network.actionNodes.map fun node => node.probability (row.valueOrAbsent node.id)
  else chance

def jointProbability (network : Network α) (withActions : Bool) (row : Assignment) : α :=
  Scalar.productByLogs (localProbabilities network withActions row)

/-- The probability of every assignment. -/
def fullJoint (settings : Settings) (network : Network α) (withActions : Bool) :
    Except InferenceError (SortedMap Assignment α) := do
  let domains := jointDomains network withActions
  checkSize settings domains
  return .ofList (domains.combinations.map fun row =>
    (row, jointProbability network withActions row))

/-- The rows of a joint distribution that contain the evidence. -/
def consistentRows (joint : SortedMap Assignment α) (evidence : Assignment) :
    List (Assignment × α) :=
  joint.toList.filter fun row => row.1.contains evidence

/-- Whether a total can be divided by. -/
def isMass (total : α) : Bool := !Scalar.le total Scalar.zero && Scalar.isFinite total

end DecisionNetwork.Inference
