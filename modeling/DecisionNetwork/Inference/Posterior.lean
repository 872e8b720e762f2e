import DecisionNetwork.Inference.Joint

/-!
Contract: the distribution of variables given evidence.

Owns:
- `posterior`, which adds up the joint rows that contain the evidence for each assignment of the
  query variables, and divides by the total;
- `normalise`, which refuses a total that is not positive or not finite.
-/

namespace DecisionNetwork.Inference

variable {α : Type}

/-- The domains of chance variables; the first that is none is refused. -/
def chanceDomains (settings : Settings) (network : Network α) (names : List String) :
    Except InferenceError Domains := do
  let entries ← names.mapM fun name =>
    match network.chanceNode? name with
    | some node => .ok (name, node.values)
    | none => .error (.unknownVariable name)
  let domains := SortedMap.empty.insertMany entries
  checkSize settings domains
  return domains

variable [Scalar α]

/-- The sum of the rows that contain an assignment. -/
def massOf (rows : List (Assignment × α)) (part : Assignment) : α :=
  Scalar.sum ((rows.filter fun row => row.1.contains part).map Prod.snd)

/-- The weights divided by their total. -/
def normalise (weights : SortedMap Assignment α) (evidence : Assignment) :
    Except InferenceError (SortedMap Assignment α) :=
  let total := Scalar.sum weights.values
  if isMass total then .ok (weights.mapValues fun weight => Scalar.div weight total)
  else .error (.degenerateQuery evidence)

/-- The distribution of the query variables given the evidence. -/
def posterior (settings : Settings) (network : Network α) (names : List String)
    (evidence : Assignment) : Except InferenceError (CategoricalTable α) := do
  let domains ← chanceDomains settings network names
  let joint ← fullJoint settings network false
  let consistent := consistentRows joint evidence
  let weights := SortedMap.ofList (domains.combinations.map fun part =>
    (part, massOf consistent part))
  return ⟨← normalise weights evidence⟩

end DecisionNetwork.Inference
