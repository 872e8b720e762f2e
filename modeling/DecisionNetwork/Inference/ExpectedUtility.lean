import DecisionNetwork.Inference.Joint

/-!
Contract: the expected utility of assignments given evidence.

Owns:
- `expectedUtilities`, which averages the utility of every joint row that contains the evidence,
  the query variables being set to the assignment in question;
- `totalUtility`, the sum over the utility nodes.

Rule utilities are evaluated in turn, so the library comes back with their caches filled.
-/

namespace DecisionNetwork.Inference

variable {α : Type}

/-- The domains of any nodes; the first identifier without a node is refused. -/
def nodeDomains (settings : Settings) (network : Network α) (names : List String) :
    Except InferenceError Domains := do
  let entries ← names.mapM fun name =>
    match network.node? name with
    | some node => .ok (name, node.values)
    | none => .error (.unknownVariable name)
  let domains := SortedMap.empty.insertMany entries
  checkSize settings domains
  return domains

variable [Scalar α]

/-- The sum of the utilities of an assignment over the nodes, from left to right. -/
def totalUtility (nodes : List (UtilityNode α)) (full : Assignment) (library : RuleLibrary α) :
    α × RuleLibrary α :=
  nodes.foldl
    (fun state node =>
      let (utility, library) := node.evaluate full state.2
      (Scalar.add state.1 utility, library))
    (Scalar.zero, library)

/-- The sum of the utilities of rows in which an assignment overrides, weighted by the rows. -/
def weightedUtility (network : Network α) (rows : List (Assignment × α)) (action : Assignment)
    (library : RuleLibrary α) : α × RuleLibrary α :=
  rows.foldl
    (fun state row =>
      let (utility, library) :=
        totalUtility network.utilityNodes (row.1.compose action) state.2
      (Scalar.add state.1 (Scalar.mul utility row.2), library))
    (Scalar.zero, library)

/-- The expected utility of each of several assignments, one after the other. -/
def utilitiesOf (network : Network α) (rows : List (Assignment × α)) (total : α)
    (actions : List Assignment) (library : RuleLibrary α) : UtilityTable α × RuleLibrary α :=
  actions.foldl
    (fun state action =>
      let (weighted, library) := weightedUtility network rows action state.2
      (state.1.set action (Scalar.div weighted total), library))
    (.empty, library)

/-- The expected utility of every assignment of the query variables given the evidence. -/
def expectedUtilities (settings : Settings) (network : Network α) (names : List String)
    (evidence : Assignment) (library : RuleLibrary α) :
    Except InferenceError (UtilityTable α × RuleLibrary α) := do
  let domains ← nodeDomains settings network names
  let joint ← fullJoint settings network true
  let consistent := consistentRows joint evidence
  let total := Scalar.sum (consistent.map Prod.snd)
  if isMass total then
    return utilitiesOf network consistent total domains.combinations library
  else throw (.degenerateQuery evidence)

end DecisionNetwork.Inference
