import DecisionNetwork.Proofs.Inference.Posterior
import DecisionNetwork.Proofs.Inference.Splitting

/-!
Contract: the nodes that a joint distribution ranges over, with the action nodes or without.

Owns:
- `Network.enumerated`, these nodes, and `Node.localProbability`, the factor of each of them;
- `Network.nodeValues`, the domains of all nodes, and `Built.get?_jointDomains`, by which a joint
  distribution ranges over the domains of its nodes;
- `jointProbability_eq_prod`, a joint probability as the product of the factors;
- `sum_joint_rows`, sums over the rows of a joint distribution;
- `jointMass`, the mass of the joint rows that contain a part.
-/

namespace DecisionNetwork

variable {α : Type}

namespace Node

/-- Whether a joint distribution ranges over a node. -/
def isEnumerated (withActions : Bool) : Node α → Bool
  | .chance _ => true
  | .action _ => withActions
  | .utility _ => false

/-- The local probability of the value that a row gives to a node; one for a utility, which has no
values. -/
def localProbability [Scalar α] (row : Assignment) : Node α → α
  | .chance node => node.probability row (row.valueOrAbsent node.id)
  | .action node => node.probability (row.valueOrAbsent node.id)
  | .utility _ => Scalar.ofNat 1

end Node

namespace Network

variable {network : Network α} {withActions : Bool}

/-- The nodes that a joint distribution ranges over. -/
def enumerated (network : Network α) (withActions : Bool) : List (Node α) :=
  network.nodeList.filter (Node.isEnumerated withActions)

/-- The domains of all nodes. -/
def nodeValues (network : Network α) : Domains := network.nodes.mapValues Node.values

theorem get?_nodeValues (network : Network α) (name : String) :
    network.nodeValues.get? name = (network.node? name).map Node.values :=
  SortedMap.get?_mapValues network.nodes Node.values name

theorem Built.mem_nodeList_iff (built : network.Built) {node : Node α} :
    node ∈ network.nodeList ↔ network.node? node.id = some node := by
  rw [Network.mem_nodeList_iff]
  constructor
  · rintro ⟨id, found⟩
    rw [built.node_id found, found]
  · intro found
    exact ⟨node.id, found⟩

theorem Built.mem_enumerated_iff (built : network.Built) {node : Node α} :
    node ∈ network.enumerated withActions ↔
      network.node? node.id = some node ∧ node.isEnumerated withActions = true := by
  rw [enumerated, List.mem_filter, built.mem_nodeList_iff]

theorem Built.mem_actionNodes_iff (built : network.Built) {node : ActionNode} :
    node ∈ network.actionNodes ↔ network.node? node.id = some (.action node) := by
  rw [show node.id = (Node.action (α := α) node).id from rfl, ← built.mem_nodeList_iff]
  unfold actionNodes
  rw [List.mem_filterMap]
  constructor
  · rintro ⟨stored, listed, isAction⟩
    cases stored with
    | action other =>
        cases isAction
        exact listed
    | chance => cases isAction
    | utility => cases isAction
  · intro listed
    exact ⟨.action node, listed, rfl⟩

theorem Built.mem_map_id_actionNodes_iff (built : network.Built) {name : String} :
    name ∈ network.actionNodes.map ActionNode.id ↔
      ∃ node, network.node? name = some (.action node) := by
  rw [List.mem_map]
  constructor
  · rintro ⟨node, listed, rfl⟩
    exact ⟨node, built.mem_actionNodes_iff.1 listed⟩
  · rintro ⟨node, found⟩
    have sameId : node.id = name := built.node_id found
    exact ⟨node, built.mem_actionNodes_iff.2 (sameId ▸ found), sameId⟩

/-- A joint distribution ranges over the domains of its nodes. -/
theorem Built.get?_jointDomains (built : network.Built) (withActions : Bool) (name : String) :
    (Inference.jointDomains network withActions).get? name =
      ((network.node? name).filter (Node.isEnumerated withActions)).map Node.values := by
  have chanceDomain : network.domains.get? name =
      ((network.node? name).filter (Node.isEnumerated false)).map Node.values := by
    rw [built.get?_domains, chanceNode?]
    cases network.node? name with
    | none => rfl
    | some node => cases node <;> rfl
  cases withActions with
  | false => exact chanceDomain
  | true =>
      have entries : network.actionNodes.map (fun node => (node.id, node.values)) =
          (network.actionNodes.map ActionNode.id).map fun id => (id, network.valuesOf id) := by
        rw [List.map_map]
        refine List.map_congr_left fun node member => ?_
        rw [Function.comp_apply, valuesOf_eq (built.mem_actionNodes_iff.1 member)]
        rfl
      show (network.domains.insertMany _).get? name = _
      rw [entries, SortedMap.get?_insertMany_map]
      split
      next listed =>
          obtain ⟨node, found⟩ := built.mem_map_id_actionNodes_iff.1 listed
          rw [valuesOf_eq found, found]
          rfl
      next unlisted =>
          rw [chanceDomain]
          cases found : network.node? name with
          | none => rfl
          | some node =>
              cases node with
              | chance node => rfl
              | action node =>
                  exact absurd (built.mem_map_id_actionNodes_iff.2 ⟨node, found⟩) unlisted
              | utility node => rfl

private theorem filter_isEnumerated_perm (nodes : List (Node α)) (withActions : Bool) :
    ((nodes.filterMap fun node : Node α =>
        match node with
        | .chance node => some node
        | _ => none).map Node.chance ++
      if withActions then
        (nodes.filterMap fun node : Node α =>
          match node with
          | .action node => some node
          | _ => none).map Node.action
      else []).Perm (nodes.filter (Node.isEnumerated withActions)) := by
  induction nodes with
  | nil => cases withActions <;> exact List.Perm.refl _
  | cons head tail inductionHypothesis =>
      cases head with
      | chance node => exact inductionHypothesis.cons (.chance node)
      | action node =>
          cases withActions with
          | true => exact List.perm_middle.trans (inductionHypothesis.cons (.action node))
          | false => exact inductionHypothesis
      | utility node => exact inductionHypothesis

/-- The chance nodes and, if asked for, the action nodes are the nodes of a joint distribution. -/
theorem enumerated_perm (network : Network α) (withActions : Bool) :
    (network.chanceNodes.map Node.chance ++
      if withActions then network.actionNodes.map Node.action else []).Perm
      (network.enumerated withActions) :=
  filter_isEnumerated_perm network.nodeList withActions

/-- The domains of enumerated nodes are those of the joint distribution. -/
theorem Built.among_jointDomains (built : network.Built) {names : List String}
    (enumerated : ∀ name ∈ names, ∃ node ∈ network.enumerated withActions, node.id = name) :
    (Inference.jointDomains network withActions).among names = network.nodeValues.among names := by
  refine SortedMap.ext_get? fun name => ?_
  rw [Domains.get?_among, Domains.get?_among]
  split
  next listed =>
      obtain ⟨node, member, rfl⟩ := enumerated name listed
      obtain ⟨found, isEnumerated⟩ := built.mem_enumerated_iff.1 member
      rw [built.get?_jointDomains, get?_nodeValues, found, Option.filter_some, if_pos isEnumerated]
  next => rfl

end Network

namespace Inference

open Network

section Joint

variable {network : Network ℚ} {withActions : Bool}

theorem localProbabilities_perm (network : Network ℚ) (withActions : Bool) (row : Assignment) :
    (localProbabilities network withActions row).Perm
      ((network.enumerated withActions).map (Node.localProbability row)) := by
  refine List.Perm.trans (List.Perm.of_eq ?_)
    ((enumerated_perm network withActions).map (Node.localProbability row))
  unfold localProbabilities
  rw [List.map_append, List.map_map]
  cases withActions with
  | true =>
      rw [if_pos rfl, if_pos rfl, List.map_map]
      rfl
  | false =>
      rw [if_neg Bool.false_ne_true, if_neg Bool.false_ne_true, List.map_nil, List.append_nil]
      rfl

/-- A joint probability is the product of the local ones. -/
theorem jointProbability_eq_prod (network : Network ℚ) (withActions : Bool) (row : Assignment) :
    jointProbability network withActions row =
      ((network.enumerated withActions).map (Node.localProbability row)).prod := by
  unfold jointProbability
  rw [Scalar.productByLogs_eq_prod]
  exact (localProbabilities_perm network withActions row).prod_eq

/-- A sum over the rows of a joint distribution that pass a test. -/
theorem sum_joint_rows (network : Network ℚ) (withActions : Bool) (test : Assignment → Bool)
    (value : Assignment × ℚ → ℚ) :
    (((jointRows network withActions).toList.filter fun row => test row.1).map value).sum =
      ∑ row ∈ (jointDomains network withActions).combinationSet with test row = true,
        value (row, jointProbability network withActions row) := by
  have listed : (jointRows network withActions).toList.Perm
      ((jointDomains network withActions).combinations.map fun row =>
        (row, jointProbability network withActions row)) :=
    Domains.toList_ofList_combinations_perm _ _
  rw [← Domains.sum_filter_combinations, ((listed.filter _).map value).sum_eq, List.filter_map,
    List.map_map]
  rfl

/-- The mass of the joint rows that contain a part. -/
def jointMass (network : Network ℚ) (withActions : Bool) (part : Assignment) : ℚ :=
  ∑ row ∈ (jointDomains network withActions).combinationSet with row.contains part = true,
    jointProbability network withActions row

theorem massOf_jointRows (part : Assignment) :
    massOf (jointRows network withActions).toList part = jointMass network withActions part := by
  unfold massOf
  rw [Scalar.sum_eq_sum]
  exact sum_joint_rows network withActions (fun row => row.contains part) Prod.snd

end Joint

end Inference

end DecisionNetwork
