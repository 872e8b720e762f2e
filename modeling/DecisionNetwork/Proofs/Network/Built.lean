import DecisionNetwork.Network.Basic
import DecisionNetwork.Proofs.SortedMap.Listing
import Mathlib.Data.List.Nodup

/-!
Contract: the networks that come about by adding nodes one after the other.

Owns:
- `run_addNode`, what a call that adds a node answers and leaves;
- `Built`, with `add_eq_ok_iff` for a single node;
- `Built.node_id`, `Built.contains_input` and `Built.exists_rank`: nodes are stored under their
  identifiers, their inputs are nodes, and edges go from greater to smaller ranks;
- `mem_chanceNodes_iff` and `chanceNodes_nodup`, the chance nodes by their identifiers.
-/

namespace DecisionNetwork

/-- The values of a variable ascend. -/
theorem ChanceNode.values_ascending {α : Type} (node : ChanceNode α) :
    node.values.Pairwise fun left right => compare left right = .lt := by
  unfold values Distribution.values
  cases node.distribution with
  | categorical table => exact SortedSet.ascending_toList _
  | conditional tables => exact SortedSet.ascending_toList _

namespace Network

variable {α : Type}

/-- The networks reached from the empty one by adding nodes. -/
inductive Built : Network α → Prop
  | empty : Built .empty
  | add {network next : Network α} {node : Node α} (built : Built network)
      (added : network.add node = .ok next) : Built next

theorem contains_iff {network : Network α} {id : String} :
    network.contains id = true ↔ ∃ node, network.node? id = some node :=
  Option.isSome_iff_exists

/-- A call fails at the identifier or at the first missing input, and else leaves one more node. -/
theorem run_addNode (network : Network α) (node : Node α) :
    (addNode node).run.run network =
      if network.contains node.id then (.error (.duplicateNode node.id), network)
      else
        match node.inputs.toList.find? fun input => !network.contains input with
        | some missing => (.error (.unknownInput node.id missing), network)
        | none => (.ok (), ⟨network.nodes.insert node.id node⟩) := by
  show (ite _ _ _ : ExceptT ModelError (StateM (Network α)) Unit) network = _
  cases network.contains node.id with
  | true => rfl
  | false => cases node.inputs.toList.find? fun input => !network.contains input <;> rfl

theorem add_eq (network : Network α) (node : Node α) :
    network.add node =
      if network.contains node.id then .error (.duplicateNode node.id)
      else
        match node.inputs.toList.find? fun input => !network.contains input with
        | some missing => .error (.unknownInput node.id missing)
        | none => .ok ⟨network.nodes.insert node.id node⟩ := by
  rw [add, run_addNode]
  cases network.contains node.id with
  | true => rfl
  | false => cases node.inputs.toList.find? fun input => !network.contains input <;> rfl

theorem add_eq_ok_iff {network next : Network α} {node : Node α} :
    network.add node = .ok next ↔
      network.contains node.id = false ∧
        (∀ input ∈ node.inputs.toList, network.contains input = true) ∧
        next = ⟨network.nodes.insert node.id node⟩ := by
  rw [add_eq]
  cases taken : network.contains node.id with
  | true => simp
  | false =>
      cases missing : node.inputs.toList.find? fun input => !network.contains input with
      | some input =>
          have unknown := List.find?_some missing
          have listed := List.mem_of_find?_eq_some missing
          simp only [Bool.false_eq_true, if_false, reduceCtorEq, true_and, false_iff, not_and]
          intro present
          rw [present input listed] at unknown
          cases unknown
      | none =>
          have present : ∀ input ∈ node.inputs.toList, network.contains input = true := by
            simpa using missing
          simp only [Bool.false_eq_true, if_false, Except.ok.injEq, true_and]
          exact ⟨fun same => ⟨present, same.symm⟩, fun added => added.2.symm⟩

theorem node?_insert (network : Network α) (node : Node α) (id : String) :
    (Network.mk (network.nodes.insert node.id node)).node? id =
      if id = node.id then some node else network.node? id := by
  show (network.nodes.insert node.id node).get? id = _
  split
  next same => rw [same, SortedMap.get?_insert_self]
  next differ => exact SortedMap.get?_insert_of_ne network.nodes node differ

theorem Built.insert {network : Network α} (built : Built network) (node : Node α)
    (new : network.contains node.id = false)
    (present : ∀ input ∈ node.inputs.toList, network.contains input = true) :
    Built ⟨network.nodes.insert node.id node⟩ :=
  built.add (add_eq_ok_iff.2 ⟨new, present, rfl⟩)

namespace Built

variable {network : Network α} {id : String} {node : Node α}

/-- A node is stored under its identifier. -/
theorem node_id (built : Built network) (found : network.node? id = some node) : node.id = id := by
  induction built with
  | empty => cases found
  | add built added inductionHypothesis =>
      obtain ⟨_, _, rfl⟩ := add_eq_ok_iff.1 added
      rw [node?_insert] at found
      split at found
      next same =>
          cases found
          exact same.symm
      next => exact inductionHypothesis found

/-- The inputs of a node are nodes. -/
theorem contains_input (built : Built network) (found : network.node? id = some node)
    {input : String} (reads : input ∈ node.inputs.toList) : network.contains input = true := by
  induction built with
  | empty => cases found
  | @add earlier next last built added inductionHypothesis =>
      obtain ⟨_, present, rfl⟩ := add_eq_ok_iff.1 added
      have inEarlier : earlier.contains input = true := by
        rw [node?_insert] at found
        split at found
        · cases found
          exact present input reads
        · exact inductionHypothesis found
      obtain ⟨stored, storedFound⟩ := contains_iff.1 inEarlier
      rw [contains_iff, node?_insert]
      split
      · exact ⟨last, rfl⟩
      · exact ⟨stored, storedFound⟩

/-- Ranks that decrease along every edge to an input: the places in which nodes were added. -/
theorem exists_rank (built : Built network) :
    ∃ rank : String → Nat, ∀ id node, network.node? id = some node →
      ∀ input ∈ node.inputs.toList, rank input < rank id := by
  suffices bounded : ∃ (rank : String → Nat) (bound : Nat), (∀ id, rank id < bound) ∧
      ∀ id node, network.node? id = some node →
        ∀ input ∈ node.inputs.toList, rank input < rank id by
    obtain ⟨rank, _, _, decreases⟩ := bounded
    exact ⟨rank, decreases⟩
  induction built with
  | empty => exact ⟨fun _ => 0, 1, fun _ => Nat.zero_lt_one, fun _ _ found => by cases found⟩
  | @add earlier next last built added inductionHypothesis =>
      obtain ⟨new, present, rfl⟩ := add_eq_ok_iff.1 added
      obtain ⟨rank, bound, below, decreases⟩ := inductionHypothesis
      have isOld {input : String} (inEarlier : earlier.contains input = true) :
          input ≠ last.id := by
        rintro rfl
        rw [new] at inEarlier
        cases inEarlier
      refine ⟨fun id => if id = last.id then bound else rank id, bound + 1, fun id => ?_, ?_⟩
      · dsimp only
        have := below id
        split <;> omega
      · intro id node found input reads
        rw [node?_insert] at found
        dsimp only
        split at found
        next isLast =>
            cases found
            rw [if_neg (isOld (present input reads)), if_pos isLast]
            exact below input
        next differ =>
            have old := isOld (contains_input built found reads)
            rw [if_neg old, if_neg differ]
            exact decreases id node found input reads

end Built

section ChanceNodes

theorem mem_nodeList_iff {network : Network α} {node : Node α} :
    node ∈ network.nodeList ↔ ∃ id, network.node? id = some node := by
  simp [nodeList, node?, SortedMap.get?_eq_some_iff, SortedMap.values_eq_map]

theorem chanceNode?_eq_some_iff {network : Network α} {id : String} {node : ChanceNode α} :
    network.chanceNode? id = some node ↔ network.node? id = some (.chance node) := by
  unfold chanceNode?
  cases network.node? id with
  | none => simp
  | some found => cases found <;> simp

theorem Built.map_id_nodeList {network : Network α} (built : Built network) :
    network.nodeList.map Node.id = network.ids := by
  show (network.nodes.toList.map Prod.snd).map Node.id = network.nodes.toList.map Prod.fst
  rw [List.map_map]
  refine List.map_congr_left fun entry member => ?_
  exact built.node_id (SortedMap.get?_of_mem member)

private theorem filterMap_id_sublist (nodes : List (Node α)) :
    ((nodes.filterMap fun node =>
      match node with
      | .chance node => some node
      | _ => none).map ChanceNode.id).Sublist (nodes.map Node.id) := by
  induction nodes with
  | nil => exact List.Sublist.refl _
  | cons head tail inductionHypothesis =>
      cases head with
      | chance node => exact inductionHypothesis.cons_cons node.id
      | action node => exact inductionHypothesis.cons node.id
      | utility node => exact inductionHypothesis.cons node.id

variable {network : Network α}

theorem Built.map_id_chanceNodes_nodup (built : Built network) :
    (network.chanceNodes.map ChanceNode.id).Nodup := by
  have sublist := filterMap_id_sublist network.nodeList
  rw [built.map_id_nodeList] at sublist
  exact (SortedMap.keys_nodup network.nodes).sublist sublist

theorem Built.chanceNodes_nodup (built : Built network) : network.chanceNodes.Nodup :=
  List.Nodup.of_map ChanceNode.id built.map_id_chanceNodes_nodup

theorem Built.mem_chanceNodes_iff (built : Built network) {node : ChanceNode α} :
    node ∈ network.chanceNodes ↔ network.chanceNode? node.id = some node := by
  rw [chanceNode?_eq_some_iff]
  constructor
  · intro member
    obtain ⟨stored, listed, isChance⟩ := List.mem_filterMap.1 member
    obtain ⟨id, found⟩ := mem_nodeList_iff.1 listed
    cases stored with
    | chance other =>
        cases isChance
        have sameId : node.id = id := built.node_id found
        rw [sameId, found]
    | action => cases isChance
    | utility => cases isChance
  · intro found
    exact List.mem_filterMap.2 ⟨.chance node, mem_nodeList_iff.2 ⟨node.id, found⟩, rfl⟩

theorem Built.chanceNode_id (built : Built network) {id : String} {node : ChanceNode α}
    (found : network.chanceNode? id = some node) : node.id = id :=
  built.node_id (chanceNode?_eq_some_iff.1 found)

end ChanceNodes

end Network

end DecisionNetwork
