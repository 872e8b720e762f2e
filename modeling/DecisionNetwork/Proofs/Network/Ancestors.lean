import DecisionNetwork.Proofs.Network.Order
import DecisionNetwork.Proofs.Network.Reach

/-!
Contract: the ancestors of a node.

Owns:
- `joins_inputEdges_iff`, the edges that the search follows: from a node to what it reads;
- `IsOrder.mem_of_reads_path`: in an order of the nodes a path of inputs only leads backwards;
- `AreAncestors`, what a set of ancestors is, and `ancestors_ok_or_unknownNode`, by which every
  call finds it or names an unknown identifier.

The search may meet a node many times. What it finds is told by paths, so that only the last step
asks where the network came from: networks that are built have no cycles.
-/

namespace DecisionNetwork.Network

variable {α : Type}

/-- The ancestors of a node: all that it reads along one or more edges. -/
structure AreAncestors (network : Network α) (id : String) (found : SortedSet String) : Prop where
  mem_iff : ∀ other, other ∈ found.toList ↔ Relation.TransGen network.Reads id other
  areNodes : ∀ other ∈ found.toList, network.contains other = true
  excludesSelf : id ∉ found.toList
  closed : ∀ other ∈ found.toList, ∀ input, network.Reads other input → input ∈ found.toList
  sortedBefore : ∃ before after, network.sortedIds = before ++ id :: after ∧
    ∀ other ∈ found.toList, other ∈ before

section Search

variable {network : Network α} {id other : String}

/-- The search follows the edges from nodes to their inputs. -/
theorem joins_inputEdges_iff :
    network.inputEdges.Joins id other ↔ network.Reads id other := by
  unfold Neighbours.Joins inputEdges Reads node?
  rw [Neighbours.of_eq, SortedMap.get?_mapValues]
  cases network.nodes.get? id with
  | none => simp [SortedSet.toList, SortedMap.keys, SortedMap.empty]
  | some node => simp

/-- A search from the inputs of a node finds what the node reads along one or more edges. -/
theorem mem_closure_inputs_iff {node : Node α} (found : network.node? id = some node) :
    other ∈ closure network.inputEdges [] node.inputs.toList ↔
      Relation.TransGen network.Reads id other := by
  have sameEdges : network.inputEdges.Joins = network.Reads :=
    funext fun _ => funext fun _ => propext joins_inputEdges_iff
  rw [mem_closure_iff, sameEdges, Relation.TransGen.head'_iff]
  constructor
  · rintro ⟨input, listed, path⟩
    exact ⟨input, ⟨node, found, listed⟩, path⟩
  · rintro ⟨input, ⟨stored, storedFound, listed⟩, path⟩
    cases found.symm.trans storedFound
    exact ⟨input, listed, path⟩

/-- In an order of all nodes a path of inputs leads to nodes that come earlier. -/
theorem IsOrder.mem_of_reads_path {order before after : List String}
    (isOrder : network.IsOrder [] order) (split : order = before ++ id :: after)
    (path : Relation.TransGen network.Reads id other) : other ∈ before := by
  induction path with
  | single reads =>
      exact (isOrder.inputsFirst before id after split _ reads).resolve_right List.not_mem_nil
  | @tail middle last _ reads inductionHypothesis =>
      obtain ⟨start, rest, rfl⟩ := List.append_of_mem inductionHypothesis
      have middleSplit : order = start ++ middle :: (rest ++ id :: after) := by
        rw [split, List.append_assoc, List.cons_append]
      have earlier := (isOrder.inputsFirst start middle _ middleSplit last reads).resolve_right
        List.not_mem_nil
      exact List.mem_append_left _ earlier

end Search

/-- A node of a network that was built has a set of ancestors, and the search returns it. -/
theorem Built.exists_ancestors {network : Network α} (built : network.Built) {id : String}
    (isNode : network.contains id = true) :
    ∃ found, network.ancestors id = .ok found ∧ network.AreAncestors id found := by
  obtain ⟨node, stored⟩ := contains_iff.1 isNode
  have answer : network.ancestors id =
      .ok (.ofList (closure network.inputEdges [] node.inputs.toList)) := by
    unfold ancestors Network.node
    rw [stored]
  refine ⟨_, answer, ?_⟩
  have mem_iff (other : String) :
      other ∈ SortedSet.toList (.ofList (closure network.inputEdges [] node.inputs.toList)) ↔
        Relation.TransGen network.Reads id other := by
    rw [SortedSet.mem_toList_ofList, mem_closure_inputs_iff stored]
  refine ⟨mem_iff, fun other member => ?_, fun member => ?_, fun other member input reads => ?_, ?_⟩
  · obtain ⟨_, _, reads⟩ := Relation.TransGen.tail'_iff.1 ((mem_iff other).1 member)
    exact built.sound.closed _ _ reads
  · exact built.acyclic id ((mem_iff id).1 member)
  · exact (mem_iff input).2 (((mem_iff other).1 member).tail reads)
  · obtain ⟨before, after, split⟩ := List.append_of_mem ((mem_sortedIds_iff built).2 isNode)
    exact ⟨before, after, split, fun other member =>
      (isOrder_sortedIds built).mem_of_reads_path split ((mem_iff other).1 member)⟩

/-- Whatever calls were made to add nodes, asking for the ancestors of a node returns all that it
reads along one or more edges, and asking for those of anything else names it as unknown. -/
theorem ancestors_ok_or_unknownNode (nodes : List (Node α)) (id : String) :
    let network := offerAll nodes
    (network.contains id = true ∧
        ∃ found, network.ancestors id = .ok found ∧ network.AreAncestors id found) ∨
      network.contains id = false ∧ network.ancestors id = .error (.unknownNode id) := by
  intro network
  cases isNode : network.contains id with
  | true => exact Or.inl ⟨rfl, (built_offerAll nodes).exists_ancestors isNode⟩
  | false =>
      have missing : network.node? id = none :=
        Option.isNone_iff_eq_none.1 (Option.isSome_eq_false_iff.1 isNode)
      refine Or.inr ⟨rfl, ?_⟩
      unfold ancestors Network.node
      rw [missing]

/-- Two actions that a chance node reads, and a utility that reads all three. -/
def diamond : List (Node Unit) :=
  [.action (.make "a" []), .action (.make "b" []),
    .chance ⟨"c", .ofList ["a", "b"], .categorical .empty⟩,
    .utility ⟨"u", .ofList ["a", "b", "c"], .rule 0⟩]

example : (offerAll diamond).ancestors "u" = .ok (.ofList ["a", "b", "c"]) := by decide +kernel

end DecisionNetwork.Network
