import DecisionNetwork.Proofs.Inference.Plan
import DecisionNetwork.Proofs.Network.Acyclic
import Mathlib.Logic.Function.Iterate

/-!
Contract: the connected parts of a network.

Owns:
- `turn`, one turn of the search along edges, and `exists_iterate_turn`, by which the queue runs
  empty after one turn for everything that is put into it;
- `closure_nodup`: nothing is found twice;
- `Linked`, the edges between the nodes other than utilities and their inputs in either direction,
  and `mem_connectedIds_iff`, by which the search finds what paths along them lead to;
- `connectedIds_are_components`, what is found, and what that makes of the inputs in a plan.

A utility has no edges of its own, but an end of one if it is read by another node.
-/

namespace DecisionNetwork.Network

variable {α : Type}

section Turns

/-- One turn of the search. The first identifier of the queue is left aside if it has been visited,
and else it is visited and its neighbours are put at the end of the queue. -/
def turn (neighbours : Neighbours) : List String × List String → List String × List String
  | (visited, []) => (visited, [])
  | (visited, current :: rest) =>
    if visited.contains current then (visited, rest)
    else (current :: visited, rest ++ neighbours.of current)

/-- How many edges leave the given identifiers. -/
def edgeCount (neighbours : Neighbours) (ids : List String) : Nat :=
  (ids.map fun id => (neighbours.of id).length).sum

variable {neighbours : Neighbours}

theorem turn_of_visited {visited rest : List String} {current : String}
    (seen : visited.contains current = true) :
    turn neighbours (visited, current :: rest) = (visited, rest) := if_pos seen

theorem turn_of_new {visited rest : List String} {current : String}
    (new : ¬ visited.contains current = true) :
    turn neighbours (visited, current :: rest) =
      (current :: visited, rest ++ neighbours.of current) := if_neg new

/-- A turn that visits an identifier comes before the turns for what is in the queue then. -/
private theorem iterate_turn_visit {visited rest found : List String} {current : String}
    (new : ¬ visited.contains current = true) {result : List String × List String}
    (later : (turn neighbours)^[(rest ++ neighbours.of current).length + edgeCount neighbours found]
      (current :: visited, rest ++ neighbours.of current) = result) :
    (turn neighbours)^[(current :: rest).length + edgeCount neighbours (found ++ [current])]
      (visited, current :: rest) = result := by
  have count : (current :: rest).length + edgeCount neighbours (found ++ [current]) =
      ((rest ++ neighbours.of current).length + edgeCount neighbours found) + 1 := by
    simp only [edgeCount, List.map_append, List.sum_append, List.map_singleton,
      List.sum_singleton, List.length_append, List.length_cons]
    omega
  rw [count, Function.iterate_succ_apply, turn_of_new new, later]

/-- The queue runs empty: there is a turn for everything in it and for every edge that leaves an
identifier that is visited. -/
theorem exists_iterate_turn (visited queue : List String) :
    ∃ found, closure neighbours visited queue = found ++ visited ∧
      (turn neighbours)^[queue.length + edgeCount neighbours found] (visited, queue) =
        (closure neighbours visited queue, []) := by
  -- `found` is what the turns from here on visit, the last one first
  fun_induction closure neighbours visited queue with
  | case1 visited => exact ⟨[], rfl, rfl⟩
  | case2 visited current rest seen inductionHypothesis =>
      obtain ⟨found, isClosure, turns⟩ := inductionHypothesis
      refine ⟨found, isClosure, ?_⟩
      rw [List.length_cons, Nat.add_right_comm, Function.iterate_succ_apply, turn_of_visited seen]
      exact turns
  | case3 visited current rest new listed inductionHypothesis =>
      obtain ⟨found, isClosure, turns⟩ := inductionHypothesis
      refine ⟨found ++ [current], ?_, iterate_turn_visit new turns⟩
      rw [isClosure, List.append_assoc, List.singleton_append]
  | case4 visited current rest new unlisted inductionHypothesis =>
      have noEdges := Neighbours.of_eq_nil unlisted
      obtain ⟨found, isClosure, turns⟩ := inductionHypothesis
      refine ⟨found ++ [current], ?_, iterate_turn_visit new ?_⟩
      · rw [isClosure, List.append_assoc, List.singleton_append]
      · rw [noEdges, List.append_nil]
        exact turns

/-- Nothing is found twice. -/
theorem closure_nodup {visited queue : List String} (distinct : visited.Nodup) :
    (closure neighbours visited queue).Nodup := by
  fun_induction closure neighbours visited queue with
  | case1 visited => exact distinct
  | case2 visited current rest seen inductionHypothesis => exact inductionHypothesis distinct
  | case3 visited current rest new listed inductionHypothesis =>
      exact inductionHypothesis (List.nodup_cons.2 ⟨by simpa using new, distinct⟩)
  | case4 visited current rest new unlisted inductionHypothesis =>
      exact inductionHypothesis (List.nodup_cons.2 ⟨by simpa using new, distinct⟩)

/-- The search from an identifier ends after a turn for it and one for every edge that it finds. -/
theorem iterate_turn_connectedIds (neighbours : Neighbours) (id : String) :
    (turn neighbours)^[1 + edgeCount neighbours (connectedIds neighbours id)] ([], [id]) =
      (connectedIds neighbours id, []) := by
  obtain ⟨found, isClosure, turns⟩ := @exists_iterate_turn neighbours [] [id]
  rw [List.append_nil] at isClosure
  unfold connectedIds
  rwa [← isClosure] at turns

end Turns

section Linked

variable {network : Network α}

/-- Whether a node other than a utility reads an identifier. -/
def VariableReads (network : Network α) (id input : String) : Prop :=
  ∃ node, network.node? id = some node ∧ node.kind ≠ .utility ∧ input ∈ node.inputs.toList

/-- Whether there is an edge between two identifiers, in either direction. -/
def Linked (network : Network α) (left right : String) : Prop :=
  network.VariableReads left right ∨ network.VariableReads right left

instance : Std.Symm network.Linked := ⟨fun _ _ => Or.symm⟩

theorem joins_undirectedEdges_iff_linked (built : network.Built) {left right : String} :
    network.undirectedEdges.Joins left right ↔ network.Linked left right := by
  rw [joins_undirectedEdges_iff]
  constructor
  · rintro ⟨node, member, kind, input, reads, ⟨rfl, rfl⟩ | ⟨rfl, rfl⟩⟩
    · obtain ⟨id, found⟩ := mem_nodeList_iff.1 member
      rw [built.node_id found]
      exact Or.inr ⟨node, found, kind, reads⟩
    · obtain ⟨id, found⟩ := mem_nodeList_iff.1 member
      rw [built.node_id found]
      exact Or.inl ⟨node, found, kind, reads⟩
  · rintro (⟨node, found, kind, reads⟩ | ⟨node, found, kind, reads⟩)
    · exact ⟨node, mem_nodeList_iff.2 ⟨_, found⟩, kind, right, reads,
        Or.inr ⟨(built.node_id found).symm, rfl⟩⟩
    · exact ⟨node, mem_nodeList_iff.2 ⟨_, found⟩, kind, left, reads,
        Or.inl ⟨rfl, (built.node_id found).symm⟩⟩

/-- The search finds what paths lead to, whichever way their edges go. -/
theorem mem_connectedIds_iff (built : network.Built) {id other : String} :
    other ∈ connectedIds network.undirectedEdges id ↔
      Relation.ReflTransGen network.Linked id other := by
  have sameEdges : network.undirectedEdges.Joins = network.Linked :=
    funext fun _ => funext fun _ => propext (joins_undirectedEdges_iff_linked built)
  unfold connectedIds
  rw [mem_closure_iff, sameEdges]
  simp

/-- Lying in the same connected part is an equivalence. -/
theorem equivalence_connectedIds (built : network.Built) :
    Equivalence fun left right => right ∈ connectedIds network.undirectedEdges left where
  refl := self_mem_connectedIds network.undirectedEdges
  symm found := by
    rw [mem_connectedIds_iff built] at found ⊢
    exact Std.Symm.symm _ _ found
  trans first second := by
    rw [mem_connectedIds_iff built] at first second ⊢
    exact first.trans second

end Linked

/-- Whatever calls were made to add nodes, the search from an identifier ends and finds, once each,
what is joined to it by a path of edges in either direction, which is an equivalence. In a plan for
some variables the inputs of each are the earlier ones in the same connected part. -/
theorem connectedIds_are_components (nodes : List (Node α)) :
    let network := offerAll nodes
    let part := connectedIds network.undirectedEdges
    (∀ id,
      (turn network.undirectedEdges)^[1 + edgeCount network.undirectedEdges (part id)] ([], [id]) =
        (part id, []) ∧
      (part id).Nodup ∧
      ∀ other, other ∈ part id ↔ Relation.ReflTransGen network.Linked id other) ∧
    (Equivalence fun left right => right ∈ part left) ∧
    ∀ retained evidence,
      let plan := ReductionPlan.ofNetwork network retained evidence
      plan.order.Nodup ∧ (∀ name, name ∈ plan.order ↔ name ∈ retained) ∧
      ∀ before name after, plan.order = before ++ name :: after → ∀ input,
        input ∈ (plan.inputsOf name).toList ↔ input ∈ before ∧ input ∈ part name := by
  have built := built_offerAll nodes
  refine ⟨fun id => ⟨?_, ?_, ?_⟩, ?_, fun retained evidence => ⟨?_, ?_, ?_⟩⟩
  · exact iterate_turn_connectedIds _ id
  · exact closure_nodup List.nodup_nil
  · exact fun other => mem_connectedIds_iff built
  · exact equivalence_connectedIds built
  · exact ReductionPlan.order_nodup built
  · exact fun name => ReductionPlan.mem_order_iff built
  · exact ReductionPlan.readsConnected_ofNetwork built

end DecisionNetwork.Network
