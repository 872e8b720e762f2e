import DecisionNetwork.Network.Reach
import DecisionNetwork.Proofs.Network.Built
import Mathlib.Logic.Relation

/-!
Contract: what the search along edges finds.

Owns:
- `mem_closure_iff`, the search as reachability from the queue;
- `joins_undirectedEdges_iff`, the edges between the nodes other than utilities and their inputs;
- `mem_connectedIds_iff_of_input`, by which a node and its inputs lie in the same connected part.
-/

namespace DecisionNetwork.Network

variable {α : Type} {neighbours : Neighbours}

/-- Whether an edge leads from one identifier to another. -/
def Neighbours.Joins (neighbours : Neighbours) (source target : String) : Prop :=
  target ∈ neighbours.of source

section Closure

/-- No edges leave an identifier that is not listed. -/
theorem Neighbours.of_eq_nil {id : String} (unlisted : ¬ neighbours.keys.contains id = true) :
    neighbours.of id = [] := by
  have absent : id ∉ neighbours.keys := by simpa using unlisted
  rw [← SortedMap.get?_eq_none_iff] at absent
  rw [of, absent]

theorem mem_closure_of_mem {visited queue : List String} {id : String}
    (member : id ∈ visited ∨ id ∈ queue) : id ∈ closure neighbours visited queue := by
  fun_induction closure neighbours visited queue with
  | case1 visited => simpa using member
  | case2 visited current rest seen inductionHypothesis =>
      apply inductionHypothesis
      rcases member with inVisited | inQueue
      · exact Or.inl inVisited
      · rcases List.mem_cons.1 inQueue with rfl | inRest
        · exact Or.inl (by simpa using seen)
        · exact Or.inr inRest
  | case3 visited current rest new listed inductionHypothesis =>
      apply inductionHypothesis
      rcases member with inVisited | inQueue
      · exact Or.inl (List.mem_cons_of_mem current inVisited)
      · rcases List.mem_cons.1 inQueue with rfl | inRest
        · exact Or.inl List.mem_cons_self
        · exact Or.inr (List.mem_append_left _ inRest)
  | case4 visited current rest new unlisted inductionHypothesis =>
      apply inductionHypothesis
      rcases member with inVisited | inQueue
      · exact Or.inl (List.mem_cons_of_mem current inVisited)
      · rcases List.mem_cons.1 inQueue with rfl | inRest
        · exact Or.inl List.mem_cons_self
        · exact Or.inr inRest

/-- Edges from what has been visited lead to what has been visited or waits. -/
def Explored (neighbours : Neighbours) (visited queue : List String) : Prop :=
  ∀ source ∈ visited, ∀ target, neighbours.Joins source target →
    target ∈ visited ∨ target ∈ queue

private theorem Explored.skip {visited rest : List String} {current : String}
    (explored : Explored neighbours visited (current :: rest)) (seen : current ∈ visited) :
    Explored neighbours visited rest := by
  intro source inVisited target joins
  rcases explored source inVisited target joins with inVisited | inQueue
  · exact Or.inl inVisited
  · rcases List.mem_cons.1 inQueue with rfl | inRest
    · exact Or.inl seen
    · exact Or.inr inRest

private theorem Explored.visit {visited rest next : List String} {current : String}
    (explored : Explored neighbours visited (current :: rest))
    (expands : ∀ target, neighbours.Joins current target → target ∈ next)
    (keeps : rest ⊆ next) : Explored neighbours (current :: visited) next := by
  intro source inVisited target joins
  rcases List.mem_cons.1 inVisited with rfl | inVisited
  · exact Or.inr (expands target joins)
  · rcases explored source inVisited target joins with inVisited | inQueue
    · exact Or.inl (List.mem_cons_of_mem current inVisited)
    · rcases List.mem_cons.1 inQueue with rfl | inRest
      · exact Or.inl List.mem_cons_self
      · exact Or.inr (keeps inRest)

/-- Edges do not lead out of what a search has found. -/
theorem closure_closed {visited queue : List String}
    (explored : Explored neighbours visited queue) {source target : String}
    (found : source ∈ closure neighbours visited queue) (joins : neighbours.Joins source target) :
    target ∈ closure neighbours visited queue := by
  fun_induction closure neighbours visited queue with
  | case1 visited =>
      rcases explored source found target joins with inVisited | inQueue
      · exact inVisited
      · cases inQueue
  | case2 visited current rest seen inductionHypothesis =>
      exact inductionHypothesis (explored.skip (by simpa using seen)) found
  | case3 visited current rest new listed inductionHypothesis =>
      refine inductionHypothesis (explored.visit (fun target joins => ?_) ?_) found
      · exact List.mem_append_right rest joins
      · exact List.subset_append_left rest _
  | case4 visited current rest new unlisted inductionHypothesis =>
      refine inductionHypothesis (explored.visit (fun target joins => ?_) ?_) found
      · rw [Neighbours.Joins, Neighbours.of_eq_nil unlisted] at joins
        cases joins
      · exact List.Subset.refl rest

/-- Whatever is found was visited before or is reached from the queue. -/
theorem reaches_of_mem_closure {visited queue : List String} {id : String}
    (found : id ∈ closure neighbours visited queue) :
    id ∈ visited ∨ ∃ start ∈ queue, Relation.ReflTransGen neighbours.Joins start id := by
  fun_induction closure neighbours visited queue with
  | case1 visited => exact Or.inl found
  | case2 visited current rest seen inductionHypothesis =>
      rcases inductionHypothesis found with inVisited | ⟨start, inRest, reaches⟩
      · exact Or.inl inVisited
      · exact Or.inr ⟨start, List.mem_cons_of_mem current inRest, reaches⟩
  | case3 visited current rest new listed inductionHypothesis =>
      rcases inductionHypothesis found with inVisited | ⟨start, inNext, reaches⟩
      · rcases List.mem_cons.1 inVisited with rfl | inVisited
        · exact Or.inr ⟨id, List.mem_cons_self, .refl⟩
        · exact Or.inl inVisited
      · rcases List.mem_append.1 inNext with inRest | joins
        · exact Or.inr ⟨start, List.mem_cons_of_mem current inRest, reaches⟩
        · exact Or.inr ⟨current, List.mem_cons_self, .head joins reaches⟩
  | case4 visited current rest new unlisted inductionHypothesis =>
      rcases inductionHypothesis found with inVisited | ⟨start, inRest, reaches⟩
      · rcases List.mem_cons.1 inVisited with rfl | inVisited
        · exact Or.inr ⟨id, List.mem_cons_self, .refl⟩
        · exact Or.inl inVisited
      · exact Or.inr ⟨start, List.mem_cons_of_mem current inRest, reaches⟩

/-- A search finds what can be reached from its queue. -/
theorem mem_closure_iff {queue : List String} {id : String} :
    id ∈ closure neighbours [] queue ↔
      ∃ start ∈ queue, Relation.ReflTransGen neighbours.Joins start id := by
  constructor
  · intro found
    rcases reaches_of_mem_closure found with inVisited | reached
    · cases inVisited
    · exact reached
  · rintro ⟨start, inQueue, reaches⟩
    have explored : Explored neighbours [] queue := fun _ inVisited => by cases inVisited
    induction reaches with
    | refl => exact mem_closure_of_mem (Or.inr inQueue)
    | tail _ joins found => exact closure_closed explored found joins

end Closure

section Edges

theorem Neighbours.of_eq (neighbours : Neighbours) (id : String) :
    neighbours.of id = SortedSet.toList ((neighbours.get? id).getD .empty) := by
  unfold of
  cases neighbours.get? id <;> rfl

theorem Neighbours.joins_addId_iff (neighbours : Neighbours) (id source target : String) :
    (neighbours.addId id).Joins source target ↔ neighbours.Joins source target := by
  unfold Joins addId
  rw [of_eq, of_eq, SortedMap.get?_insertIfNew]
  cases neighbours.get? source with
  | some next => simp
  | none => split <;> rfl

theorem Neighbours.joins_addEdge_iff (neighbours : Neighbours)
    (first second source target : String) :
    (neighbours.addEdge first second).Joins source target ↔
      source = first ∧ target = second ∨ neighbours.Joins source target := by
  unfold Joins addEdge
  rw [of_eq, of_eq]
  by_cases same : source = first
  · subst same
    rw [SortedMap.get?_insert_self, Option.getD_some, SortedSet.mem_toList_insert]
    simp
  · rw [SortedMap.get?_insert_of_ne _ _ same]
    simp [same]

/-- Whether one of two identifiers is a node and the other one of its inputs. -/
def Node.Links (node : Node α) (source target : String) : Prop :=
  ∃ input ∈ node.inputs.toList,
    source = input ∧ target = node.id ∨ source = node.id ∧ target = input

private theorem joins_foldl_inputs_iff (id : String) (inputs : List String)
    (neighbours : Neighbours) (source target : String) :
    (inputs.foldl (fun neighbours input => (neighbours.addEdge input id).addEdge id input)
        neighbours).Joins source target ↔
      (∃ input ∈ inputs, source = input ∧ target = id ∨ source = id ∧ target = input) ∨
        neighbours.Joins source target := by
  induction inputs generalizing neighbours with
  | nil => simp
  | cons head tail inductionHypothesis =>
      rw [List.foldl_cons, inductionHypothesis, Neighbours.joins_addEdge_iff,
        Neighbours.joins_addEdge_iff, List.exists_mem_cons_iff]
      exact Iff.of_eq (by ac_rfl)

private theorem joins_foldl_nodes_iff (nodes : List (Node α)) (neighbours : Neighbours)
    (source target : String) :
    (nodes.foldl
        (fun neighbours node =>
          node.inputs.toList.foldl
            (fun neighbours input => (neighbours.addEdge input node.id).addEdge node.id input)
            (neighbours.addId node.id))
        neighbours).Joins source target ↔
      (∃ node ∈ nodes, Node.Links node source target) ∨ neighbours.Joins source target := by
  induction nodes generalizing neighbours with
  | nil => simp
  | cons head tail inductionHypothesis =>
      rw [List.foldl_cons, inductionHypothesis, joins_foldl_inputs_iff, Neighbours.joins_addId_iff,
        List.exists_mem_cons_iff]
      exact Iff.of_eq (by unfold Node.Links; ac_rfl)

/-- The undirected edges run between the nodes other than utilities and their inputs. -/
theorem joins_undirectedEdges_iff (network : Network α) (source target : String) :
    network.undirectedEdges.Joins source target ↔
      ∃ node ∈ network.nodeList, node.kind ≠ .utility ∧ Node.Links node source target := by
  unfold undirectedEdges
  rw [joins_foldl_nodes_iff]
  constructor
  · rintro (⟨node, member, links⟩ | joins)
    · obtain ⟨listed, kind⟩ := List.mem_filter.1 member
      exact ⟨node, listed, of_decide_eq_true kind, links⟩
    · cases joins
  · rintro ⟨node, listed, kind, links⟩
    exact Or.inl ⟨node, List.mem_filter.2 ⟨listed, decide_eq_true kind⟩, links⟩

end Edges

section Connected

theorem self_mem_connectedIds (neighbours : Neighbours) (id : String) :
    id ∈ connectedIds neighbours id :=
  mem_closure_of_mem (Or.inr (List.mem_singleton_self id))

theorem mem_connectedIds_of_joins {id source target : String}
    (found : source ∈ connectedIds neighbours id) (joins : neighbours.Joins source target) :
    target ∈ connectedIds neighbours id :=
  closure_closed (fun _ inVisited => by cases inVisited) found joins

/-- A chance node and its inputs lie in the same connected part. -/
theorem mem_connectedIds_iff_of_input {network : Network α} {node : ChanceNode α}
    (listed : node ∈ network.chanceNodes) {input : String} (reads : input ∈ node.inputs.toList)
    (id : String) :
    node.id ∈ connectedIds network.undirectedEdges id ↔
      input ∈ connectedIds network.undirectedEdges id := by
  obtain ⟨stored, member, isChance⟩ := List.mem_filterMap.1 listed
  have same : stored = .chance node := by
    cases stored with
    | chance other => exact congrArg Node.chance (Option.some.inj isChance)
    | action => cases isChance
    | utility => cases isChance
  subst same
  have kind : (Node.chance node).kind ≠ .utility := fun same => by cases same
  constructor
  · intro found
    refine mem_connectedIds_of_joins found ((joins_undirectedEdges_iff network _ _).2 ?_)
    exact ⟨_, member, kind, input, reads, Or.inr ⟨rfl, rfl⟩⟩
  · intro found
    refine mem_connectedIds_of_joins found ((joins_undirectedEdges_iff network _ _).2 ?_)
    exact ⟨_, member, kind, input, reads, Or.inl ⟨rfl, rfl⟩⟩

end Connected

end DecisionNetwork.Network
