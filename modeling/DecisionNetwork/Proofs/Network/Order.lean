import DecisionNetwork.Proofs.Network.Countdown

/-!
Contract: the order of the nodes with inputs first.

Owns:
- `IsOrder`, what an order of the nodes is;
- `IsOrder.cons`, `IsOrder.isReady_head` and `IsOrder.tail`: an order is a ready node and an order
  of the others;
- `Greedy.isOrder`: taking ready nodes takes all of them, since the last ones left would be ready;
- `isOrder_sortedIds`, with `mem_sortedIds_iff` and `sortedIds_nodup`: every node is listed once;
- `Greedy.isLE` and `sortedIds_least`: no other order comes before it in the dictionary.

Two orders that take the same nodes first differ next in two nodes that are ready, and the least of
them was taken.
-/

namespace DecisionNetwork.Network

variable {α : Type}

/-- Orders of the nodes that have not been taken: each is listed once, after all its inputs that
have not been taken either. -/
structure IsOrder (network : Network α) (taken order : List String) : Prop where
  mem_iff : ∀ id, id ∈ order ↔ network.contains id = true ∧ id ∉ taken
  nodup : order.Nodup
  inputsFirst : ∀ before id after, order = before ++ id :: after →
    ∀ input, network.Reads id input → input ∈ before ∨ input ∈ taken

section Complete

variable {network : Network α} {taken order : List String}

/-- Where no node is ready all have been taken: one of least rank among the others would be. -/
theorem mem_of_none_ready (built : network.Built) (noneReady : ∀ id, ¬ network.IsReady taken id)
    {id : String} (isNode : network.contains id = true) : id ∈ taken := by
  obtain ⟨rank, decreases⟩ := built.exists_rank
  induction place : rank id using Nat.strongRecOn generalizing id with
  | ind place inductionHypothesis =>
      by_contra untaken
      refine noneReady id ⟨isNode, untaken, fun input reads => ?_⟩
      obtain ⟨node, found, listed⟩ := reads
      have below := decreases id node found input listed
      exact inductionHypothesis _ (place ▸ below) (built.contains_input found listed) rfl

/-- A ready node may come first. -/
theorem IsOrder.cons {first : String} {rest : List String} (ready : network.IsReady taken first)
    (isOrder : network.IsOrder (first :: taken) rest) :
    network.IsOrder taken (first :: rest) := by
  have apart : first ∉ rest := fun member => ((isOrder.mem_iff first).1 member).2 List.mem_cons_self
  refine ⟨fun id => ?_, List.nodup_cons.2 ⟨apart, isOrder.nodup⟩, fun before id after split => ?_⟩
  · rw [List.mem_cons, isOrder.mem_iff, List.mem_cons, not_or]
    constructor
    · rintro (rfl | ⟨isNode, _, untaken⟩)
      · exact ⟨ready.isNode, ready.untaken⟩
      · exact ⟨isNode, untaken⟩
    · rintro ⟨isNode, untaken⟩
      exact or_iff_not_imp_left.2 fun differ => ⟨isNode, differ, untaken⟩
  · intro input reads
    cases before with
    | nil =>
        obtain ⟨rfl, -⟩ := List.cons.inj split
        exact Or.inr (ready.supplied input reads)
    | cons head before =>
        obtain ⟨rfl, restSplit⟩ := List.cons.inj split
        rcases isOrder.inputsFirst before id after restSplit input reads with earlier | inTaken
        · exact Or.inl (List.mem_cons_of_mem _ earlier)
        · rcases List.mem_cons.1 inTaken with rfl | inTaken
          · exact Or.inl List.mem_cons_self
          · exact Or.inr inTaken

/-- Taking ready nodes as long as there are any gives an order of all nodes. -/
theorem Greedy.isOrder (built : network.Built) (greedy : network.Greedy taken order) :
    network.IsOrder taken order := by
  induction greedy with
  | done noneReady =>
      refine ⟨fun id => ?_, List.nodup_nil, fun before id after split => by simp at split⟩
      simpa using mem_of_none_ready built noneReady
  | take ready _ _ inductionHypothesis => exact inductionHypothesis.cons ready

theorem isOrder_sortedIds (built : network.Built) : network.IsOrder [] network.sortedIds :=
  (greedy_sortedIds built).isOrder built

theorem mem_sortedIds_iff (built : network.Built) {id : String} :
    id ∈ network.sortedIds ↔ network.contains id = true := by
  simpa using (isOrder_sortedIds built).mem_iff id

theorem sortedIds_nodup (built : network.Built) : network.sortedIds.Nodup :=
  (isOrder_sortedIds built).nodup

end Complete

section Least

variable {network : Network α} {taken : List String}

/-- The first node of an order is ready. -/
theorem IsOrder.isReady_head {first : String} {rest : List String}
    (isOrder : network.IsOrder taken (first :: rest)) : network.IsReady taken first := by
  obtain ⟨isNode, untaken⟩ := (isOrder.mem_iff first).1 List.mem_cons_self
  refine ⟨isNode, untaken, fun input reads => ?_⟩
  rcases isOrder.inputsFirst [] first rest rfl input reads with earlier | inTaken
  · cases earlier
  · exact inTaken

/-- What is left of an order once its first node has been taken. -/
theorem IsOrder.tail {first : String} {rest : List String}
    (isOrder : network.IsOrder taken (first :: rest)) :
    network.IsOrder (first :: taken) rest := by
  obtain ⟨apart, restDistinct⟩ := List.nodup_cons.1 isOrder.nodup
  refine ⟨fun id => ?_, restDistinct, fun before id after split input reads => ?_⟩
  · rw [List.mem_cons, not_or]
    constructor
    · intro member
      obtain ⟨isNode, untaken⟩ := (isOrder.mem_iff id).1 (List.mem_cons_of_mem first member)
      exact ⟨isNode, fun same => apart (same ▸ member), untaken⟩
    · rintro ⟨isNode, differ, untaken⟩
      exact (List.mem_cons.1 ((isOrder.mem_iff id).2 ⟨isNode, untaken⟩)).resolve_left differ
  · have wholeSplit : first :: rest = (first :: before) ++ id :: after := by
      rw [split, List.cons_append]
    rcases isOrder.inputsFirst (first :: before) id after wholeSplit input reads with
      earlier | inTaken
    · rcases List.mem_cons.1 earlier with rfl | earlier
      · exact Or.inr List.mem_cons_self
      · exact Or.inl earlier
    · exact Or.inr (List.mem_cons_of_mem first inTaken)

/-- Taking the least ready node each time gives the least order. -/
theorem Greedy.isLE {order other : List String} (greedy : network.Greedy taken order)
    (isOrder : network.IsOrder taken other) : (compare order other).isLE := by
  induction greedy generalizing other with
  | done noneReady =>
      cases other with
      | nil => rfl
      | cons first rest => exact absurd isOrder.isReady_head (noneReady first)
  | @take taken rest id ready least _ inductionHypothesis =>
      cases other with
      | nil =>
          have member := (isOrder.mem_iff id).2 ⟨ready.isNode, ready.untaken⟩
          cases member
      | cons first others =>
          have below := least first isOrder.isReady_head
          rw [List.compare_cons_cons]
          cases ordered : compare id first with
          | lt => rfl
          | eq =>
              cases Std.LawfulEqOrd.eq_of_compare ordered
              exact inductionHypothesis isOrder.tail
          | gt =>
              rw [ordered] at below
              cases below

/-- Whatever calls were made to add nodes, the order lists every node once and after all its
inputs, and of all orders that do so it is the first in the dictionary. -/
theorem sortedIds_least (nodes : List (Node α)) :
    let network := offerAll nodes
    network.IsOrder [] network.sortedIds ∧
      ∀ order, network.IsOrder [] order → (compare network.sortedIds order).isLE := by
  intro network
  have built : network.Built := built_offerAll nodes
  exact ⟨isOrder_sortedIds built, fun order isOrder => (greedy_sortedIds built).isLE isOrder⟩

/-- Two actions, and a utility that reads the first of them. -/
def forked : List (Node Unit) :=
  [.action (.make "b" []), .action (.make "c" []), .utility ⟨"a", .ofList ["b"], .rule 0⟩]

theorem sortedIds_least_forked :
    (offerAll forked).IsOrder [] ["b", "c", "a"] ∧
      (compare (offerAll forked).sortedIds ["b", "c", "a"]).isLE := by
  have built : (offerAll forked).Built := built_offerAll forked
  have isOrder : (offerAll forked).IsOrder [] ["b", "c", "a"] := by
    refine ⟨fun id => ?_, by decide, fun before id after split input reads => ?_⟩
    · have listed : (offerAll forked).ids = ["a", "b", "c"] := by decide
      have isNode : (offerAll forked).contains id = true ↔ id ∈ (offerAll forked).ids :=
        SortedMap.mem_keys_iff.symm
      rw [isNode, listed]
      simp [or_comm, or_left_comm]
    · obtain ⟨node, found, listed⟩ := reads
      have inNetwork := mem_nodeList_iff.2 ⟨id, found⟩
      have nodes : (offerAll forked).nodeList =
          [.utility ⟨"a", .ofList ["b"], .rule 0⟩, .action (.make "b" []),
            .action (.make "c" [])] := rfl
      rw [nodes, List.mem_cons, List.mem_pair] at inNetwork
      cases built.node_id found
      rcases inNetwork with rfl | rfl | rfl
      · cases List.mem_singleton.1 (SortedSet.mem_toList_ofList.1 listed)
        cases before with
        | nil => exact absurd (List.cons.inj split).1 (by decide)
        | cons first before =>
            obtain ⟨rfl, -⟩ := List.cons.inj split
            exact Or.inl List.mem_cons_self
      · cases listed
      · cases listed
  exact ⟨isOrder, (sortedIds_least forked).2 _ isOrder⟩

example : (offerAll forked).sortedIds = ["b", "a", "c"] := by decide +kernel

end Least

end DecisionNetwork.Network
