import DecisionNetwork.Inference.Reduction
import DecisionNetwork.Proofs.Network.Order
import DecisionNetwork.Proofs.Network.Reach

/-!
Contract: the order and the inputs in the plan of a smaller network.

Owns:
- `mem_order_iff` and `order_nodup`: a plan lists the variables that are kept once each;
- `inputsOf_ofNetwork`: the inputs of a variable are the earlier ones that are connected to it;
- `ReadsConnected` and `Ordered`, what this means for a plan as a whole.
-/

namespace DecisionNetwork.ReductionPlan

open Network

variable {α : Type} {network : Network α} {retained : List String} {evidence : Assignment}

section Order

theorem mem_order_iff (built : network.Built) {name : String} :
    name ∈ (ofNetwork network retained evidence).order ↔ name ∈ retained := by
  show name ∈ network.sortedIds.filter (SortedSet.ofList retained).toList.contains ++
    (SortedSet.ofList retained).toList.filter (fun id => !network.contains id) ↔ _
  rw [List.mem_append, List.mem_filter, List.mem_filter, mem_sortedIds_iff built,
    List.contains_iff_mem, SortedSet.mem_toList_ofList]
  cases network.contains name <;> simp

theorem order_nodup (built : network.Built) :
    (ofNetwork network retained evidence).order.Nodup := by
  refine List.nodup_append.2 ⟨(sortedIds_nodup built).filter _,
    (SortedMap.keys_nodup (SortedSet.ofList retained)).filter _, ?_⟩
  rintro present inPresent absent inAbsent rfl
  have found := (mem_sortedIds_iff built).1 (List.mem_filter.1 inPresent).1
  have missing := (List.mem_filter.1 inAbsent).2
  rw [found] at missing
  cases missing

end Order

section Inputs

theorem map_fst_connectedInputs (neighbours : Neighbours) (earlier names : List String) :
    (connectedInputs neighbours earlier names).map Prod.fst = names := by
  induction names generalizing earlier with
  | nil => rfl
  | cons head tail inductionHypothesis =>
      rw [connectedInputs, List.map_cons, inductionHypothesis]

theorem mem_connectedInputs (neighbours : Neighbours) (earlier before after : List String)
    (name : String) :
    (name, SortedSet.ofList ((earlier ++ before).filter (connectedIds neighbours name).contains)) ∈
      connectedInputs neighbours earlier (before ++ name :: after) := by
  induction before generalizing earlier with
  | nil =>
      rw [List.append_nil]
      exact List.mem_cons_self
  | cons head tail inductionHypothesis =>
      have inTail := inductionHypothesis (earlier ++ [head])
      rw [List.append_assoc] at inTail
      exact List.mem_cons_of_mem _ inTail

/-- The inputs of a variable are the earlier ones that are connected to it. -/
theorem inputsOf_ofNetwork (built : network.Built) {before after : List String} {name : String}
    (split : (ofNetwork network retained evidence).order = before ++ name :: after) :
    (ofNetwork network retained evidence).inputsOf name =
      .ofList (before.filter (connectedIds network.undirectedEdges name).contains) := by
  have entry := mem_connectedInputs network.undirectedEdges [] before after name
  rw [List.nil_append, ← split] at entry
  have distinct : (connectedInputs network.undirectedEdges []
      (ofNetwork network retained evidence).order).Pairwise fun left right =>
        compare left.1 right.1 ≠ .eq := by
    have keysNodup := @order_nodup _ _ retained evidence built
    rw [← map_fst_connectedInputs network.undirectedEdges []
      (ofNetwork network retained evidence).order] at keysNodup
    have keysDiffer := List.pairwise_map.1 keysNodup
    exact keysDiffer.imp fun differ same => differ (Std.LawfulEqOrd.eq_of_compare same)
  have found := SortedMap.get?_insertMany_of_mem SortedMap.empty distinct entry
  exact congrArg (Option.getD · .empty) found

/-- Whether every variable of a plan has the earlier ones that are connected to it as inputs. -/
def ReadsConnected (network : Network α) (plan : ReductionPlan) : Prop :=
  ∀ before name after, plan.order = before ++ name :: after → ∀ input,
    input ∈ (plan.inputsOf name).toList ↔
      input ∈ before ∧ input ∈ connectedIds network.undirectedEdges name

theorem readsConnected_ofNetwork (built : network.Built) :
    ReadsConnected network (ofNetwork network retained evidence) := by
  intro before name after split input
  rw [inputsOf_ofNetwork built split, SortedSet.mem_toList_ofList, List.mem_filter,
    List.contains_iff_mem]

/-- A plan that lists every variable once, after its inputs. -/
structure Ordered (plan : ReductionPlan) : Prop where
  nodup : plan.order.Nodup
  inputsBefore : ∀ before name after, plan.order = before ++ name :: after →
    (plan.inputsOf name).toList ⊆ before

theorem ordered_ofNetwork (built : network.Built) :
    (ofNetwork network retained evidence).Ordered where
  nodup := order_nodup built
  inputsBefore before name after split input reads :=
    ((readsConnected_ofNetwork built before name after split input).1 reads).1

end Inputs

end DecisionNetwork.ReductionPlan
