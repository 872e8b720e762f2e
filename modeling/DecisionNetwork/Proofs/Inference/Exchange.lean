import DecisionNetwork.Proofs.Inference.Mass
import Mathlib.Algebra.BigOperators.Ring.Finset

/-!
Contract: independence of the parts of a network that no edge joins.

Owns:
- `splice`, the values of one row for some variables with those of another for the rest, and
  `exchange`, which splices a pair of rows both ways;
- `TestsInside` and `TestsOutside`, the tests that see one side alone;
- `Separates`, by which no chance node and its enumerated inputs lie on both sides;
- `mass_exchange`: the rows that pass a test on one side and a test on the other are counted by a
  product, in that the tests of one side may be exchanged.
-/

namespace DecisionNetwork

namespace Assignment

/-- The values of one assignment for the given variables and of another for all others. -/
def splice (names : List String) (inside outside : Assignment) : Assignment :=
  (inside.restrict names).compose (outside.without names)

theorem value?_splice (names : List String) (inside outside : Assignment) (name : String) :
    (splice names inside outside).value? name =
      if name ∈ names then inside.value? name else outside.value? name := by
  rw [splice, value?_compose, value?_without, value?_restrict]
  by_cases listed : name ∈ names <;> simp [listed]

theorem splice_splice (names : List String) (left right : Assignment) :
    splice names (splice names left right) (splice names right left) = left := by
  ext1 name
  rw [value?_splice]
  split
  next listed => rw [value?_splice, if_pos listed]
  next absent => rw [value?_splice, if_neg absent]

/-- Two assignments with their values of the given variables exchanged. -/
def exchange (names : List String) (pair : Assignment × Assignment) : Assignment × Assignment :=
  (splice names pair.1 pair.2, splice names pair.2 pair.1)

theorem exchange_exchange (names : List String) (pair : Assignment × Assignment) :
    exchange names (exchange names pair) = pair :=
  Prod.ext (splice_splice names pair.1 pair.2) (splice_splice names pair.2 pair.1)

/-- Whether a test sees the given variables alone. -/
def TestsInside (names : List String) (test : Assignment → Bool) : Prop :=
  ∀ left right, test (splice names left right) = test left

/-- Whether a test sees none of the given variables. -/
def TestsOutside (names : List String) (test : Assignment → Bool) : Prop :=
  ∀ left right, test (splice names left right) = test right

theorem testsInside_contains {names : List String} {part : Assignment}
    (inside : ∀ name ∈ part.names, name ∈ names) : TestsInside names (·.contains part) :=
  fun _ _ => contains_congr fun name bound => by rw [value?_splice, if_pos (inside name bound)]

theorem testsOutside_contains {names : List String} {part : Assignment}
    (outside : ∀ name ∈ part.names, name ∉ names) : TestsOutside names (·.contains part) :=
  fun _ _ => contains_congr fun name bound => by rw [value?_splice, if_neg (outside name bound)]

theorem TestsInside.and {names : List String} {first second : Assignment → Bool}
    (firstInside : TestsInside names first) (secondInside : TestsInside names second) :
    TestsInside names fun row => first row && second row :=
  fun left right => congrArg₂ (· && ·) (firstInside left right) (secondInside left right)

theorem TestsOutside.and {names : List String} {first second : Assignment → Bool}
    (firstOutside : TestsOutside names first) (secondOutside : TestsOutside names second) :
    TestsOutside names fun row => first row && second row :=
  fun left right => congrArg₂ (· && ·) (firstOutside left right) (secondOutside left right)

end Assignment

open Assignment

theorem Domains.splice_mem_combinations {domains : Domains} (names : List String)
    {left right : Assignment} (leftMember : left ∈ domains.combinations)
    (rightMember : right ∈ domains.combinations) :
    splice names left right ∈ domains.combinations := by
  obtain ⟨leftPicks, leftUnbound⟩ := mem_combinations_iff.1 leftMember
  obtain ⟨rightPicks, rightUnbound⟩ := mem_combinations_iff.1 rightMember
  refine mem_combinations_iff.2 ⟨fun name domain found => ?_, fun name absent => ?_⟩
  · rw [value?_splice]
    split
    · exact leftPicks name domain found
    · exact rightPicks name domain found
  · rw [value?_splice]
    split
    · exact leftUnbound name absent
    · exact rightUnbound name absent

theorem Domains.exchange_mem_combinations {domains : Domains} (names : List String)
    {pair : Assignment × Assignment}
    (member : pair ∈ domains.combinationSet ×ˢ domains.combinationSet) :
    exchange names pair ∈ domains.combinationSet ×ˢ domains.combinationSet := by
  obtain ⟨leftMember, rightMember⟩ := Finset.mem_product.1 member
  exact Finset.mem_product.2 ⟨splice_mem_combinations names leftMember rightMember,
    splice_mem_combinations names rightMember leftMember⟩

/-- Whether every chance node lies on the same side of the given variables as those of its inputs
that are enumerated. -/
def Network.Separates {α : Type} (network : Network α) (names : List String) : Prop :=
  ∀ node ∈ network.chanceNodes, ∀ input ∈ node.inputs.toList,
    (network.domains.get? input).isSome → (node.id ∈ names ↔ input ∈ names)

namespace Inference

variable {network : Network ℚ} {names : List String}

/-- The local probability of a node depends on its value and on those of its inputs. -/
theorem probability_congr {node : ChanceNode ℚ} {left right : Assignment}
    (sameValue : left.value? node.id = right.value? node.id)
    (sameInputs : ∀ input ∈ node.inputs.toList, left.value? input = right.value? input) :
    node.probability left (left.valueOrAbsent node.id) =
      node.probability right (right.valueOrAbsent node.id) := by
  have conditions : left.restrict node.inputs.toList = right.restrict node.inputs.toList := by
    ext1 name
    rw [value?_restrict, value?_restrict]
    split
    next reads => exact sameInputs name reads
    next => rfl
  unfold ChanceNode.probability valueOrAbsent
  rw [conditions, sameValue]

/-- Rows give a node the same local probability if they agree on its value and on those of its
inputs that are enumerated: the other inputs have no value in any row. -/
theorem probability_congr_of_mem {node : ChanceNode ℚ} {left right : Assignment}
    (leftMember : left ∈ network.rows) (rightMember : right ∈ network.rows)
    (sameValue : left.value? node.id = right.value? node.id)
    (sameInputs : ∀ input ∈ node.inputs.toList, (network.domains.get? input).isSome →
      left.value? input = right.value? input) :
    node.probability left (left.valueOrAbsent node.id) =
      node.probability right (right.valueOrAbsent node.id) := by
  refine probability_congr sameValue fun input reads => ?_
  cases listed : network.domains.get? input with
  | some domain => exact sameInputs input reads (Option.isSome_of_eq_some listed)
  | none =>
      rw [(Domains.mem_combinations_iff.1 leftMember).2 input listed,
        (Domains.mem_combinations_iff.1 rightMember).2 input listed]

/-- Exchanging the values of separated variables between two rows keeps the product of their
weights. -/
theorem weight_splice (separates : network.Separates names) {left right : Assignment}
    (leftMember : left ∈ network.rows) (rightMember : right ∈ network.rows) :
    weight network (splice names left right) * weight network (splice names right left) =
      weight network left * weight network right := by
  have spliced {left right : Assignment} (leftMember : left ∈ network.rows)
      (rightMember : right ∈ network.rows) : splice names left right ∈ network.rows :=
    Domains.splice_mem_combinations names leftMember rightMember
  simp only [weight_eq_prod, ← List.prod_map_mul]
  refine congrArg List.prod (List.map_congr_left fun node member => ?_)
  by_cases inside : node.id ∈ names
  · have same {left right : Assignment} (leftMember : left ∈ network.rows)
        (rightMember : right ∈ network.rows) :
        node.probability (splice names left right)
            ((splice names left right).valueOrAbsent node.id) =
          node.probability left (left.valueOrAbsent node.id) := by
      refine probability_congr_of_mem (spliced leftMember rightMember) leftMember ?_
        fun input reads listed => ?_
      · rw [value?_splice, if_pos inside]
      · rw [value?_splice, if_pos ((separates node member input reads listed).1 inside)]
    rw [same leftMember rightMember, same rightMember leftMember]
  · have same {left right : Assignment} (leftMember : left ∈ network.rows)
        (rightMember : right ∈ network.rows) :
        node.probability (splice names left right)
            ((splice names left right).valueOrAbsent node.id) =
          node.probability right (right.valueOrAbsent node.id) := by
      refine probability_congr_of_mem (spliced leftMember rightMember) rightMember ?_
        fun input reads listed => ?_
      · rw [value?_splice, if_neg inside]
      · rw [value?_splice,
          if_neg fun other => inside ((separates node member input reads listed).2 other)]
    rw [same leftMember rightMember, same rightMember leftMember, mul_comm]

/-- Tests of separated variables may be exchanged between two masses. -/
theorem mass_exchange (separates : network.Separates names)
    {inside outside otherInside otherOutside : Assignment → Bool}
    (insideTests : TestsInside names inside) (otherInsideTests : TestsInside names otherInside)
    (outsideTests : TestsOutside names outside)
    (otherOutsideTests : TestsOutside names otherOutside) :
    (mass network fun row => inside row && outside row) *
        (mass network fun row => otherInside row && otherOutside row) =
      (mass network fun row => inside row && otherOutside row) *
        mass network fun row => otherInside row && outside row := by
  simp only [mass_eq_sum, Finset.sum_filter]
  rw [Finset.sum_mul_sum, Finset.sum_mul_sum, ← Finset.sum_product', ← Finset.sum_product']
  refine Finset.sum_nbij' (exchange names) (exchange names)
    (fun pair => Domains.exchange_mem_combinations names)
    (fun pair => Domains.exchange_mem_combinations names)
    (fun pair _ => exchange_exchange names pair) (fun pair _ => exchange_exchange names pair) ?_
  rintro ⟨left, right⟩ member
  obtain ⟨leftMember, rightMember⟩ := Finset.mem_product.1 member
  simp only [exchange, insideTests left right, otherInsideTests right left,
    outsideTests right left, otherOutsideTests left right]
  have weights := weight_splice separates leftMember rightMember
  cases inside left <;> cases outside left <;> cases otherInside right <;>
    cases otherOutside right <;> simp [weights]

end Inference

end DecisionNetwork
