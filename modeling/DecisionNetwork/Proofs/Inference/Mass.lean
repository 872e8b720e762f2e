import DecisionNetwork.Inference.Joint
import DecisionNetwork.Proofs.Assignment.Combinations
import DecisionNetwork.Proofs.Network.Built
import DecisionNetwork.Proofs.Number.Exact
import Mathlib.Algebra.BigOperators.Group.Finset.Basic
import Mathlib.Algebra.Order.BigOperators.Group.Finset
import Mathlib.Algebra.Order.BigOperators.GroupWithZero.List

/-!
Contract: the probability mass of the joint rows that pass a test, over exact numbers.

Owns:
- `Network.rows` and `mass`, the joint rows and their mass;
- `Network.Nonnegative`, by which no row has a negative weight;
- `sum_mass_parts`, which splits the mass of a test by the values of some of the variables.
-/

namespace DecisionNetwork

/-- The combinations of domains as a finite set. -/
def Domains.combinationSet (domains : Domains) : Finset Assignment :=
  ⟨domains.combinations, domains.combinations_nodup⟩

theorem Domains.sum_filter_combinations (domains : Domains) (test : Assignment → Bool)
    (weight : Assignment → ℚ) :
    ((domains.combinations.filter test).map weight).sum =
      ∑ row ∈ domains.combinationSet with test row = true, weight row := by
  show _ = (Multiset.map weight (Multiset.filter _ (domains.combinations : Multiset _))).sum
  rw [Multiset.filter_coe, Multiset.map_coe, Multiset.sum_coe]
  simp

namespace Network

section Domain

variable {α : Type} {network : Network α}

/-- The domains of the chance variables. -/
def domains (network : Network α) : Domains := Inference.jointDomains network false

/-- The combinations of the chance variables. -/
def rows (network : Network α) : List Assignment := network.domains.combinations

/-- The values of a node, and no values where there is none. -/
def valuesOf (network : Network α) (id : String) : List Value :=
  ((network.node? id).map Node.values).getD []

theorem valuesOf_eq {node : Node α} {id : String} (found : network.node? id = some node) :
    network.valuesOf id = node.values := by
  rw [valuesOf, found, Option.map_some, Option.getD_some]

theorem Built.get?_domains (built : Built network) (name : String) :
    network.domains.get? name = (network.chanceNode? name).map ChanceNode.values := by
  have valuesOf_chance {id : String} {node : ChanceNode α}
      (found : network.chanceNode? id = some node) : network.valuesOf id = node.values :=
    valuesOf_eq (chanceNode?_eq_some_iff.1 found)
  have entries : network.chanceNodes.map (fun node => (node.id, node.values)) =
      (network.chanceNodes.map ChanceNode.id).map fun id => (id, network.valuesOf id) := by
    rw [List.map_map]
    refine List.map_congr_left fun node member => ?_
    rw [Function.comp_apply, valuesOf_chance (built.mem_chanceNodes_iff.1 member)]
  show (SortedMap.empty.insertMany _).get? name = _
  rw [entries, SortedMap.get?_insertMany_map]
  cases found : network.chanceNode? name with
  | none =>
      rw [if_neg]
      · rfl
      · intro member
        obtain ⟨node, listed, same⟩ := List.mem_map.1 member
        rw [← same, built.mem_chanceNodes_iff.1 listed] at found
        cases found
  | some node =>
      have sameId := built.chanceNode_id found
      have listed : node ∈ network.chanceNodes := built.mem_chanceNodes_iff.2 (sameId ▸ found)
      rw [if_pos (List.mem_map.2 ⟨node, listed, sameId⟩), valuesOf_chance found]
      rfl

end Domain

end Network

/-- A local distribution without negative probabilities. -/
def Distribution.Nonnegative : Distribution ℚ → Prop
  | .categorical table => ∀ probability ∈ table.rows.values, 0 ≤ probability
  | .conditional tables =>
    ∀ table ∈ tables.tables.values, ∀ probability ∈ table.rows.values, 0 ≤ probability

/-- A network without negative probabilities. -/
def Network.Nonnegative (network : Network ℚ) : Prop :=
  ∀ node ∈ network.chanceNodes, node.distribution.Nonnegative

instance (distribution : Distribution ℚ) : Decidable distribution.Nonnegative :=
  match distribution with
  | .categorical table => inferInstanceAs (Decidable (∀ _ ∈ table.rows.values, _))
  | .conditional tables => inferInstanceAs (Decidable (∀ _ ∈ tables.tables.values, ∀ _ ∈ _, _))

instance (network : Network ℚ) : Decidable network.Nonnegative :=
  inferInstanceAs (Decidable (∀ _ ∈ network.chanceNodes, _))

theorem CategoricalTable.probability_nonneg {table : CategoricalTable ℚ}
    (nonnegative : ∀ probability ∈ table.rows.values, 0 ≤ probability) (head : Assignment) :
    0 ≤ table.probability head := by
  unfold CategoricalTable.probability
  cases found : table.rows.get? head with
  | none => exact le_rfl
  | some probability =>
      obtain ⟨stored, listed, _⟩ := SortedMap.get?_eq_some_iff_exists.1 found
      exact nonnegative probability (List.mem_map.2 ⟨_, listed, rfl⟩)

theorem Distribution.Nonnegative.probability_nonneg {distribution : Distribution ℚ}
    (nonnegative : distribution.Nonnegative) (condition head : Assignment) :
    0 ≤ distribution.probability condition head := by
  cases distribution with
  | categorical table => exact CategoricalTable.probability_nonneg nonnegative head
  | conditional tables =>
      show 0 ≤ tables.probability condition head
      unfold ConditionalTable.probability ConditionalTable.table?
      cases found : tables.tables.get? condition with
      | none => exact le_rfl
      | some table =>
          obtain ⟨stored, listed, _⟩ := SortedMap.get?_eq_some_iff_exists.1 found
          have inValues : table ∈ tables.tables.values := List.mem_map.2 ⟨_, listed, rfl⟩
          exact CategoricalTable.probability_nonneg (nonnegative table inValues) head

namespace Inference

open Network

variable {network : Network ℚ}

/-- The joint probability of the chance variables. -/
def weight (network : Network ℚ) (row : Assignment) : ℚ := jointProbability network false row

/-- The probability mass of the rows that pass a test. -/
def mass (network : Network ℚ) (test : Assignment → Bool) : ℚ :=
  ((network.rows.filter test).map (weight network)).sum

theorem weight_eq_prod (network : Network ℚ) (row : Assignment) :
    weight network row =
      (network.chanceNodes.map fun node =>
        node.probability row (row.valueOrAbsent node.id)).prod :=
  Scalar.productByLogs_eq_prod _

theorem weight_nonneg (nonnegative : network.Nonnegative) (row : Assignment) :
    0 ≤ weight network row := by
  rw [weight_eq_prod]
  refine List.prod_nonneg fun probability member => ?_
  obtain ⟨node, listed, rfl⟩ := List.mem_map.1 member
  exact (nonnegative node listed).probability_nonneg _ _

theorem mass_eq_sum (network : Network ℚ) (test : Assignment → Bool) :
    mass network test =
      ∑ row ∈ network.domains.combinationSet with test row = true, weight network row :=
  Domains.sum_filter_combinations network.domains test (weight network)

theorem mass_congr {left right : Assignment → Bool}
    (same : ∀ row ∈ network.rows, left row = right row) :
    mass network left = mass network right := by
  unfold mass
  rw [List.filter_congr same]

theorem mass_nonneg (nonnegative : network.Nonnegative) (test : Assignment → Bool) :
    0 ≤ mass network test := by
  rw [mass_eq_sum]
  exact Finset.sum_nonneg fun row _ => weight_nonneg nonnegative row

theorem mass_mono (nonnegative : network.Nonnegative) {left right : Assignment → Bool}
    (implied : ∀ row ∈ network.rows, left row = true → right row = true) :
    mass network left ≤ mass network right := by
  rw [mass_eq_sum, mass_eq_sum]
  refine Finset.sum_le_sum_of_subset_of_nonneg ?_ fun row _ _ => weight_nonneg nonnegative row
  intro row member
  obtain ⟨listed, passes⟩ := Finset.mem_filter.1 member
  exact Finset.mem_filter.2 ⟨listed, implied row listed passes⟩

theorem exists_row_of_mass_pos {test : Assignment → Bool} (positive : 0 < mass network test) :
    ∃ row ∈ network.rows, test row = true := by
  by_contra none
  have empty : network.rows.filter test = [] := by
    rw [List.filter_eq_nil_iff]
    intro row member passes
    exact none ⟨row, member, passes⟩
  rw [mass, empty] at positive
  exact lt_irrefl _ positive

/-- Where there is mass, some of the variables have at most as many combinations as all of them. -/
theorem count_among_le_of_mass_pos {test : Assignment → Bool} (positive : 0 < mass network test)
    (names : List String) : (network.domains.among names).count ≤ network.domains.count := by
  obtain ⟨row, member, _⟩ := exists_row_of_mass_pos positive
  exact Domains.count_among_le names member

/-- The rows that pass a test, split by the values of some of the variables: a test of those values
alone selects among the parts. -/
theorem sum_mass_parts (names : List String) (test inner : Assignment → Bool)
    (dependsOnParts : ∀ row ∈ network.rows, inner (row.restrict names) = inner row) :
    (((network.domains.among names).combinations.filter inner).map fun part =>
        mass network fun row => test row && row.contains part).sum =
      mass network fun row => test row && inner row := by
  classical
  rw [Domains.sum_filter_combinations, mass_eq_sum]
  have maps : ∀ row ∈ network.domains.combinationSet.filter fun row =>
      (test row && inner row) = true,
      row.restrict names ∈ (network.domains.among names).combinationSet.filter fun part =>
        inner part = true := by
    intro row member
    obtain ⟨listed, passes⟩ := Finset.mem_filter.1 member
    rw [Bool.and_eq_true] at passes
    refine Finset.mem_filter.2 ⟨Domains.restrict_mem_combinations listed, ?_⟩
    rw [dependsOnParts row listed, passes.2]
  rw [← Finset.sum_fiberwise_of_maps_to maps]
  refine Finset.sum_congr rfl fun part partMember => ?_
  obtain ⟨partListed, partPasses⟩ := Finset.mem_filter.1 partMember
  rw [mass_eq_sum]
  refine Finset.sum_congr (Finset.ext fun row => ?_) fun _ _ => rfl
  simp only [Finset.mem_filter, Bool.and_eq_true]
  constructor
  · rintro ⟨listed, passes, contained⟩
    have same := (Domains.contains_iff_restrict_eq listed partListed).1 contained
    refine ⟨⟨listed, passes, ?_⟩, same⟩
    rw [← dependsOnParts row listed, same, partPasses]
  · rintro ⟨⟨listed, passes, _⟩, same⟩
    exact ⟨listed, passes, (Domains.contains_iff_restrict_eq listed partListed).2 same⟩

end Inference

end DecisionNetwork
