import DecisionNetwork.Proofs.Inference.Enumeration
import DecisionNetwork.Proofs.Inference.Exchange

/-!
Contract: a joint distribution before and after a node was added, over exact numbers.

Owns:
- `Assignment.Blind`, functions of rows that do not look at a variable;
- `Node.Normalised`, nodes whose local probabilities add up to one, and `Node.ReadsEnumerated`,
  nodes that read nodes of the joint distribution;
- `sum_of_add`: a sum over the rows of the enlarged network as one over the rows before, each
  extended by the values of the new node;
- `sum_of_add_of_blind`: a normalised node is summed out wherever it is not looked at.

No older node reads the new one, so its factor stands apart in every row, wherever its identifier
comes in the order.
-/

namespace DecisionNetwork

namespace Assignment

/-- Whether a function of assignments does not look at a variable. -/
def Blind {β : Type} (name : String) (look : Assignment → β) : Prop :=
  ∀ row value, look (row.bind name value) = look row

theorem blind_contains {name : String} {part : Assignment} (absent : name ∉ part.names) :
    Blind name (·.contains part) := by
  intro row value
  apply contains_congr
  intro other bound
  apply value?_bind_of_ne
  rintro rfl
  exact absent bound

theorem Blind.and {name : String} {first second : Assignment → Bool} (firstBlind : Blind name first)
    (secondBlind : Blind name second) : Blind name fun row => first row && second row :=
  fun row value => congrArg₂ (· && ·) (firstBlind row value) (secondBlind row value)

end Assignment

/-- Whether the local probabilities of a node add up to one whatever values its inputs have. The
values of an action are equally likely, so that it is enough to have one. -/
def Node.Normalised (network : Network ℚ) : Node ℚ → Prop
  | .chance node =>
    ∀ parents ∈ (network.nodeValues.among node.inputs.toList).combinations,
      (node.values.map fun value => node.probability parents value).sum = 1
  | .action node => node.values ≠ []
  | .utility _ => True

instance (network : Network ℚ) (node : Node ℚ) : Decidable (node.Normalised network) :=
  match node with
  | .chance node => inferInstanceAs (Decidable (∀ _ ∈
      (network.nodeValues.among node.inputs.toList).combinations, (_ : ℚ) = 1))
  | .action node => inferInstanceAs (Decidable (node.values ≠ []))
  | .utility _ => inferInstanceAs (Decidable True)

/-- Whether a joint distribution ranges over all inputs of a node. -/
def Node.ReadsEnumerated {α : Type} (network : Network α) (withActions : Bool) (node : Node α) :
    Prop :=
  ∀ input ∈ node.inputs.toList, ∃ read ∈ network.enumerated withActions, read.id = input

instance {α : Type} (network : Network α) (withActions : Bool) (node : Node α) :
    Decidable (node.ReadsEnumerated network withActions) :=
  inferInstanceAs (Decidable (∀ _ ∈ node.inputs.toList, ∃ _ ∈ network.enumerated withActions, _))

/-- Every value of an action has the same share. -/
theorem ActionNode.probability_of_mem (node : ActionNode) {value : Value}
    (member : value ∈ node.values) :
    node.probability value = (1 : ℚ) / node.values.length := by
  have listed : node.values.contains value = true := by
    rw [List.contains_eq_any_beq, List.any_eq_true]
    exact ⟨value, member, Value.beq_self value⟩
  unfold probability
  rw [if_pos listed]
  rfl

theorem ActionNode.distinct_values (node : ActionNode) : Value.distinct node.values = node.values :=
  Value.distinct_eq_self node.apart

theorem ChanceNode.distinct_values {α : Type} (node : ChanceNode α) :
    Value.distinct node.values = node.values :=
  Value.distinct_eq_self (node.values_ascending.imp fun below => by simp [below])

theorem Node.distinct_values {α : Type} (node : Node α) :
    Value.distinct node.values = node.values := by
  cases node with
  | chance node => exact node.distinct_values
  | action node => exact node.distinct_values
  | utility node => rfl

/-- The local probability of a node depends on its value and on those of its inputs. -/
theorem Node.localProbability_congr {node : Node ℚ} {left right : Assignment}
    (sameValue : left.value? node.id = right.value? node.id)
    (sameInputs : ∀ input ∈ node.inputs.toList, left.value? input = right.value? input) :
    node.localProbability left = node.localProbability right := by
  cases node with
  | chance node => exact Inference.probability_congr sameValue sameInputs
  | action node =>
      show node.probability (left.valueOrAbsent node.id) = _
      unfold Assignment.valueOrAbsent
      rw [show left.value? node.id = right.value? node.id from sameValue]
      rfl
  | utility node => rfl

namespace Network

section Added

variable {α : Type} {network next : Network α} {node : Node α}
  (added : network.add node = .ok next)
include added

theorem node?_of_add (id : String) :
    next.node? id = if id = node.id then some node else network.node? id := by
  obtain ⟨_, _, rfl⟩ := add_eq_ok_iff.1 added
  exact node?_insert network node id

theorem node?_eq_none_of_add : network.node? node.id = none := by
  obtain ⟨new, _, _⟩ := add_eq_ok_iff.1 added
  exact Option.isSome_eq_false_iff.1 new |> Option.isNone_iff_eq_none.1

theorem ne_of_contains {id : String} (old : network.contains id = true) : id ≠ node.id := by
  rintro rfl
  obtain ⟨stored, found⟩ := contains_iff.1 old
  rw [node?_eq_none_of_add added] at found
  cases found

theorem ne_of_mem_inputs {input : String} (reads : input ∈ node.inputs.toList) :
    input ≠ node.id := by
  obtain ⟨_, present, _⟩ := add_eq_ok_iff.1 added
  exact ne_of_contains added (present input reads)

theorem nodeList_of_add : next.nodeList.Perm (node :: network.nodeList) := by
  have absent := node?_eq_none_of_add added
  obtain ⟨_, _, rfl⟩ := add_eq_ok_iff.1 added
  exact (SortedMap.toList_insert_perm absent node).map Prod.snd

theorem mem_nodeList_of_add {other : Node α} (member : other ∈ next.nodeList) :
    other = node ∨ other ∈ network.nodeList :=
  List.mem_cons.1 ((nodeList_of_add added).mem_iff.1 member)

theorem enumerated_of_add (withActions : Bool) :
    (next.enumerated withActions).Perm
      (if node.isEnumerated withActions then node :: network.enumerated withActions
        else network.enumerated withActions) := by
  have listed := (nodeList_of_add added).filter (Node.isEnumerated withActions)
  rwa [List.filter_cons] at listed

theorem mem_enumerated_of_add {other : Node α} {withActions : Bool}
    (member : other ∈ network.enumerated withActions) : other ∈ next.enumerated withActions := by
  obtain ⟨listed, isEnumerated⟩ := List.mem_filter.1 member
  apply List.mem_filter.2
  exact ⟨(nodeList_of_add added).mem_iff.2 (List.mem_cons_of_mem node listed), isEnumerated⟩

/-- A node that does not read the new one reads what it read. -/
theorem readsEnumerated_of_add {other : Node α} {withActions : Bool}
    (apart : ∀ input ∈ other.inputs.toList, input ≠ node.id)
    (reads : other.ReadsEnumerated next withActions) :
    other.ReadsEnumerated network withActions := by
  intro input listed
  obtain ⟨read, member, sameId⟩ := reads input listed
  obtain ⟨inNext, isEnumerated⟩ := List.mem_filter.1 member
  rcases mem_nodeList_of_add added inNext with rfl | old
  · exact absurd sameId.symm (apart input listed)
  · exact ⟨read, List.mem_filter.2 ⟨old, isEnumerated⟩, sameId⟩

variable (built : network.Built)
include built

/-- Older nodes and their inputs are other than the new node. -/
theorem ne_of_mem_nodeList {other : Node α} (member : other ∈ network.nodeList) :
    other.id ≠ node.id ∧ ∀ input ∈ other.inputs.toList, input ≠ node.id := by
  have found := built.mem_nodeList_iff.1 member
  constructor
  · exact ne_of_contains added (contains_iff.2 ⟨other, found⟩)
  · intro input reads
    exact ne_of_contains added (built.contains_input found reads)

/-- Without the new node the domains are those of before. -/
theorem without_jointDomains_of_add (withActions : Bool) :
    (Inference.jointDomains next withActions).without [node.id] =
      Inference.jointDomains network withActions := by
  refine SortedMap.ext_get? fun name => ?_
  rw [Domains.get?_without, built.get?_jointDomains, (built.add added).get?_jointDomains,
    node?_of_add added]
  by_cases isNew : name = node.id
  · rw [if_pos (List.mem_singleton.2 isNew), isNew, node?_eq_none_of_add added]
    rfl
  · rw [if_neg (mt List.mem_singleton.1 isNew), if_neg isNew]

theorem among_jointDomains_of_add {names : List String} (apart : ∀ name ∈ names, name ≠ node.id)
    (withActions : Bool) :
    (Inference.jointDomains next withActions).among names =
      (Inference.jointDomains network withActions).among names := by
  rw [← without_jointDomains_of_add added built]
  refine SortedMap.ext_get? fun name => ?_
  rw [Domains.get?_among, Domains.get?_among, Domains.get?_without]
  split
  next listed => rw [if_neg (mt List.mem_singleton.1 (apart name listed))]
  next => rfl

theorem get?_jointDomains_of_add (withActions : Bool) :
    (Inference.jointDomains next withActions).get? node.id =
      if node.isEnumerated withActions then some node.values else none := by
  rw [(built.add added).get?_jointDomains, node?_of_add added, if_pos rfl, Option.filter_some]
  split <;> rfl

theorem jointDomains_of_add_of_not_enumerated {withActions : Bool}
    (leftOut : ¬ node.isEnumerated withActions = true) :
    Inference.jointDomains next withActions = Inference.jointDomains network withActions := by
  have absent := get?_jointDomains_of_add added built withActions
  rw [if_neg leftOut] at absent
  rw [← without_jointDomains_of_add added built]
  refine SortedMap.ext_get? fun name => ?_
  rw [Domains.get?_without]
  split
  next listed => rw [List.mem_singleton.1 listed, absent]
  next => rfl

omit built in
/-- Nodes other than the new one have the values that they had. -/
theorem among_nodeValues_of_add {names : List String}
    (apart : ∀ name ∈ names, name ≠ node.id) :
    next.nodeValues.among names = network.nodeValues.among names := by
  refine SortedMap.ext_get? fun name => ?_
  rw [Domains.get?_among, Domains.get?_among, get?_nodeValues, get?_nodeValues, node?_of_add added]
  split
  next listed => rw [if_neg (apart name listed)]
  next => rfl

end Added

end Network

theorem Node.normalised_iff_of_add {network next : Network ℚ} {node other : Node ℚ}
    (added : network.add node = .ok next)
    (apart : ∀ input ∈ other.inputs.toList, input ≠ node.id) :
    other.Normalised next ↔ other.Normalised network := by
  cases other with
  | chance other =>
      have sameDomains : next.nodeValues.among other.inputs.toList =
          network.nodeValues.among other.inputs.toList :=
        Network.among_nodeValues_of_add added apart
      show (∀ parents ∈ (next.nodeValues.among other.inputs.toList).combinations, _) ↔ _
      rw [sameDomains]
      rfl
  | action other => exact Iff.rfl
  | utility other => exact Iff.rfl

/-- The local probabilities of a normalised node add up to one in every row. -/
theorem Node.Normalised.sum_localProbability {network : Network ℚ} {node : Node ℚ}
    {withActions : Bool} (built : network.Built) (normalised : node.Normalised network)
    (isEnumerated : node.isEnumerated withActions = true)
    (reads : node.ReadsEnumerated network withActions)
    (apart : ∀ input ∈ node.inputs.toList, input ≠ node.id)
    {row : Assignment} (member : row ∈ (Inference.jointDomains network withActions).combinations) :
    (node.values.map fun value => node.localProbability (row.bind node.id value)).sum = 1 := by
  cases node with
  | chance node =>
      have parents : row.restrict node.inputs.toList ∈
          (network.nodeValues.among node.inputs.toList).combinations := by
        have sameDomains := built.among_jointDomains reads
        exact sameDomains ▸ Domains.restrict_mem_combinations member
      rw [← normalised _ parents]
      refine congrArg List.sum (List.map_congr_left fun value _ => ?_)
      have sameInputs : (row.bind node.id value).restrict node.inputs.toList =
          (row.restrict node.inputs.toList).restrict node.inputs.toList := by
        ext1 name
        simp only [Assignment.value?_restrict]
        split
        next listed => exact Assignment.value?_bind_of_ne row value (apart name listed)
        next => rfl
      show node.distribution.probability ((row.bind node.id value).restrict node.inputs.toList)
        (.single node.id ((row.bind node.id value).valueOrAbsent node.id)) = _
      rw [sameInputs, Assignment.valueOrAbsent, Assignment.value?_bind_self]
      rfl
  | action node =>
      have shares : ∀ value ∈ node.values,
          Node.localProbability (row.bind node.id value) (.action node) =
            (1 : ℚ) / node.values.length := by
        intro value listed
        show node.probability ((row.bind node.id value).valueOrAbsent node.id) = _
        rw [Assignment.valueOrAbsent, Assignment.value?_bind_self]
        exact node.probability_of_mem listed
      have someValue : (node.values.length : ℚ) ≠ 0 :=
        Nat.cast_ne_zero.2 (mt List.length_eq_zero_iff.1 normalised)
      show (node.values.map fun value =>
        Node.localProbability (row.bind node.id value) (.action node)).sum = 1
      rw [List.map_congr_left shares, List.map_const', List.sum_replicate, nsmul_eq_mul]
      exact mul_one_div_cancel someValue
  | utility node => cases isEnumerated

namespace Inference

open Network

section Factors

variable {network next : Network ℚ} {node : Node ℚ} (built : network.Built)
  (added : network.add node = .ok next) (withActions : Bool)
include built added

/-- Adding a normalised node makes no fewer rows. -/
theorem count_jointDomains_le_of_add
    (normalised : node.isEnumerated withActions = true → node.Normalised network)
    (reads : node.isEnumerated withActions = true → node.ReadsEnumerated network withActions) :
    (jointDomains network withActions).count ≤ (jointDomains next withActions).count := by
  by_cases isEnumerated : node.isEnumerated withActions = true
  · have domain := get?_jointDomains_of_add added built withActions
    rw [if_pos isEnumerated] at domain
    have lengths := Domains.length_split (jointDomains next withActions) [node.id]
    rw [without_jointDomains_of_add added built, Domains.combinations_among_singleton domain,
      List.length_map, node.distinct_values] at lengths
    rw [Domains.count_eq_min, Domains.count_eq_min, lengths]
    cases rows : (jointDomains network withActions).combinations with
    | nil => simp
    | cons row others =>
        -- The node has a value, since its probabilities in this row add up to one.
        have total := (normalised isEnumerated).sum_localProbability built isEnumerated
          (reads isEnumerated) (fun _ listed => ne_of_mem_inputs added listed)
          (rows ▸ List.mem_cons_self : row ∈ _)
        have someValue : 0 < node.values.length := by
          apply List.length_pos_iff.2
          intro none
          simp [none] at total
        have more := Nat.le_mul_of_pos_right (row :: others).length someValue
        omega
  · rw [jointDomains_of_add_of_not_enumerated added built isEnumerated]

/-- No older node reads the new one. -/
theorem jointProbability_bind_of_add (row : Assignment) (value : Value) :
    jointProbability network withActions (row.bind node.id value) =
      jointProbability network withActions row := by
  rw [jointProbability_eq_prod, jointProbability_eq_prod]
  refine congrArg List.prod (List.map_congr_left fun other member => ?_)
  obtain ⟨ownApart, inputsApart⟩ :=
    ne_of_mem_nodeList added built (List.mem_filter.1 member).1
  apply Node.localProbability_congr
  · exact Assignment.value?_bind_of_ne row value ownApart
  · intro input reads
    exact Assignment.value?_bind_of_ne row value (inputsApart input reads)

omit built in
/-- The new node contributes one factor. -/
theorem jointProbability_of_add (row : Assignment) :
    jointProbability next withActions row =
      (if node.isEnumerated withActions then node.localProbability row else 1) *
        jointProbability network withActions row := by
  rw [jointProbability_eq_prod, jointProbability_eq_prod,
    ((enumerated_of_add added withActions).map _).prod_eq]
  split
  next => rw [List.map_cons, List.prod_cons]
  next => rw [one_mul]

/-- A sum over the rows of the enlarged network extends each row of before by the values of the
new node. -/
theorem sum_of_add {withActions : Bool} (isEnumerated : node.isEnumerated withActions = true)
    (weigh : Assignment → ℚ) :
    ∑ row ∈ (jointDomains next withActions).combinationSet,
        weigh row * jointProbability next withActions row =
      ∑ row ∈ (jointDomains network withActions).combinationSet,
        (node.values.map fun value =>
          weigh (row.bind node.id value) * node.localProbability (row.bind node.id value)).sum *
        jointProbability network withActions row := by
  have found := get?_jointDomains_of_add added built withActions
  rw [if_pos isEnumerated] at found
  rw [Domains.sum_bind found, without_jointDomains_of_add added built, node.distinct_values]
  refine Finset.sum_congr rfl fun row _ => ?_
  rw [← List.sum_map_mul_right]
  refine congrArg List.sum (List.map_congr_left fun value _ => ?_)
  rw [jointProbability_of_add added, if_pos isEnumerated,
    jointProbability_bind_of_add built added, mul_assoc]

/-- A normalised node is summed out of what does not look at it. -/
theorem sum_of_add_of_blind {withActions : Bool}
    (normalised : node.isEnumerated withActions = true → node.Normalised network)
    (reads : node.isEnumerated withActions = true → node.ReadsEnumerated network withActions)
    {weigh : Assignment → ℚ} (blind : Assignment.Blind node.id weigh) :
    ∑ row ∈ (jointDomains next withActions).combinationSet,
        weigh row * jointProbability next withActions row =
      ∑ row ∈ (jointDomains network withActions).combinationSet,
        weigh row * jointProbability network withActions row := by
  by_cases isEnumerated : node.isEnumerated withActions = true
  · rw [sum_of_add built added isEnumerated]
    refine Finset.sum_congr rfl fun row member => ?_
    simp only [blind row]
    have total := (normalised isEnumerated).sum_localProbability built isEnumerated
      (reads isEnumerated) (fun _ listed => ne_of_mem_inputs added listed) member
    rw [List.sum_map_mul_left, total, mul_one]
  · rw [jointDomains_of_add_of_not_enumerated added built isEnumerated]
    refine Finset.sum_congr rfl fun row _ => ?_
    rw [jointProbability_of_add added, if_neg isEnumerated, one_mul]

/-- The same of a sum over the rows that pass a test. -/
theorem sum_filter_of_add_of_blind {withActions : Bool}
    (normalised : node.isEnumerated withActions = true → node.Normalised network)
    (reads : node.isEnumerated withActions = true → node.ReadsEnumerated network withActions)
    {test : Assignment → Bool} {weigh : Assignment → ℚ}
    (testBlind : Assignment.Blind node.id test) (weighBlind : Assignment.Blind node.id weigh) :
    ∑ row ∈ (jointDomains next withActions).combinationSet with test row = true,
        weigh row * jointProbability next withActions row =
      ∑ row ∈ (jointDomains network withActions).combinationSet with test row = true,
        weigh row * jointProbability network withActions row := by
  simp only [Finset.sum_filter, ← ite_zero_mul]
  apply sum_of_add_of_blind built added normalised reads
  intro row value
  simp only [testBlind row value, weighBlind row value]

theorem sum_probability_of_add_of_blind {withActions : Bool}
    (normalised : node.isEnumerated withActions = true → node.Normalised network)
    (reads : node.isEnumerated withActions = true → node.ReadsEnumerated network withActions)
    {test : Assignment → Bool} (blind : Assignment.Blind node.id test) :
    ∑ row ∈ (jointDomains next withActions).combinationSet with test row = true,
        jointProbability next withActions row =
      ∑ row ∈ (jointDomains network withActions).combinationSet with test row = true,
        jointProbability network withActions row := by
  have constant : Assignment.Blind node.id fun _ => (1 : ℚ) := fun _ _ => rfl
  have sums := sum_filter_of_add_of_blind built added normalised reads blind constant
  simp only [one_mul] at sums
  exact sums

end Factors

end Inference

end DecisionNetwork
