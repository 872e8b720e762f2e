import DecisionNetwork.Proofs.Inference.Plan
import DecisionNetwork.Proofs.Inference.Posterior

/-!
Contract: the network that is rebuilt from a plan, over exact numbers.

Owns:
- `conditionalPosteriors` and `conditionalTable_eq`, the table of a variable: a posterior for each
  assignment of its inputs that has any mass;
- `rebuiltNode` and `reduce_eq`: the rebuilt network has one such node for each variable of the
  plan;
- `values_rebuiltNode`, the domains of the rebuilt network.
-/

namespace DecisionNetwork.Inference

open Network

variable {network : Network ℚ} {settings : Settings} {evidence : Assignment}

/-- The posteriors of a variable for the assignments of its inputs that have any mass. -/
def conditionalPosteriors (network : Network ℚ) (name : String) (evidence : Assignment)
    (assignments : List Assignment) : List (Assignment × CategoricalTable ℚ) :=
  (assignments.filter fun parents => 0 < evidenceMass network (evidence.compose parents)).map
    fun parents => (parents, posteriorTable network [name] (evidence.compose parents))

theorem conditionalPosteriors_pairwise (network : Network ℚ) (name : String)
    (evidence : Assignment) (domains : Domains) :
    (conditionalPosteriors network name evidence domains.combinations).Pairwise
      fun left right => compare left.1 right.1 ≠ .eq :=
  List.pairwise_map.2 ((Domains.combinations_pairwise domains).filter _)

theorem conditionalTable_eq (built : network.Built) {name : String}
    (chance : (network.chanceNode? name).isSome)
    (within : (network.domains.among [name]).count ≤ settings.maxAssignments)
    (jointWithin : network.domains.count ≤ settings.maxAssignments)
    (assignments : List Assignment) (table : ConditionalTable ℚ) :
    conditionalTable settings network name evidence table assignments =
      .ok ⟨table.tables.insertMany (conditionalPosteriors network name evidence assignments)⟩ := by
  induction assignments generalizing table with
  | nil => rfl
  | cons head tail inductionHypothesis =>
      have single : ∀ other ∈ [name], (network.chanceNode? other).isSome := by simpa using chance
      unfold conditionalTable
      rw [posterior_eq built single within jointWithin]
      by_cases positive : 0 < evidenceMass network (evidence.compose head)
      · rw [if_pos positive]
        dsimp only
        rw [inductionHypothesis, conditionalPosteriors, conditionalPosteriors,
          List.filter_cons_of_pos (by simpa using positive)]
        rfl
      · rw [if_neg positive]
        dsimp only
        rw [inductionHypothesis, conditionalPosteriors, conditionalPosteriors,
          List.filter_cons_of_neg (by simpa using positive)]

/-- The node of a variable in the rebuilt network. -/
def rebuiltNode (network : Network ℚ) (plan : ReductionPlan) (name : String) : ChanceNode ℚ where
  id := name
  inputs := plan.inputsOf name
  distribution := .conditional ⟨SortedMap.empty.insertMany (conditionalPosteriors network name
    plan.evidence (network.domains.among (plan.inputsOf name).toList).combinations)⟩

section Rebuilding

variable {plan : ReductionPlan}

theorem reduceVariable_eq (built : network.Built) {reduced : Network ℚ} {name : String}
    (chance : ∀ other ∈ name :: (plan.inputsOf name).toList, (network.chanceNode? other).isSome)
    (within : ∀ names ⊆ name :: (plan.inputsOf name).toList,
      (network.domains.among names).count ≤ settings.maxAssignments)
    (jointWithin : network.domains.count ≤ settings.maxAssignments)
    (new : reduced.contains name = false)
    (present : ∀ input ∈ (plan.inputsOf name).toList, reduced.contains input = true) :
    reduceVariable settings network plan reduced name =
      .ok ⟨reduced.nodes.insert name (.chance (rebuiltNode network plan name))⟩ := by
  have isChance := chance name List.mem_cons_self
  have isKnown : (network.chanceNode? name).isNone = false := by
    rw [Option.isNone_eq_false_iff]
    exact isChance
  have inputDomains := chanceDomains_eq built
    (fun input reads => chance input (List.mem_cons_of_mem name reads))
    (within _ (List.subset_cons_self name _))
  have table : conditionalTable settings network name plan.evidence .empty
      (network.domains.among (plan.inputsOf name).toList).combinations =
      .ok ⟨SortedMap.empty.insertMany (conditionalPosteriors network name plan.evidence
        (network.domains.among (plan.inputsOf name).toList).combinations)⟩ :=
    conditionalTable_eq built isChance (within [name] (by simp)) jointWithin _ .empty
  have added : reduced.add (.chance (rebuiltNode network plan name)) =
      .ok ⟨reduced.nodes.insert name (.chance (rebuiltNode network plan name))⟩ :=
    add_eq_ok_iff.2 ⟨new, present, rfl⟩
  unfold reduceVariable
  unfold rebuiltNode at added ⊢
  simp only [isKnown, inputDomains, table, added, bind, Except.bind, pure, Except.pure,
    Bool.false_eq_true, if_false]

section Rendered

variable {reduced : Network ℚ} {render : String → ChanceNode ℚ} {done : List String}
  (nodes : ∀ id, reduced.node? id = if id ∈ done then some (.chance (render id)) else none)
include nodes

theorem contains_iff_of_rendered (id : String) : reduced.contains id = true ↔ id ∈ done := by
  rw [Network.contains_iff, nodes id]
  by_cases member : id ∈ done <;> simp [member]

/-- Where nodes are known by their names, one more is added to them. -/
theorem node?_insert_of_rendered {name : String} (isNamed : (render name).id = name)
    (id : String) :
    (Network.mk (reduced.nodes.insert name (.chance (render name)))).node? id =
      if id ∈ done ++ [name] then some (.chance (render id)) else none := by
  have inserted := node?_insert reduced (.chance (render name)) id
  rw [show (Node.chance (render name)).id = name from isNamed, nodes id] at inserted
  rw [inserted]
  by_cases isName : id = name <;> simp [isName]

end Rendered

/-- Whether the nodes of a network are those that a plan gives to some of its variables. -/
def Rebuilds (network : Network ℚ) (plan : ReductionPlan) (done : List String)
    (reduced : Network ℚ) : Prop :=
  ∀ id, reduced.node? id =
    if id ∈ done then some (.chance (rebuiltNode network plan id)) else none

theorem Rebuilds.contains_iff {done : List String} {reduced : Network ℚ}
    (rebuilds : Rebuilds network plan done reduced) (id : String) :
    reduced.contains id = true ↔ id ∈ done :=
  contains_iff_of_rendered rebuilds id

theorem Rebuilds.insert {done : List String} {reduced : Network ℚ}
    (rebuilds : Rebuilds network plan done reduced) (name : String) :
    Rebuilds network plan (done ++ [name])
      ⟨reduced.nodes.insert name (.chance (rebuiltNode network plan name))⟩ :=
  node?_insert_of_rendered rebuilds rfl

/-- The variables that remain in a plan are added one after the other. -/
theorem foldlM_reduceVariable (built : network.Built) (ordered : plan.Ordered)
    (chance : ∀ name ∈ plan.order, (network.chanceNode? name).isSome)
    (within : ∀ names ⊆ plan.order,
      (network.domains.among names).count ≤ settings.maxAssignments)
    (jointWithin : network.domains.count ≤ settings.maxAssignments)
    {done pending : List String} (split : plan.order = done ++ pending) {reduced : Network ℚ}
    (reducedBuilt : reduced.Built) (rebuilds : Rebuilds network plan done reduced) :
    ∃ last, pending.foldlM (reduceVariable settings network plan) reduced = .ok last ∧
      last.Built ∧ Rebuilds network plan plan.order last := by
  induction pending generalizing done reduced with
  | nil =>
      rw [List.append_nil] at split
      exact ⟨reduced, rfl, reducedBuilt, split ▸ rebuilds⟩
  | cons name rest inductionHypothesis =>
      have earlier := ordered.inputsBefore done name rest split
      have inOrder : name :: (plan.inputsOf name).toList ⊆ plan.order := by
        rw [split]
        intro other member
        rcases List.mem_cons.1 member with rfl | reads
        · exact List.mem_append_right done List.mem_cons_self
        · exact List.mem_append_left _ (earlier reads)
      have new : reduced.contains name = false := by
        rw [Bool.eq_false_iff, ne_eq, rebuilds.contains_iff]
        intro repeated
        have nodup := ordered.nodup
        rw [split, List.nodup_append] at nodup
        exact nodup.2.2 name repeated name List.mem_cons_self rfl
      have present : ∀ input ∈ (plan.inputsOf name).toList, reduced.contains input = true :=
        fun input reads => (rebuilds.contains_iff input).2 (earlier reads)
      have step := reduceVariable_eq built (fun other member => chance other (inOrder member))
        (fun names part => within names (List.Subset.trans part inOrder)) jointWithin new present
      rw [List.foldlM_cons, step]
      rw [List.append_cons] at split
      exact inductionHypothesis split
        (reducedBuilt.insert (.chance (rebuiltNode network plan name)) new present)
        (rebuilds.insert name)

/-- A plan of chance variables is carried out. -/
theorem reduce_eq (built : network.Built) (ordered : plan.Ordered)
    (chance : ∀ name ∈ plan.order, (network.chanceNode? name).isSome)
    (within : ∀ names ⊆ plan.order,
      (network.domains.among names).count ≤ settings.maxAssignments)
    (jointWithin : network.domains.count ≤ settings.maxAssignments) :
    ∃ reduced, reduce settings network plan = .ok reduced ∧ reduced.Built ∧
      Rebuilds network plan plan.order reduced :=
  foldlM_reduceVariable built ordered chance within jointWithin (List.nil_append _).symm .empty
    fun _ => rfl

end Rebuilding

section Values

variable {plan : ReductionPlan} {name : String} {node : ChanceNode ℚ}

theorem values_posteriorTable (built : network.Built)
    (found : network.chanceNode? name = some node) (evidence : Assignment) :
    (posteriorTable network [name] evidence).values name = node.values := by
  have inDomains : network.domains.get? name = some node.values := by
    rw [built.get?_domains, found]
    rfl
  refine SortedSet.toList_ofList_eq node.values_ascending fun value => ?_
  rw [List.mem_filterMap]
  constructor
  · rintro ⟨head, listed, bound⟩
    rw [keys_posteriorTable_perm.mem_iff] at listed
    obtain ⟨domain, domainFound, member⟩ := Domains.admits_of_mem listed name value bound
    rw [Domains.get?_among, if_pos (List.mem_singleton_self name), inDomains,
      Option.some.injEq] at domainFound
    exact domainFound ▸ Value.mem_of_mem_distinct member
  · intro member
    have picked := (Value.mem_distinct_iff_of_ascending node.values_ascending).2 member
    refine ⟨.single name value, ?_, Assignment.value?_bind_self _ _ _⟩
    rw [keys_posteriorTable_perm.mem_iff]
    exact Domains.single_mem_combinations inDomains picked

/-- Conditional tables have the values that each of them has. -/
theorem values_of_tables {tables : ConditionalTable ℚ} {domain : List Value}
    (ascending : domain.Pairwise fun left right => compare left right = .lt)
    (all : ∀ table ∈ tables.tables.values, table.values name = domain)
    {condition : Assignment} {table : CategoricalTable ℚ}
    (isRow : tables.table? condition = some table) : tables.values name = domain := by
  obtain ⟨key, listed, _⟩ := SortedMap.get?_eq_some_iff_exists.1 isRow
  have inTables : table ∈ tables.tables.values := List.mem_map.2 ⟨_, listed, rfl⟩
  refine SortedSet.toList_ofList_eq ascending fun value => ?_
  rw [List.mem_flatMap]
  constructor
  · rintro ⟨other, otherListed, inOther⟩
    rwa [all other otherListed] at inOther
  · intro inDomain
    exact ⟨table, inTables, by rwa [all table inTables]⟩

/-- A variable keeps its domain if its inputs have an assignment with any mass. -/
theorem values_rebuiltNode (built : network.Built) (found : network.chanceNode? name = some node)
    {parents : Assignment}
    (member : parents ∈ (network.domains.among (plan.inputsOf name).toList).combinations)
    (positive : 0 < evidenceMass network (plan.evidence.compose parents)) :
    (rebuiltNode network plan name).values = node.values := by
  have entry : (parents, posteriorTable network [name] (plan.evidence.compose parents)) ∈
      conditionalPosteriors network name plan.evidence
        (network.domains.among (plan.inputsOf name).toList).combinations :=
    List.mem_map.2 ⟨parents, List.mem_filter.2 ⟨member, decide_eq_true positive⟩, rfl⟩
  refine values_of_tables node.values_ascending (fun table listed => ?_)
    (SortedMap.get?_insertMany_of_mem .empty (conditionalPosteriors_pairwise _ _ _ _) entry)
  rcases SortedMap.mem_values_insertMany listed with inEmpty | ⟨key, inPosteriors⟩
  · cases inEmpty
  · obtain ⟨parents, _, same⟩ := List.mem_map.1 inPosteriors
    cases same
    exact values_posteriorTable built found _

/-- A variable has no values left if no assignment of its inputs has any mass. -/
theorem values_rebuiltNode_eq_nil
    (none : ∀ parents ∈ (network.domains.among (plan.inputsOf name).toList).combinations,
      ¬ 0 < evidenceMass network (plan.evidence.compose parents)) :
    (rebuiltNode network plan name).values = [] := by
  have noPosteriors : conditionalPosteriors network name plan.evidence
      (network.domains.among (plan.inputsOf name).toList).combinations = [] := by
    rw [conditionalPosteriors, List.filter_eq_nil_iff.2, List.map_nil]
    intro parents member
    simpa using none parents member
  unfold ChanceNode.values rebuiltNode
  rw [noPosteriors]
  rfl

end Values

end DecisionNetwork.Inference
