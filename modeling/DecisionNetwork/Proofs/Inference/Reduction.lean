import DecisionNetwork.Proofs.Inference.Exchange
import DecisionNetwork.Proofs.Inference.Rebuild
import Mathlib.Tactic.LinearCombination

/-!
Contract: a smaller network answers like the whole one, over exact numbers.

Owns:
- `partMass_append`, the chain rule: given the earlier variables that are connected to it, a
  variable is independent of the others;
- `weight_eq`: the joint distribution of the rebuilt network is the posterior of its
  variables in the whole one;
- `reduce_represents`, by which both answer the same queries.
-/

namespace DecisionNetwork.Inference

open Network

variable {network : Network ℚ} {settings : Settings} {evidence : Assignment}

section ChainRule

variable {plan : ReductionPlan} {names : List String} {name : String} {row : Assignment}

theorem single_valueOrAbsent (bound : (row.value? name).isSome) :
    Assignment.single name (row.valueOrAbsent name) = row.restrict [name] := by
  obtain ⟨value, bound⟩ := Option.isSome_iff_exists.1 bound
  ext1 other
  rw [Assignment.value?_single, Assignment.value?_restrict, Assignment.valueOrAbsent, bound]
  by_cases same : other = name
  · simp [same, bound]
  · simp [same]

/-- The local probability in a rebuilt network is a quotient of masses of the whole one. -/
theorem probability_rebuiltNode (built : network.Built)
    (chance : (network.chanceNode? name).isSome)
    (member : row ∈ (network.domains.among names).combinations) (inNames : name ∈ names)
    (reads : (plan.inputsOf name).toList ⊆ names) :
    (rebuiltNode network plan name).probability row (row.valueOrAbsent name) =
      if 0 < evidenceMass network
          (plan.evidence.compose (row.restrict (plan.inputsOf name).toList)) then
        partMass network (plan.evidence.compose (row.restrict (plan.inputsOf name).toList))
            (row.restrict [name]) /
          evidenceMass network
            (plan.evidence.compose (row.restrict (plan.inputsOf name).toList))
      else 0 := by
  have parentsMember := restrict_mem_among member reads
  have headMember := restrict_mem_among member (List.cons_subset.2 ⟨inNames, List.nil_subset names⟩)
  have bound : (row.value? name).isSome := by
    obtain ⟨node, found⟩ := Option.isSome_iff_exists.1 chance
    have inDomains : (network.domains.among names).get? name = some node.values := by
      rw [Domains.get?_among, if_pos inNames, built.get?_domains, found]
      rfl
    obtain ⟨value, _, bound⟩ := (Domains.mem_combinations_iff.1 member).1 _ _ inDomains
    exact Option.isSome_of_eq_some bound
  show ConditionalTable.probability ⟨_⟩ (row.restrict (plan.inputsOf name).toList)
    (.single name (row.valueOrAbsent name)) = _
  unfold ConditionalTable.probability ConditionalTable.table?
  rw [single_valueOrAbsent bound]
  by_cases positive : 0 < evidenceMass network
      (plan.evidence.compose (row.restrict (plan.inputsOf name).toList))
  · have entry : (row.restrict (plan.inputsOf name).toList, posteriorTable network [name]
        (plan.evidence.compose (row.restrict (plan.inputsOf name).toList))) ∈
        conditionalPosteriors network name plan.evidence
          (network.domains.among (plan.inputsOf name).toList).combinations :=
      List.mem_map.2 ⟨_, List.mem_filter.2 ⟨parentsMember, decide_eq_true positive⟩, rfl⟩
    have found := SortedMap.get?_insertMany_of_mem .empty
      (conditionalPosteriors_pairwise _ _ _ _) entry
    rw [found, if_pos positive]
    exact probability_posteriorTable headMember
  · have apart : ∀ binding ∈ conditionalPosteriors network name plan.evidence
        (network.domains.among (plan.inputsOf name).toList).combinations,
        compare (row.restrict (plan.inputsOf name).toList) binding.1 ≠ .eq := by
      intro binding listed same
      obtain ⟨parents, selected, rfl⟩ := List.mem_map.1 listed
      obtain ⟨inCombinations, hasMass⟩ := List.mem_filter.1 selected
      have isParents := Domains.eq_of_compare_eq_of_mem parentsMember inCombinations same
      exact positive (isParents ▸ of_decide_eq_true hasMass)
    have missing := SortedMap.get?_insertMany_of_apart .empty apart
    rw [missing, if_neg positive]
    rfl

/-- The chain rule. Rows that agree on a part of the network which no edge leaves tell nothing about
the rest of it, so that only the variables of that part have to be given. -/
theorem partMass_append {before inputs : List String}
    (reads : ∀ input, input ∈ inputs ↔
      input ∈ before ∧ input ∈ connectedIds network.undirectedEdges name)
    (positive : 0 < partMass network evidence (row.restrict inputs)) :
    partMass network evidence (row.restrict (before ++ [name])) *
        evidenceMass network (evidence.compose (row.restrict inputs)) =
      partMass network (evidence.compose (row.restrict inputs)) (row.restrict [name]) *
        partMass network evidence (row.restrict before) := by
  let side := connectedIds network.undirectedEdges name
  have separates : network.Separates side := fun node listed input inputReads _ =>
    mem_connectedIds_iff_of_input listed inputReads name
  -- The evidence and the earlier variables, each in its part on this side and its part beyond.
  have splitEvidence (whole : Assignment) :=
    whole.contains_eq_restrict_and_without evidence side
  have splitBefore (whole : Assignment) :=
    whole.contains_eq_restrict_and_without (row.restrict before) side
  have inputsOfBefore : (row.restrict before).restrict side = row.restrict inputs := by
    ext1 other
    rw [Assignment.value?_restrict, Assignment.value?_restrict, Assignment.value?_restrict]
    by_cases inSide : other ∈ side <;> by_cases inBefore : other ∈ before <;>
      simp [reads, side, inSide, inBefore]
  have evidenceInside : Assignment.TestsInside side (·.contains (evidence.restrict side)) :=
    Assignment.testsInside_contains fun other => Assignment.mem_names_restrict
  have inputsInside : Assignment.TestsInside side (·.contains (row.restrict inputs)) :=
    Assignment.testsInside_contains fun other bound =>
      ((reads other).1 (Assignment.mem_names_restrict bound)).2
  have nameInside : Assignment.TestsInside side (·.contains (row.restrict [name])) := by
    refine Assignment.testsInside_contains fun other bound => ?_
    rw [List.mem_singleton.1 (Assignment.mem_names_restrict bound)]
    exact self_mem_connectedIds _ name
  have evidenceOutside : Assignment.TestsOutside side (·.contains (evidence.without side)) :=
    Assignment.testsOutside_contains fun other => Assignment.not_mem_of_mem_names_without
  have restOutside :
      Assignment.TestsOutside side (·.contains ((row.restrict before).without side)) :=
    Assignment.testsOutside_contains fun other => Assignment.not_mem_of_mem_names_without
  have exchanged := mass_exchange separates
    ((evidenceInside.and inputsInside).and nameInside) (evidenceInside.and inputsInside)
    (evidenceOutside.and restOutside) evidenceOutside
  rw [evidenceMass_compose positive, partMass_compose positive]
  convert exchanged using 2
  · refine mass_congr fun whole _ => ?_
    rw [splitEvidence, Assignment.contains_restrict_append, splitBefore, inputsOfBefore]
    ac_rfl
  · refine mass_congr fun whole _ => ?_
    rw [splitEvidence]
    ac_rfl
  · refine mass_congr fun whole _ => ?_
    rw [splitEvidence]
    ac_rfl
  · refine mass_congr fun whole _ => ?_
    rw [splitEvidence, splitBefore, inputsOfBefore]
    ac_rfl

theorem partMass_restrict_le (nonnegative : network.Nonnegative) {first second : List String}
    (part : first ⊆ second) :
    partMass network evidence (row.restrict second) ≤
      partMass network evidence (row.restrict first) :=
  mass_mono nonnegative fun whole _ passes => by
    rw [Bool.and_eq_true] at passes ⊢
    exact ⟨passes.1, Assignment.contains_restrict_of_subset part passes.2⟩

theorem partMass_restrict_nil (network : Network ℚ) (evidence row : Assignment) :
    partMass network evidence (row.restrict []) = evidenceMass network evidence := by
  have nothing : row.restrict [] = .empty := Assignment.ext_value? fun name => by
    rw [Assignment.value?_restrict, if_neg List.not_mem_nil, Assignment.value?_empty]
  rw [nothing]
  exact mass_congr fun whole _ => by rw [Assignment.contains_empty, Bool.and_true]

/-- The local probabilities of the first variables in a plan multiply to their posterior. -/
theorem prod_probability_rebuiltNode (built : network.Built) (nonnegative : network.Nonnegative)
    (connected : plan.ReadsConnected network)
    (chance : ∀ name ∈ plan.order, (network.chanceNode? name).isSome)
    (positive : 0 < evidenceMass network plan.evidence)
    (member : row ∈ (network.domains.among plan.order).combinations)
    {before after : List String} (split : plan.order = before ++ after) :
    (before.map fun name => (rebuiltNode network plan name).probability row
      (row.valueOrAbsent name)).prod =
      partMass network plan.evidence (row.restrict before) /
        evidenceMass network plan.evidence := by
  induction before using List.reverseRecOn generalizing after with
  | nil => rw [partMass_restrict_nil, List.map_nil, List.prod_nil, div_self positive.ne']
  | append_singleton before name inductionHypothesis =>
      rw [List.append_assoc, List.singleton_append] at split
      have reads := connected before name after split
      have inOrder : name ∈ plan.order :=
        split ▸ List.mem_append_right before List.mem_cons_self
      have readsBefore : (plan.inputsOf name).toList ⊆ before :=
        fun input inputReads => ((reads input).1 inputReads).1
      have readsInOrder : (plan.inputsOf name).toList ⊆ plan.order :=
        split ▸ List.Subset.trans readsBefore (List.subset_append_left before _)
      rw [List.map_append, List.prod_append, List.map_singleton, List.prod_singleton,
        inductionHypothesis split,
        probability_rebuiltNode built (chance name inOrder) member inOrder readsInOrder]
      by_cases beforeMass : 0 < partMass network plan.evidence (row.restrict before)
      · have inputsMass : 0 < partMass network plan.evidence
            (row.restrict (plan.inputsOf name).toList) :=
          beforeMass.trans_le (partMass_restrict_le nonnegative readsBefore)
        have chainRule := partMass_append reads inputsMass
        have composed := evidenceMass_compose inputsMass
        rw [if_pos (composed ▸ inputsMass)]
        rw [composed] at chainRule ⊢
        rw [div_mul_div_comm, div_eq_div_iff (mul_pos positive inputsMass).ne' positive.ne']
        linear_combination (-evidenceMass network plan.evidence) * chainRule
      · have noMass : partMass network plan.evidence (row.restrict before) = 0 :=
          le_antisymm (not_lt.1 beforeMass) (mass_nonneg nonnegative _)
        have smaller := @partMass_restrict_le _ plan.evidence row nonnegative _ _
          (List.subset_append_left before [name])
        have noneAfter : partMass network plan.evidence (row.restrict (before ++ [name])) = 0 :=
          le_antisymm (smaller.trans noMass.le) (mass_nonneg nonnegative _)
        rw [noMass, noneAfter, zero_div, zero_mul]

end ChainRule

/-- A network that was rebuilt from chance variables and the earlier ones connected to each. -/
structure Reduces (network : Network ℚ) (plan : ReductionPlan) (reduced : Network ℚ) : Prop where
  built : network.Built
  reducedBuilt : reduced.Built
  nodup : plan.order.Nodup
  connected : plan.ReadsConnected network
  chance : ∀ name ∈ plan.order, (network.chanceNode? name).isSome
  rebuilds : Rebuilds network plan plan.order reduced

namespace Reduces

variable {plan : ReductionPlan} {reduced : Network ℚ} {names : List String} {row : Assignment}

theorem chanceNode?_eq (reduces : Reduces network plan reduced) (name : String) :
    reduced.chanceNode? name =
      if name ∈ plan.order then some (rebuiltNode network plan name) else none := by
  unfold chanceNode?
  rw [reduces.rebuilds name]
  by_cases listed : name ∈ plan.order
  · rw [if_pos listed, if_pos listed]
  · rw [if_neg listed, if_neg listed]

theorem chanceNodes_perm (reduces : Reduces network plan reduced) :
    reduced.chanceNodes.Perm (plan.order.map (rebuiltNode network plan)) := by
  have sameId (left right : String)
      (same : rebuiltNode network plan left = rebuiltNode network plan right) : left = right :=
    congrArg ChanceNode.id same
  refine (List.perm_ext_iff_of_nodup reduces.reducedBuilt.chanceNodes_nodup
    (reduces.nodup.map fun left right => sameId left right)).2 fun node => ?_
  rw [reduces.reducedBuilt.mem_chanceNodes_iff, reduces.chanceNode?_eq, List.mem_map]
  constructor
  · intro found
    split at found
    next listed => exact ⟨node.id, listed, Option.some.inj found⟩
    next => cases found
  · rintro ⟨name, listed, rfl⟩
    exact if_pos listed

theorem get?_domains (reduces : Reduces network plan reduced) (name : String) :
    reduced.domains.get? name =
      if name ∈ plan.order then some (rebuiltNode network plan name).values else none := by
  rw [reduces.reducedBuilt.get?_domains, reduces.chanceNode?_eq]
  split <;> rfl

section Positive

variable (reduces : Reduces network plan reduced) (nonnegative : network.Nonnegative)
  (positive : 0 < evidenceMass network plan.evidence)
include reduces positive

/-- The domains of the rebuilt network are those of its variables. -/
theorem domains_eq : reduced.domains = network.domains.among plan.order := by
  refine SortedMap.ext_get? fun name => ?_
  rw [reduces.get?_domains, Domains.get?_among, reduces.built.get?_domains]
  split
  next listed =>
      obtain ⟨node, found⟩ := Option.isSome_iff_exists.1 (reduces.chance name listed)
      obtain ⟨parents, member, parentsMass⟩ :=
        exists_partMass_pos (plan.inputsOf name).toList positive
      rw [found, Option.map_some, values_rebuiltNode reduces.built found member]
      rwa [evidenceMass_compose parentsMass]
  next => rfl

include nonnegative

/-- The joint distribution of the rebuilt network is the posterior of its variables. -/
theorem weight_eq (member : row ∈ (network.domains.among plan.order).combinations) :
    weight reduced row =
      partMass network plan.evidence row / evidenceMass network plan.evidence := by
  have product := prod_probability_rebuiltNode reduces.built nonnegative reduces.connected
    reduces.chance positive member (List.append_nil plan.order).symm
  rw [Domains.restrict_eq_self member] at product
  rw [weight_eq_prod, (reduces.chanceNodes_perm.map _).prod_eq, List.map_map, ← product]
  rfl

/-- Masses of the rebuilt network are conditional probabilities in the whole one. -/
theorem mass_eq {test : Assignment → Bool}
    (dependsOnParts : ∀ row ∈ network.rows, test (row.restrict plan.order) = test row) :
    mass reduced test =
      (mass network fun row => row.contains plan.evidence && test row) /
        evidenceMass network plan.evidence := by
  have weights : (reduced.rows.filter test).map (weight reduced) =
      ((network.domains.among plan.order).combinations.filter test).map fun row =>
        partMass network plan.evidence row / evidenceMass network plan.evidence := by
    rw [Network.rows, reduces.domains_eq positive]
    refine List.map_congr_left fun row selected => ?_
    rw [reduces.weight_eq nonnegative positive (List.mem_filter.1 selected).1]
  unfold mass
  rw [weights, sum_map_div]
  exact congrArg (· / _) (sum_mass_parts plan.order _ test dependsOnParts)

variable {further : Assignment} (inside : ∀ name ∈ further.names, name ∈ plan.order)
  (agree : plan.evidence.consistentWith further = true)
include inside agree

theorem evidenceMass_eq :
    evidenceMass reduced further =
      evidenceMass network (plan.evidence.compose further) /
        evidenceMass network plan.evidence := by
  have depends : ∀ row ∈ network.rows,
      (row.restrict plan.order).contains further = row.contains further :=
    fun row _ => Assignment.contains_restrict inside
  refine (@mass_eq _ _ _ reduces nonnegative positive (·.contains further) depends).trans ?_
  refine congrArg (· / _) (mass_congr fun row _ => ?_)
  rw [Assignment.contains_compose agree]

theorem partMass_eq (inOrder : names ⊆ plan.order) {part : Assignment}
    (member : part ∈ (network.domains.among names).combinations) :
    partMass reduced further part =
      partMass network (plan.evidence.compose further) part /
        evidenceMass network plan.evidence := by
  have partInside : ∀ name ∈ part.names, name ∈ plan.order :=
    fun name bound => inOrder (Domains.mem_of_mem_names member name bound)
  have depends : ∀ row ∈ network.rows,
      ((row.restrict plan.order).contains further && (row.restrict plan.order).contains part) =
        (row.contains further && row.contains part) := fun row _ => by
    rw [Assignment.contains_restrict inside, Assignment.contains_restrict partInside]
  refine (@mass_eq _ _ _ reduces nonnegative positive
    (fun row => row.contains further && row.contains part) depends).trans ?_
  refine congrArg (· / _) (mass_congr fun row _ => ?_)
  rw [Assignment.contains_compose agree, Bool.and_assoc]

theorem posteriorTable_eq (inOrder : names ⊆ plan.order) :
    posteriorTable reduced names further =
      posteriorTable network names (plan.evidence.compose further) := by
  unfold posteriorTable
  rw [reduces.domains_eq positive, Domains.among_among inOrder]
  refine congrArg CategoricalTable.ofList (List.map_congr_left fun part member => ?_)
  rw [reduces.partMass_eq nonnegative positive inside agree inOrder member,
    reduces.evidenceMass_eq nonnegative positive inside agree,
    div_div_div_cancel_right₀ positive.ne']

end Positive

section Zero

/-- Without any mass for the evidence the first variable of the plan loses all its values. -/
theorem rows_eq_nil (reduces : Reduces network plan reduced) (nonempty : plan.order ≠ [])
    (zero : ¬ 0 < evidenceMass network plan.evidence) : reduced.rows = [] := by
  obtain ⟨first, after, split⟩ := List.exists_cons_of_ne_nil nonempty
  have noInputs (input : String) : input ∉ (plan.inputsOf first).toList := fun reads => by
    cases ((reduces.connected [] first after split input).1 reads).1
  have noValues : (rebuiltNode network plan first).values = [] := by
    refine values_rebuiltNode_eq_nil fun parents member => ?_
    have same : plan.evidence.compose parents = plan.evidence := by
      ext1 name
      rw [Assignment.value?_compose, Domains.value?_eq_none_of_not_mem member (noInputs name),
        Option.none_or]
    rwa [same]
  have emptyDomain : reduced.domains.get? first = some [] := by
    rw [reduces.get?_domains, if_pos (split ▸ List.mem_cons_self), noValues]
  refine List.eq_nil_iff_forall_not_mem.2 fun row member => ?_
  obtain ⟨value, picked, _⟩ := (Domains.mem_combinations_iff.1 member).1 first [] emptyDomain
  cases picked

/-- The rebuilt network has no values that the whole one lacks. -/
theorem combinations_subset (reduces : Reduces network plan reduced)
    (inOrder : names ⊆ plan.order) :
    (reduced.domains.among names).combinations ⊆ (network.domains.among names).combinations := by
  intro part member
  obtain ⟨picks, unbound⟩ := Domains.mem_combinations_iff.1 member
  refine Domains.mem_combinations_iff.2 ⟨fun name domain found => ?_, fun name absent => ?_⟩
  · rw [Domains.get?_among] at found
    split at found
    next listed =>
        obtain ⟨node, isNode⟩ := Option.isSome_iff_exists.1 (reduces.chance name (inOrder listed))
        rw [reduces.built.get?_domains, isNode, Option.map_some, Option.some.injEq] at found
        subst found
        have rebuilt : (reduced.domains.among names).get? name =
            some (rebuiltNode network plan name).values := by
          rw [Domains.get?_among, if_pos listed, reduces.get?_domains, if_pos (inOrder listed)]
        obtain ⟨value, picked, bound⟩ := picks name _ rebuilt
        by_cases kept : ∃ parents ∈
            (network.domains.among (plan.inputsOf name).toList).combinations,
            0 < evidenceMass network (plan.evidence.compose parents)
        · obtain ⟨parents, parentsMember, parentsMass⟩ := kept
          rw [values_rebuiltNode reduces.built isNode parentsMember parentsMass] at picked
          exact ⟨value, picked, bound⟩
        · rw [values_rebuiltNode_eq_nil fun parents parentsMember parentsMass =>
            kept ⟨parents, parentsMember, parentsMass⟩] at picked
          cases picked
    next => cases found
  · refine unbound name ?_
    rw [Domains.get?_among] at absent ⊢
    split at absent
    next listed =>
        obtain ⟨node, isNode⟩ := Option.isSome_iff_exists.1 (reduces.chance name (inOrder listed))
        rw [reduces.built.get?_domains, isNode] at absent
        cases absent
    next unlisted => rw [if_neg unlisted]

end Zero

end Reduces

theorem posterior_eq_of_not_pos (built : network.Built) {names : List String}
    (chance : ∀ name ∈ names, (network.chanceNode? name).isSome)
    (within : (network.domains.among names).count ≤ settings.maxAssignments)
    (jointWithin : network.domains.count ≤ settings.maxAssignments)
    (zero : ¬ 0 < evidenceMass network evidence) :
    posterior settings network names evidence = .error (.degenerateQuery evidence) := by
  rw [posterior_eq built chance within jointWithin, if_neg zero]

section Queries

variable {plan : ReductionPlan} {reduced : Network ℚ} {names : List String} {further : Assignment}

theorem Reduces.isSome_chanceNode? (reduces : Reduces network plan reduced)
    (inOrder : names ⊆ plan.order) : ∀ name ∈ names, (reduced.chanceNode? name).isSome := by
  intro name member
  rw [reduces.chanceNode?_eq, if_pos (inOrder member)]
  rfl

/-- With positive mass both networks answer alike, or refuse both. -/
theorem Reduces.posterior_agree (reduces : Reduces network plan reduced)
    (nonnegative : network.Nonnegative) (positive : 0 < evidenceMass network plan.evidence)
    (within : network.domains.count ≤ settings.maxAssignments) (inOrder : names ⊆ plan.order)
    (inside : ∀ name ∈ further.names, name ∈ plan.order)
    (agree : plan.evidence.consistentWith further = true) :
    (∃ table, posterior settings reduced names further = .ok table ∧
      posterior settings network names (plan.evidence.compose further) = .ok table) ∨
    (posterior settings reduced names further = .error (.degenerateQuery further) ∧
      posterior settings network names (plan.evidence.compose further) =
        .error (.degenerateQuery (plan.evidence.compose further))) := by
  have partWithin (names : List String) :
      (network.domains.among names).count ≤ settings.maxAssignments :=
    (count_among_le_of_mass_pos positive names).trans within
  have chance : ∀ name ∈ names, (network.chanceNode? name).isSome :=
    fun name member => reduces.chance name (inOrder member)
  have reducedWithin : (reduced.domains.among names).count ≤ settings.maxAssignments := by
    rw [reduces.domains_eq positive, Domains.among_among inOrder]
    exact partWithin names
  have reducedJointWithin : reduced.domains.count ≤ settings.maxAssignments := by
    rw [reduces.domains_eq positive]
    exact partWithin plan.order
  have sameSign : 0 < evidenceMass reduced further ↔
      0 < evidenceMass network (plan.evidence.compose further) := by
    rw [reduces.evidenceMass_eq nonnegative positive inside agree]
    exact div_pos_iff_of_pos_right positive
  rw [posterior_eq reduces.reducedBuilt (reduces.isSome_chanceNode? inOrder) reducedWithin
      reducedJointWithin,
    posterior_eq reduces.built chance (partWithin names) within]
  by_cases hasMass : 0 < evidenceMass network (plan.evidence.compose further)
  · rw [if_pos hasMass, if_pos (sameSign.2 hasMass),
      reduces.posteriorTable_eq nonnegative positive inside agree inOrder]
    exact Or.inl ⟨_, rfl, rfl⟩
  · rw [if_neg hasMass, if_neg (mt sameSign.1 hasMass)]
    exact Or.inr ⟨rfl, rfl⟩

/-- The joint distribution of the rebuilt network is the answer to the query for its variables. -/
theorem Reduces.fullJoint_eq (reduces : Reduces network plan reduced)
    (nonnegative : network.Nonnegative) (positive : 0 < evidenceMass network plan.evidence)
    (within : network.domains.count ≤ settings.maxAssignments) :
    fullJoint settings reduced false =
      .ok (posteriorTable network plan.order plan.evidence).rows := by
  have reducedWithin : reduced.domains.count ≤ settings.maxAssignments := by
    rw [reduces.domains_eq positive]
    exact (count_among_le_of_mass_pos positive plan.order).trans within
  rw [Inference.fullJoint_eq reducedWithin, Network.rows, reduces.domains_eq positive]
  refine congrArg (fun rows => Except.ok (SortedMap.ofList rows)) ?_
  refine List.map_congr_left fun row member => ?_
  rw [reduces.weight_eq nonnegative positive member]

/-- Without any mass the rebuilt network refuses every query. -/
theorem Reduces.posterior_degenerate (reduces : Reduces network plan reduced)
    (nonempty : plan.order ≠ []) (zero : ¬ 0 < evidenceMass network plan.evidence)
    (inOrder : names ⊆ plan.order)
    (within : (network.domains.among names).count ≤ settings.maxAssignments) :
    posterior settings reduced names further = .error (.degenerateQuery further) := by
  have noRows := reduces.rows_eq_nil nonempty zero
  have reducedWithin : (reduced.domains.among names).count ≤ settings.maxAssignments :=
    (Domains.count_le_of_subset (reduces.combinations_subset inOrder)).trans within
  have reducedJointWithin : reduced.domains.count ≤ settings.maxAssignments := by
    have noCombinations : reduced.domains.combinations = [] := noRows
    rw [Domains.count_eq_min, noCombinations]
    exact Nat.zero_le _
  refine posterior_eq_of_not_pos reduces.reducedBuilt (reduces.isSome_chanceNode? inOrder)
    reducedWithin reducedJointWithin ?_
  rw [evidenceMass, mass, noRows]
  exact lt_irrefl 0

end Queries

/-- The network over some of the chance variables given the evidence. Its joint distribution is the
posterior of those variables; it answers every query about them as the whole network does under the
evidence composed with what else is given; and if the evidence has no mass both refuse. -/
theorem reduce_represents (built : network.Built) (nonnegative : network.Nonnegative)
    {retained : List String} (nonempty : retained ≠ [])
    (chance : ∀ name ∈ retained, (network.chanceNode? name).isSome)
    (within : (jointDomains network false).count ≤ settings.maxAssignments)
    (partsWithin : evidenceMass network evidence = 0 → ∀ names ⊆ retained,
      (network.domains.among names).count ≤ settings.maxAssignments) :
    ∃ reduced,
      reduce settings network (.ofNetwork network retained evidence) = .ok reduced ∧
      (0 < evidenceMass network evidence →
        (∃ table, posterior settings network retained evidence = .ok table ∧
          fullJoint settings reduced false = .ok table.rows) ∧
        ∀ names ⊆ retained, ∀ further : Assignment, (∀ name ∈ further.names, name ∈ retained) →
          evidence.consistentWith further = true →
          (∃ table, posterior settings reduced names further = .ok table ∧
            posterior settings network names (evidence.compose further) = .ok table) ∨
          (posterior settings reduced names further = .error (.degenerateQuery further) ∧
            posterior settings network names (evidence.compose further) =
              .error (.degenerateQuery (evidence.compose further)))) ∧
      (evidenceMass network evidence = 0 → ∀ names ⊆ retained, ∀ further : Assignment,
        posterior settings reduced names further = .error (.degenerateQuery further) ∧
        (evidence.consistentWith further = true →
          posterior settings network names (evidence.compose further) =
            .error (.degenerateQuery (evidence.compose further)))) := by
  let plan := ReductionPlan.ofNetwork network retained evidence
  have inPlan (name : String) : name ∈ plan.order ↔ name ∈ retained :=
    ReductionPlan.mem_order_iff built
  have toPlan {names : List String} (part : names ⊆ retained) : names ⊆ plan.order :=
    fun name member => (inPlan name).2 (part member)
  have planChance : ∀ name ∈ plan.order, (network.chanceNode? name).isSome :=
    fun name member => chance name ((inPlan name).1 member)
  have partWithin : ∀ names ⊆ plan.order,
      (network.domains.among names).count ≤ settings.maxAssignments := by
    intro names part
    rcases (mass_nonneg nonnegative _).eq_or_lt with zero | positive
    · exact partsWithin zero.symm names fun name member => (inPlan name).1 (part member)
    · exact (count_among_le_of_mass_pos positive names).trans within
  obtain ⟨reduced, success, reducedBuilt, rebuilds⟩ :=
    reduce_eq built (ReductionPlan.ordered_ofNetwork built) planChance partWithin within
  have reduces : Reduces network plan reduced :=
    ⟨built, reducedBuilt, ReductionPlan.order_nodup built,
      ReductionPlan.readsConnected_ofNetwork built, planChance, rebuilds⟩
  refine ⟨reduced, success, fun positive => ⟨?_, ?_⟩, fun zero names part further => ⟨?_, ?_⟩⟩
  · have sameDomains : network.domains.among plan.order = network.domains.among retained :=
      Domains.among_congr inPlan
    have sameTable : posteriorTable network plan.order evidence =
        posteriorTable network retained evidence := by
      rw [posteriorTable, sameDomains, posteriorTable]
    refine ⟨posteriorTable network retained evidence, ?_, ?_⟩
    · rw [posterior_eq built chance (partWithin retained (toPlan (List.Subset.refl _))) within,
        if_pos positive]
    · rw [reduces.fullJoint_eq nonnegative positive within, ← sameTable]
      rfl
  · intro names part further inside agree
    exact reduces.posterior_agree nonnegative positive within (toPlan part)
      (fun name bound => (inPlan name).2 (inside name bound)) agree
  · have someVariable : plan.order ≠ [] := by
      obtain ⟨first, rest, rfl⟩ := List.exists_cons_of_ne_nil nonempty
      exact List.ne_nil_of_mem ((inPlan first).2 List.mem_cons_self)
    exact reduces.posterior_degenerate someVariable zero.not_gt (toPlan part)
      (partWithin names (toPlan part))
  · intro agree
    refine posterior_eq_of_not_pos built (fun name member => chance name (part member))
      (partWithin names (toPlan part)) within ?_
    have below : evidenceMass network (evidence.compose further) ≤ evidenceMass network evidence :=
      mass_mono nonnegative fun row _ passes => by
        rw [Assignment.contains_compose agree, Bool.and_eq_true] at passes
        exact passes.1
    exact (below.trans zero.le).not_gt

/-- The coin that both reports depend on is left out. -/
theorem reduce_represents_coinWithEchoes :
    ["first", "second"] ≠ [] ∧
      0 < evidenceMass coinWithEchoes (.single "second" (.boolean false)) ∧
      ∃ reduced table,
        reduce {} coinWithEchoes (.ofNetwork coinWithEchoes ["first", "second"]
          (.single "second" (.boolean false))) = .ok reduced ∧
        posterior {} coinWithEchoes ["first", "second"] (.single "second" (.boolean false)) =
          .ok table ∧
        fullJoint {} reduced false = .ok table.rows := by
  have nonempty : ["first", "second"] ≠ [] := List.cons_ne_nil _ _
  have chance : ∀ name ∈ ["first", "second"], (coinWithEchoes.chanceNode? name).isSome := by
    decide +kernel
  have positive : 0 < evidenceMass coinWithEchoes (.single "second" (.boolean false)) := by
    decide +kernel
  have within : (jointDomains coinWithEchoes false).count ≤ Settings.maxAssignments {} := by
    decide +kernel
  obtain ⟨reduced, success, represented, _⟩ :=
    reduce_represents coinWithEchoes_built (by decide +kernel) nonempty chance within
      fun zero => absurd zero positive.ne'
  obtain ⟨⟨table, answer, joint⟩, _⟩ := represented positive
  exact ⟨nonempty, positive, reduced, table, success, answer, joint⟩

end DecisionNetwork.Inference
