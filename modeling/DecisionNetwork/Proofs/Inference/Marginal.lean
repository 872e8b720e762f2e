import DecisionNetwork.Proofs.Inference.Extension

/-!
Contract: the marginals of a joint distribution, over exact numbers.

Owns:
- `Network.IncludesInputs`, variables that include the inputs of each of them;
- `jointMass_of_add`, what a node that was added contributes to a mass;
- `jointMass_eq_localProduct`: the mass of values for such variables is the product of their local
  probabilities;
- `fullJoint_marginal`, the same of the rows that are enumerated.

Rows are enumerated in the order of the identifiers. The proof takes the nodes in the order in which
they were added instead: no node reads one that was added later.
-/

namespace DecisionNetwork

/-- Whether some variables include the inputs of each of them. -/
def Network.IncludesInputs {α : Type} (network : Network α) (withActions : Bool)
    (names : List String) : Prop :=
  ∀ node ∈ network.enumerated withActions, node.id ∈ names →
    ∀ input ∈ node.inputs.toList, input ∈ names

instance {α : Type} (network : Network α) (withActions : Bool) (names : List String) :
    Decidable (network.IncludesInputs withActions names) :=
  inferInstanceAs (Decidable (∀ node ∈ network.enumerated withActions, node.id ∈ names →
    ∀ input ∈ node.inputs.toList, input ∈ names))

namespace Inference

open Network

/-- The product of the local probabilities of some of the variables. -/
def localProduct (network : Network ℚ) (withActions : Bool) (names : List String)
    (row : Assignment) : ℚ :=
  (((network.enumerated withActions).filter fun node => node.id ∈ names).map
    (Node.localProbability row)).prod

variable {network : Network ℚ} {withActions : Bool} {names : List String} {part : Assignment}

theorem jointMass_eq_sum_compose
    (member : part ∈ ((jointDomains network withActions).among names).combinations) :
    jointMass network withActions part =
      ∑ rest ∈ ((jointDomains network withActions).without names).combinationSet,
        jointProbability network withActions (rest.compose part) :=
  Domains.sum_filter_contains member _

section Added

variable {next : Network ℚ} {node : Node ℚ} (built : network.Built)
  (added : network.add node = .ok next)
include added

theorem localProduct_of_add (row : Assignment) :
    localProduct next withActions names row =
      (if node.isEnumerated withActions = true ∧ node.id ∈ names then node.localProbability row
        else 1) * localProduct network withActions names row := by
  have listed := (enumerated_of_add added withActions).filter fun node => node.id ∈ names
  rw [localProduct, (listed.map (Node.localProbability row)).prod_eq]
  by_cases isEnumerated : node.isEnumerated withActions = true
  · rw [if_pos isEnumerated, List.filter_cons]
    by_cases isListed : node.id ∈ names
    · rw [if_pos (decide_eq_true isListed), if_pos ⟨isEnumerated, isListed⟩, List.map_cons,
        List.prod_cons]
      rfl
    · rw [if_neg (mt of_decide_eq_true isListed), if_neg (mt And.right isListed), one_mul]
      rfl
  · rw [if_neg isEnumerated, if_neg (mt And.left isEnumerated), one_mul]
    rfl

include built

theorem localProduct_without_of_add (row : Assignment) :
    localProduct network withActions names (row.without [node.id]) =
      localProduct network withActions names row := by
  refine congrArg List.prod (List.map_congr_left fun other member => ?_)
  have inNetwork := (List.mem_filter.1 (List.mem_filter.1 member).1).1
  obtain ⟨ownApart, inputsApart⟩ := ne_of_mem_nodeList added built inNetwork
  apply Node.localProbability_congr
  · rw [Assignment.value?_without, if_neg (mt List.mem_singleton.1 ownApart)]
  · intro input reads
    rw [Assignment.value?_without, if_neg (mt List.mem_singleton.1 (inputsApart input reads))]

theorem without_mem_of_add
    (member : part ∈ ((jointDomains next withActions).among names).combinations) :
    part.without [node.id] ∈ ((jointDomains network withActions).among names).combinations := by
  have kept := @Domains.without_mem_combinations _ [node.id] _ member
  rwa [Domains.among_without, without_jointDomains_of_add added built] at kept

/-- A normalised node that a part does not bind is summed out. -/
theorem jointMass_of_add_of_not_mem
    (normalised : node.isEnumerated withActions = true → node.Normalised network)
    (reads : node.isEnumerated withActions = true → node.ReadsEnumerated network withActions)
    (absent : node.id ∉ part.names) :
    jointMass next withActions part = jointMass network withActions part :=
  sum_probability_of_add_of_blind built added normalised reads (Assignment.blind_contains absent)

/-- A node that a part binds together with its inputs contributes its local probability. -/
theorem jointMass_of_add_of_bound
    (member : part ∈ ((jointDomains next withActions).among names).combinations)
    (inputs : ∀ input ∈ node.inputs.toList, input ∈ names)
    (isEnumerated : node.isEnumerated withActions = true) (listed : node.id ∈ names)
    {value : Value} (bound : part.value? node.id = some value) :
    jointMass next withActions part =
      node.localProbability part * jointMass network withActions (part.without [node.id]) := by
  have rests : (jointDomains next withActions).without names =
      (jointDomains network withActions).without names := by
    rw [← without_jointDomains_of_add added built,
      Domains.without_without _ (List.cons_subset.2 ⟨listed, List.nil_subset names⟩)]
  rw [jointMass_eq_sum_compose member,
    jointMass_eq_sum_compose (without_mem_of_add built added member), rests, Finset.mul_sum]
  refine Finset.sum_congr rfl fun rest restMember => ?_
  have fromPart {name : String} (inNames : name ∈ names) :
      (rest.compose part).value? name = part.value? name := by
    rw [Assignment.value?_compose, Domains.value?_eq_none_of_mem restMember inNames, Option.or_none]
  have ownFactor : node.localProbability (rest.compose part) = node.localProbability part :=
    Node.localProbability_congr (fromPart listed) fun input reads => fromPart (inputs input reads)
  rw [jointProbability_of_add added, if_pos isEnumerated, ownFactor,
    ← Assignment.bind_compose_without bound, jointProbability_bind_of_add built added]

/-- A node that was added contributes its local probability where a part binds it together with its
inputs, and is summed out elsewhere. -/
theorem jointMass_of_add
    (normalised : node.isEnumerated withActions = true → node.Normalised network)
    (reads : node.isEnumerated withActions = true → node.ReadsEnumerated network withActions)
    (inputs : node.isEnumerated withActions = true → node.id ∈ names →
      ∀ input ∈ node.inputs.toList, input ∈ names)
    (member : part ∈ ((jointDomains next withActions).among names).combinations) :
    jointMass next withActions part =
      (if node.isEnumerated withActions = true ∧ node.id ∈ names then node.localProbability part
        else 1) * jointMass network withActions (part.without [node.id]) := by
  have picks := Domains.mem_combinations_iff.1 member
  have domain : ((jointDomains next withActions).among names).get? node.id =
      if node.id ∈ names then
        if node.isEnumerated withActions then some node.values else none
      else none := by
    rw [Domains.get?_among, get?_jointDomains_of_add added built]
  by_cases bound : node.isEnumerated withActions = true ∧ node.id ∈ names
  · obtain ⟨isEnumerated, listed⟩ := bound
    rw [if_pos listed, if_pos isEnumerated] at domain
    obtain ⟨value, _, isValue⟩ := picks.1 node.id node.values domain
    rw [if_pos ⟨isEnumerated, listed⟩]
    exact jointMass_of_add_of_bound built added member (inputs isEnumerated listed) isEnumerated
      listed isValue
  · have unbound : part.value? node.id = none := by
      apply picks.2
      rw [domain]
      split
      next listed => rw [if_neg fun isEnumerated => bound ⟨isEnumerated, listed⟩]
      next => rfl
    have absent : node.id ∉ part.names := by simp [Assignment.mem_names_iff, unbound]
    rw [if_neg bound, one_mul, Assignment.without_singleton_of_unbound unbound]
    exact jointMass_of_add_of_not_mem built added normalised reads absent

end Added

/-- The mass of values for variables that include the inputs of each of them is the product of
their local probabilities. -/
theorem jointMass_eq_localProduct (built : network.Built)
    (reads : ∀ node ∈ network.enumerated withActions, node.ReadsEnumerated network withActions)
    (normalised : ∀ node ∈ network.enumerated withActions, node.Normalised network)
    (closed : network.IncludesInputs withActions names)
    (member : part ∈ ((jointDomains network withActions).among names).combinations) :
    jointMass network withActions part = localProduct network withActions names part := by
  induction built generalizing part with
  | empty =>
      rw [jointMass_eq_sum_compose member, Domains.sum_combinationSet]
      cases withActions <;> exact add_zero (1 : ℚ)
  | @add earlier next node built added inductionHypothesis =>
      have older {other : Node ℚ} (inEarlier : other ∈ earlier.enumerated withActions) :
          other ∈ next.enumerated withActions ∧ ∀ input ∈ other.inputs.toList, input ≠ node.id :=
        ⟨mem_enumerated_of_add added inEarlier,
          (ne_of_mem_nodeList added built (List.mem_filter.1 inEarlier).1).2⟩
      have withoutNew : jointMass earlier withActions (part.without [node.id]) =
          localProduct earlier withActions names part := by
        rw [← localProduct_without_of_add built added]
        apply inductionHypothesis
        · intro other inEarlier
          exact readsEnumerated_of_add added (older inEarlier).2 (reads other (older inEarlier).1)
        · intro other inEarlier
          apply (Node.normalised_iff_of_add added (older inEarlier).2).1
          exact normalised other (older inEarlier).1
        · intro other inEarlier
          exact closed other (older inEarlier).1
        · exact without_mem_of_add built added member
      have isNew (isEnumerated : node.isEnumerated withActions = true) :
          node ∈ next.enumerated withActions := by
        apply (enumerated_of_add added withActions).mem_iff.2
        rw [if_pos isEnumerated]
        exact List.mem_cons_self
      have inputsApart : ∀ input ∈ node.inputs.toList, input ≠ node.id :=
        fun _ listed => ne_of_mem_inputs added listed
      rw [localProduct_of_add added, ← withoutNew]
      apply jointMass_of_add built added
      · intro isEnumerated
        apply (Node.normalised_iff_of_add added inputsApart).1
        exact normalised node (isNew isEnumerated)
      · intro isEnumerated
        apply readsEnumerated_of_add added inputsApart
        exact reads node (isNew isEnumerated)
      · intro isEnumerated
        exact closed node (isNew isEnumerated)
      · exact member

/-- In a network of normalised nodes the rows of a joint distribution add up to one, and those that
contain values for variables together with the inputs of each add up to the product of the local
probabilities of these values. -/
theorem fullJoint_marginal (built : network.Built)
    (reads : ∀ node ∈ network.enumerated withActions, node.ReadsEnumerated network withActions)
    (normalised : ∀ node ∈ network.enumerated withActions, node.Normalised network)
    (settings : Settings) :
    ((jointDomains network withActions).count ≤ settings.maxAssignments →
      ∃ joint, fullJoint settings network withActions = .ok joint) ∧
    ∀ joint, fullJoint settings network withActions = .ok joint →
      joint.values.sum = 1 ∧
      ∀ names, network.IncludesInputs withActions names →
        ∀ part ∈ ((jointDomains network withActions).among names).combinations,
          massOf joint.toList part = localProduct network withActions names part := by
  refine ⟨fun within => ⟨_, fullJoint_of_within within⟩, fun joint answer => ?_⟩
  rw [eq_jointRows_of_fullJoint answer]
  have marginal (names : List String) (closed : network.IncludesInputs withActions names)
      (part : Assignment)
      (member : part ∈ ((jointDomains network withActions).among names).combinations) :
      massOf (jointRows network withActions).toList part =
        localProduct network withActions names part := by
    rw [massOf_jointRows]
    exact jointMass_eq_localProduct built reads normalised closed member
  refine ⟨?_, marginal⟩
  have unbound : Assignment.empty ∈
      ((jointDomains network withActions).among []).combinations := by
    apply Domains.mem_combinations_iff.2
    refine ⟨fun name domain found => ?_, fun _ _ => rfl⟩
    rw [Domains.get?_among, if_neg List.not_mem_nil] at found
    cases found
  calc (jointRows network withActions).values.sum
    _ = massOf (jointRows network withActions).toList .empty := by
      unfold massOf
      rw [Scalar.sum_eq_sum]
      exact congrArg (fun rows => (List.map Prod.snd rows).sum) (List.filter_true _).symm
    _ = localProduct network withActions [] .empty :=
      marginal [] (fun _ _ listed => by cases listed) .empty unbound
    _ = 1 := by simp [localProduct]

section CalledCoin

/-- A referee who declares a win: always when the call was right, and by mistake one time out of
ten when it was not. -/
def referee : ChanceNode ℚ where
  id := "won"
  inputs := .ofList ["call", "coin"]
  distribution :=
    let declared (win : ℚ) : CategoricalTable ℚ :=
      .ofList [(.single "won" (.boolean true), win), (.single "won" (.boolean false), 1 - win)]
    let shown (called landed : Bool) : Assignment :=
      .ofList [("call", .boolean called), ("coin", .boolean landed)]
    .conditional (.ofList [(shown true true, declared 1), (shown true false, declared (1 / 10)),
      (shown false true, declared (1 / 10)), (shown false false, declared 1)])

/-- A coin, a call and the referee. -/
def calledCoin : Network ℚ :=
  ⟨((SortedMap.empty.insert "coin" (.chance coin)).insert "call" (.action call)).insert "won"
    (.chance referee)⟩

theorem calledCoin_built : calledCoin.Built := by
  have withCoin := Built.empty.insert (.chance coin) (by decide +kernel) (by decide +kernel)
  have withCall := withCoin.insert (.action call) (by decide +kernel) (by decide +kernel)
  exact withCall.insert (.chance referee) (by decide +kernel) (by decide +kernel)

/-- Either call comes with either side of the coin, as if the referee were not there. -/
theorem fullJoint_marginal_calledCoin :
    (∀ node ∈ calledCoin.enumerated true, node.ReadsEnumerated calledCoin true) ∧
      (∀ node ∈ calledCoin.enumerated true, node.Normalised calledCoin) ∧
      ∃ joint, fullJoint {} calledCoin true = .ok joint ∧
        joint.values.sum = 1 ∧
        ((jointDomains calledCoin true).among ["call", "coin"]).combinations.map
          (massOf joint.toList) = [1 / 8, 3 / 8, 1 / 8, 3 / 8] := by
  have reads : ∀ node ∈ calledCoin.enumerated true, node.ReadsEnumerated calledCoin true := by
    decide +kernel
  have normalised : ∀ node ∈ calledCoin.enumerated true, node.Normalised calledCoin := by
    decide +kernel
  obtain ⟨answers, sums⟩ := fullJoint_marginal calledCoin_built reads normalised {}
  obtain ⟨joint, answer⟩ := answers (by decide +kernel)
  obtain ⟨total, marginal⟩ := sums joint answer
  refine ⟨reads, normalised, joint, answer, total, ?_⟩
  rw [List.map_congr_left (marginal ["call", "coin"] (by decide +kernel))]
  decide +kernel

end CalledCoin

end Inference

end DecisionNetwork
