import DecisionNetwork.Proofs.Inference.ExpectedUtility
import DecisionNetwork.Proofs.Inference.Marginal

/-!
Contract: nodes that nothing reads change no answer, over exact numbers.

Owns:
- `posterior_of_add` and `expectedUtilities_of_add`, the two kinds of queries before and after a
  normalised variable was added;
- `queries_of_add`, both together.

A node is barren right after it was added, and queries that do not name it sum it out.
-/

namespace DecisionNetwork

open Assignment

namespace UtilityNode

variable {α : Type} [Scalar α]

/-- A utility depends on the values of the inputs. -/
theorem evaluate_congr (node : UtilityNode α) {left right : Assignment}
    (same : ∀ input ∈ node.inputs.toList, left.value? input = right.value? input)
    (library : RuleLibrary α) : node.evaluate left library = node.evaluate right library := by
  have inputs : left.restrict node.inputs.toList = right.restrict node.inputs.toList := by
    ext1 name
    rw [value?_restrict, value?_restrict]
    split
    next reads => exact same name reads
    next => rfl
  unfold evaluate
  rw [inputs]

end UtilityNode

namespace Network

variable {α : Type} {network next : Network α} {node : Node α}

theorem mem_nodeList_of_mem_utilityNodes {utility : UtilityNode α}
    (member : utility ∈ network.utilityNodes) : Node.utility utility ∈ network.nodeList := by
  obtain ⟨stored, listed, isUtility⟩ := List.mem_filterMap.1 member
  cases stored with
  | utility other =>
      cases isUtility
      exact listed
  | chance => cases isUtility
  | action => cases isUtility

/-- Adding a variable adds no utility. -/
theorem utilityNodes_of_add (added : network.add node = .ok next)
    (isVariable : node.kind ≠ .utility) : next.utilityNodes.Perm network.utilityNodes := by
  unfold utilityNodes
  refine ((nodeList_of_add added).filterMap _).trans ?_
  cases node with
  | chance node => exact List.Perm.refl _
  | action node => exact List.Perm.refl _
  | utility node => exact absurd rfl isVariable

theorem chanceNode?_of_add (added : network.add node = .ok next) {id : String}
    (apart : id ≠ node.id) : next.chanceNode? id = network.chanceNode? id := by
  unfold chanceNode?
  rw [node?_of_add added, if_neg apart]

/-- A node that reads chance nodes reads nodes of the joint distribution. -/
theorem Built.readsEnumerated_of_chance (built : network.Built)
    (reads : ∀ input ∈ node.inputs.toList, (network.chanceNode? input).isSome)
    (withActions : Bool) : node.ReadsEnumerated network withActions := by
  intro input listed
  obtain ⟨read, found⟩ := Option.isSome_iff_exists.1 (reads input listed)
  have sameId : read.id = input := built.chanceNode_id found
  subst sameId
  exact ⟨.chance read, built.mem_enumerated_iff.2 ⟨chanceNode?_eq_some_iff.1 found, rfl⟩, rfl⟩

end Network

namespace Inference

open Network

section Added

variable {network next : Network ℚ} {node : Node ℚ} {settings : Settings}
  {names : List String} {evidence : Assignment} {library : RuleLibrary ℚ}
  (built : network.Built) (added : network.add node = .ok next)
include added

section Utility

variable (isVariable : node.kind ≠ .utility)

include isVariable in
theorem utility_of_add (full : Assignment) :
    next.utility library full = network.utility library full :=
  ((utilityNodes_of_add added isVariable).map _).sum_eq

include built in
theorem blind_utility_of_add (action : Assignment) :
    Blind node.id fun row => network.utility library (row.compose action) := by
  intro row value
  refine congrArg List.sum (List.map_congr_left fun utility member => ?_)
  have inputsApart :=
    (ne_of_mem_nodeList added built (mem_nodeList_of_mem_utilityNodes member)).2
  rw [utility.evaluate_congr]
  intro input reads
  rw [value?_compose, value?_compose, value?_bind_of_ne row value (inputsApart input reads)]

end Utility

theorem chanceDomains_of_add (apart : ∀ name ∈ names, name ≠ node.id) :
    chanceDomains settings next names = chanceDomains settings network names := by
  unfold chanceDomains
  rw [mapM_congr]
  intro name member
  rw [chanceNode?_of_add added (apart name member)]

variable (normalised : node.Normalised network)
  (reads : ∀ input ∈ node.inputs.toList, (network.chanceNode? input).isSome)
include built normalised reads

theorem mass_of_add {test : Assignment → Bool} (blind : Blind node.id test) :
    mass next test = mass network test := by
  rw [mass_eq_sum, mass_eq_sum]
  exact sum_probability_of_add_of_blind built added (fun _ => normalised)
    (fun _ => built.readsEnumerated_of_chance reads false) blind

theorem expectedUtility_of_add (isVariable : node.kind ≠ .utility)
    (absent : node.id ∉ evidence.names) (action : Assignment) :
    expectedUtility next library evidence action =
      expectedUtility network library evidence action := by
  have reads := built.readsEnumerated_of_chance reads true
  unfold expectedUtility
  simp only [utility_of_add added isVariable]
  rw [sum_filter_of_add_of_blind built added (fun _ => normalised) (fun _ => reads)
      (blind_contains absent) (blind_utility_of_add built added action),
    jointMass_of_add_of_not_mem built added (fun _ => normalised) (fun _ => reads) absent]

variable (apart : ∀ name ∈ names, name ≠ node.id) (evidenceAbsent : node.id ∉ evidence.names)
include apart evidenceAbsent

theorem posteriorTable_of_add :
    posteriorTable next names evidence = posteriorTable network names evidence := by
  have sameDomains : next.domains.among names = network.domains.among names :=
    among_jointDomains_of_add added built apart false
  have evidenceBlind : Blind node.id (·.contains evidence) := blind_contains evidenceAbsent
  unfold posteriorTable evidenceMass
  rw [sameDomains, mass_of_add built added normalised reads evidenceBlind]
  refine congrArg (fun rows => CategoricalTable.ofList rows)
    (List.map_congr_left fun part member => ?_)
  have partAbsent : node.id ∉ part.names := fun bound =>
    apart node.id (Domains.mem_of_mem_names member node.id bound) rfl
  unfold partMass
  rw [mass_of_add built added normalised reads (evidenceBlind.and (blind_contains partAbsent))]

/-- A distribution does not change when a normalised node is added, nor does a refusal. -/
theorem posterior_of_add
    (domainsWithin : (network.domains.among names).count ≤ settings.maxAssignments)
    (nextWithin : next.domains.count ≤ settings.maxAssignments) :
    posterior settings next names evidence = posterior settings network names evidence := by
  have within : network.domains.count ≤ settings.maxAssignments :=
    (count_jointDomains_le_of_add built added false (fun _ => normalised)
      fun _ => built.readsEnumerated_of_chance reads false).trans nextWithin
  cases taken : chanceDomains settings network names with
  | error failure =>
      unfold posterior
      rw [chanceDomains_of_add added apart, taken]
      rfl
  | ok domains =>
      have chance := isSome_of_chanceDomains_eq_ok taken
      have nextChance : ∀ name ∈ names, (next.chanceNode? name).isSome := by
        intro name member
        rw [chanceNode?_of_add added (apart name member)]
        exact chance name member
      have sameDomains : next.domains.among names = network.domains.among names :=
        among_jointDomains_of_add added built apart false
      rw [posterior_eq (built.add added) nextChance (sameDomains ▸ domainsWithin) nextWithin,
        posterior_eq built chance domainsWithin within,
        posteriorTable_of_add built added normalised reads apart evidenceAbsent, evidenceMass,
        evidenceMass, mass_of_add built added normalised reads (blind_contains evidenceAbsent)]

/-- Expected utilities do not change when a normalised variable is added. -/
theorem expectedUtilities_of_add (isVariable : node.kind ≠ .utility)
    (present : ∀ name ∈ names, network.contains name = true)
    (domainsWithin : (network.nodeValues.among names).count ≤ settings.maxAssignments)
    (nextWithin : (jointDomains next true).count ≤ settings.maxAssignments) :
    (expectedUtilities settings next names evidence library).map Prod.fst =
      (expectedUtilities settings network names evidence library).map Prod.fst := by
  have enumerated := built.readsEnumerated_of_chance reads true
  have within : (jointDomains network true).count ≤ settings.maxAssignments :=
    (count_jointDomains_le_of_add built added true (fun _ => normalised)
      fun _ => enumerated).trans nextWithin
  have sameDomains : next.nodeValues.among names = network.nodeValues.among names :=
    among_nodeValues_of_add added apart
  have nextPresent : ∀ name ∈ names, next.contains name = true := by
    intro name member
    obtain ⟨stored, found⟩ := Network.contains_iff.1 (present name member)
    rw [Network.contains_iff, node?_of_add added, if_neg (apart name member)]
    exact ⟨stored, found⟩
  rw [expectedUtilities_eq (built.add added) nextPresent (sameDomains ▸ domainsWithin) nextWithin,
    expectedUtilities_eq built present domainsWithin within, sameDomains,
    jointMass_of_add_of_not_mem built added (fun _ => normalised) (fun _ => enumerated)
      evidenceAbsent]
  simp only [expectedUtility_of_add built added normalised reads isVariable evidenceAbsent]

end Added

/-- Adding a chance node whose local probabilities add up to one, or an action with a value, changes
no answer to a query about the older nodes, be it a table or a refusal. -/
theorem queries_of_add {network next : Network ℚ} {node : Node ℚ} {settings : Settings}
    (built : network.Built) (added : network.add node = .ok next)
    (isVariable : node.kind ≠ .utility)
    (reads : ∀ input ∈ node.inputs.toList, (network.chanceNode? input).isSome)
    (normalised : node.Normalised network) {names : List String} {evidence : Assignment}
    (present : ∀ name ∈ names, network.contains name = true)
    (evidencePresent : ∀ name ∈ evidence.names, network.contains name = true) :
    ((network.domains.among names).count ≤ settings.maxAssignments →
      (jointDomains next false).count ≤ settings.maxAssignments →
        posterior settings next names evidence = posterior settings network names evidence) ∧
    ((network.nodeValues.among names).count ≤ settings.maxAssignments →
      (jointDomains next true).count ≤ settings.maxAssignments →
        ∀ library,
          (expectedUtilities settings next names evidence library).map Prod.fst =
            (expectedUtilities settings network names evidence library).map Prod.fst) := by
  have apart : ∀ name ∈ names, name ≠ node.id := fun name member =>
    ne_of_contains added (present name member)
  have evidenceAbsent : node.id ∉ evidence.names := fun bound =>
    ne_of_contains added (evidencePresent node.id bound) rfl
  constructor
  · intro domainsWithin nextWithin
    exact posterior_of_add built added normalised reads apart evidenceAbsent domainsWithin
      nextWithin
  · intro domainsWithin nextWithin library
    exact expectedUtilities_of_add built added normalised reads apart evidenceAbsent isVariable
      present domainsWithin nextWithin

/-- The wager on a coin that is reported once more. -/
def wagerWithSecondEcho : Network ℚ :=
  ⟨wager.nodes.insert "second" (.chance (echo "second"))⟩

theorem queries_of_add_secondEcho :
    wager.add (.chance (echo "second")) = .ok wagerWithSecondEcho ∧
      (Node.chance (echo "second")).Normalised wager ∧
      posterior {} wagerWithSecondEcho ["coin"] (.single "first" (.boolean false)) =
        posterior {} wager ["coin"] (.single "first" (.boolean false)) ∧
      ∀ library,
        (expectedUtilities {} wagerWithSecondEcho ["call"] (.single "first" (.boolean false))
            library).map Prod.fst =
          (expectedUtilities {} wager ["call"] (.single "first" (.boolean false))
            library).map Prod.fst := by
  have added : wager.add (.chance (echo "second")) = .ok wagerWithSecondEcho :=
    add_eq_ok_iff.2 ⟨by decide +kernel, by decide +kernel, rfl⟩
  have normalised : (Node.chance (echo "second")).Normalised wager := by decide +kernel
  have present : ∀ name ∈ ["coin"], wager.contains name = true := by decide +kernel
  have actionPresent : ∀ name ∈ ["call"], wager.contains name = true := by decide +kernel
  have evidencePresent :
      ∀ name ∈ (Assignment.single "first" (.boolean false)).names, wager.contains name = true := by
    decide +kernel
  have distributions := @queries_of_add _ _ _ {} wager_built added (by decide) (by decide +kernel)
    normalised _ _ present evidencePresent
  have utilities := @queries_of_add _ _ _ {} wager_built added (by decide) (by decide +kernel)
    normalised _ _ actionPresent evidencePresent
  refine ⟨added, normalised, distributions.1 ?_ ?_, utilities.2 ?_ ?_⟩ <;> decide +kernel

end Inference

end DecisionNetwork
