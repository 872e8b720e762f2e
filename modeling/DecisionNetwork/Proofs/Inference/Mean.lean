import DecisionNetwork.Proofs.Inference.ExpectedUtility
import DecisionNetwork.Proofs.Inference.Extension
import Mathlib.Algebra.BigOperators.Field
import Mathlib.Tactic.Ring

/-!
Contract: expected utilities as mean utilities under the distribution of chance, over exact numbers.

Owns:
- `Network.actionValues` and `actionShare`, the domains of the actions and the prior probability
  that each combination of them has;
- `jointProbability_compose`, the joint probability of a state of chance and a choice of actions;
- `meanUtility`, the utility of actions in a state, averaged over what else may be chosen;
- `expectedUtilities_eq_mean`: where chance does not depend on actions, an expected utility is the
  mean utility in every state weighted by the posterior of the state.

The actions that are asked about override those in the rows. So they are summed over once more than
they count, and their number cancels like the shares do.
-/

namespace DecisionNetwork

namespace Network

variable {α : Type} {network : Network α}

/-- The domains of the actions. -/
def actionValues (network : Network α) : Domains :=
  network.nodeValues.among (network.actionNodes.map ActionNode.id)

theorem Built.without_actions (built : network.Built) :
    (Inference.jointDomains network true).without (network.actionNodes.map ActionNode.id) =
      network.domains := by
  refine SortedMap.ext_get? fun name => ?_
  rw [Domains.get?_without, built.get?_jointDomains, built.get?_domains, chanceNode?]
  cases found : network.node? name with
  | none => split <;> rfl
  | some node =>
      have isAction := @Built.mem_map_id_actionNodes_iff _ _ built name
      rw [found] at isAction
      cases node with
      | chance node => simp [isAction, Node.isEnumerated, Node.values]
      | action node => simp [isAction]
      | utility node => simp [isAction, Node.isEnumerated]

theorem Built.among_actions (built : network.Built) :
    (Inference.jointDomains network true).among (network.actionNodes.map ActionNode.id) =
      network.actionValues := by
  apply built.among_jointDomains
  intro name listed
  obtain ⟨node, member, rfl⟩ := List.mem_map.1 listed
  exact ⟨.action node, built.mem_enumerated_iff.2 ⟨built.mem_actionNodes_iff.1 member, rfl⟩, rfl⟩

theorem Built.combinations_actionValues_ne_nil (built : network.Built)
    (valued : ∀ node ∈ network.actionNodes, node.values ≠ []) :
    network.actionValues.combinations ≠ [] := by
  apply Domains.combinations_ne_nil
  intro name domain found
  rw [actionValues, Domains.get?_among, get?_nodeValues] at found
  split at found
  next listed =>
      obtain ⟨node, member, rfl⟩ := List.mem_map.1 listed
      rw [built.mem_actionNodes_iff.1 member, Option.map_some, Option.some.injEq] at found
      exact found ▸ valued node member
  next => cases found

/-- A chance variable is no action. -/
theorem Built.not_mem_actions (built : network.Built) {name : String}
    (chance : (network.chanceNode? name).isSome) :
    name ∉ network.actionNodes.map ActionNode.id := by
  intro listed
  obtain ⟨node, found⟩ := built.mem_map_id_actionNodes_iff.1 listed
  rw [chanceNode?, found] at chance
  cases chance

end Network

namespace Inference

open Network

/-- The prior probability of a combination of actions. -/
def actionShare (network : Network ℚ) : ℚ :=
  (network.actionNodes.map fun node => (1 : ℚ) / node.values.length).prod

variable {network : Network ℚ} {evidence state choice : Assignment}

theorem actionShare_pos (valued : ∀ node ∈ network.actionNodes, node.values ≠ []) :
    0 < actionShare network := by
  apply List.prod_pos
  intro share listed
  obtain ⟨node, member, rfl⟩ := List.mem_map.1 listed
  have someValue := List.length_pos_iff.2 (valued node member)
  exact div_pos one_pos (Nat.cast_pos.2 someValue)

section Choice

variable (built : network.Built) (member : choice ∈ network.actionValues.combinations)
include member

theorem value?_compose_choice {name : String}
    (noAction : name ∉ network.actionNodes.map ActionNode.id) :
    (state.compose choice).value? name = state.value? name := by
  rw [Assignment.value?_compose, Domains.value?_eq_none_of_not_mem member noAction, Option.none_or]

include built

theorem probability_choice {node : ActionNode} (listed : node ∈ network.actionNodes) :
    node.probability ((state.compose choice).valueOrAbsent node.id) =
      (1 : ℚ) / node.values.length := by
  have found := built.mem_actionNodes_iff.1 listed
  have domain : network.actionValues.get? node.id = some node.values := by
    rw [actionValues, Domains.get?_among, if_pos (List.mem_map_of_mem listed), get?_nodeValues,
      found]
    rfl
  obtain ⟨value, picked, bound⟩ := (Domains.mem_combinations_iff.1 member).1 _ _ domain
  rw [Assignment.valueOrAbsent, Assignment.value?_compose, bound]
  exact node.probability_of_mem (Value.mem_of_mem_distinct picked)

/-- Evidence about chance does not see a choice of actions. -/
theorem contains_compose_choice
    (chance : ∀ name ∈ evidence.names, (network.chanceNode? name).isSome) :
    (state.compose choice).contains evidence = state.contains evidence :=
  Assignment.contains_congr fun name bound =>
    value?_compose_choice member (built.not_mem_actions (chance name bound))

/-- Where chance does not depend on actions, every choice has the same share of a state. -/
theorem jointProbability_compose
    (apart : ∀ node ∈ network.chanceNodes, ∀ input ∈ node.inputs.toList,
      input ∉ network.actionNodes.map ActionNode.id) :
    jointProbability network true (state.compose choice) =
      weight network state * actionShare network := by
  have states : network.chanceNodes.map (fun node =>
      node.probability (state.compose choice) ((state.compose choice).valueOrAbsent node.id)) =
      network.chanceNodes.map fun node =>
        node.probability state (state.valueOrAbsent node.id) := by
    refine List.map_congr_left fun node listed => probability_congr ?_ fun input reads => ?_
    · apply value?_compose_choice member
      apply built.not_mem_actions
      rw [built.mem_chanceNodes_iff.1 listed]
      rfl
    · exact value?_compose_choice member (apart node listed input reads)
  have choices : network.actionNodes.map (fun node =>
      node.probability ((state.compose choice).valueOrAbsent node.id)) =
      network.actionNodes.map fun node => (1 : ℚ) / node.values.length :=
    List.map_congr_left fun node listed => probability_choice built member listed
  unfold jointProbability localProbabilities
  rw [Scalar.productByLogs_eq_prod]
  simp only [if_true]
  rw [List.prod_append, states, choices, weight_eq_prod]
  rfl

end Choice

section Sums

variable (built : network.Built)
  (apart : ∀ node ∈ network.chanceNodes, ∀ input ∈ node.inputs.toList,
    input ∉ network.actionNodes.map ActionNode.id)
  (chance : ∀ name ∈ evidence.names, (network.chanceNode? name).isSome)
include built apart chance

/-- A sum over the joint rows that contain evidence about chance goes over the states of chance
that do and all choices of actions. -/
theorem sum_joint_compose (weigh : Assignment → ℚ) :
    ∑ row ∈ (jointDomains network true).combinationSet with row.contains evidence = true,
        weigh row * jointProbability network true row =
      ∑ state ∈ network.domains.combinationSet with state.contains evidence = true,
        (∑ choice ∈ network.actionValues.combinationSet, weigh (state.compose choice)) *
          (weight network state * actionShare network) := by
  rw [Finset.sum_filter, Domains.sum_split _ (network.actionNodes.map ActionNode.id),
    built.without_actions, built.among_actions, Finset.sum_filter]
  refine Finset.sum_congr rfl fun state _ => ?_
  have terms : ∀ choice ∈ network.actionValues.combinationSet,
      (if (state.compose choice).contains evidence = true then
        weigh (state.compose choice) * jointProbability network true (state.compose choice)
      else 0) =
      if state.contains evidence = true then
        weigh (state.compose choice) * (weight network state * actionShare network) else 0 := by
    intro choice member
    rw [contains_compose_choice built member chance, jointProbability_compose built member apart]
  rw [Finset.sum_congr rfl terms]
  split
  next => rw [Finset.sum_mul]
  next => exact Finset.sum_const_zero

theorem jointMass_eq_evidenceMass :
    jointMass network true evidence =
      evidenceMass network evidence *
        (network.actionValues.combinations.length * actionShare network) := by
  have sums := sum_joint_compose built apart chance fun _ => 1
  simp only [one_mul, Finset.sum_const, Domains.card_combinationSet, nsmul_eq_mul, mul_one] at sums
  rw [jointMass, sums, evidenceMass, mass_eq_sum, Finset.sum_mul]
  refine Finset.sum_congr rfl fun state _ => ?_
  ring

end Sums

/-- The utility of actions in a state of chance, averaged over what else may be chosen. -/
def meanUtility (network : Network ℚ) (library : RuleLibrary ℚ) (names : List String)
    (state action : Assignment) : ℚ :=
  let others := (network.actionValues.without names).combinations
  (others.map fun other => network.utility library ((state.compose other).compose action)).sum /
    others.length

/-- A share that everything is counted with does not matter. -/
theorem share_cancels {count share weight mass total others : ℚ} (cancelled : count * share ≠ 0) :
    count * total * (weight * share) / (mass * (others * count * share)) =
      weight / mass * (total / others) :=
  calc count * total * (weight * share) / (mass * (others * count * share))
    _ = weight * total * (count * share) / (mass * others * (count * share)) := by ring
    _ = weight * total / (mass * others) := mul_div_mul_right _ _ cancelled
    _ = weight / mass * (total / others) := mul_div_mul_comm _ _ _ _

section Asked

variable {names : List String} {action : Assignment} {library : RuleLibrary ℚ}
  (actions : names ⊆ network.actionNodes.map ActionNode.id)
  (asked : action ∈ (network.nodeValues.among names).combinations)
include actions

theorem among_actionValues :
    network.actionValues.among names = network.nodeValues.among names :=
  Domains.among_among actions

include asked

/-- Actions that are asked about override a choice, so that it matters in what else it chooses. -/
theorem sum_choices (state : Assignment) :
    ∑ choice ∈ network.actionValues.combinationSet,
        network.utility library ((state.compose choice).compose action) =
      (network.nodeValues.among names).combinations.length *
        ∑ other ∈ (network.actionValues.without names).combinationSet,
          network.utility library ((state.compose other).compose action) := by
  rw [Domains.sum_split _ names, among_actionValues actions, Finset.mul_sum]
  refine Finset.sum_congr rfl fun other _ => ?_
  have overridden : ∀ part ∈ (network.nodeValues.among names).combinationSet,
      network.utility library ((state.compose (other.compose part)).compose action) =
        network.utility library ((state.compose other).compose action) := by
    intro part member
    rw [Assignment.compose_assoc, Domains.compose_compose_of_mem member asked]
  rw [Finset.sum_congr rfl overridden, Finset.sum_const, Domains.card_combinationSet,
    nsmul_eq_mul]

/-- An expected utility is the mean utility weighted by the conditional probability of chance. -/
theorem expectedUtility_eq_sum (built : network.Built)
    (apart : ∀ node ∈ network.chanceNodes, ∀ input ∈ node.inputs.toList,
      input ∉ network.actionNodes.map ActionNode.id)
    (chance : ∀ name ∈ evidence.names, (network.chanceNode? name).isSome)
    (valued : ∀ node ∈ network.actionNodes, node.values ≠ []) :
    expectedUtility network library evidence action =
      ∑ state ∈ network.domains.combinationSet with state.contains evidence = true,
        weight network state / evidenceMass network evidence *
          meanUtility network library names state action := by
  have lengths := Domains.length_split network.actionValues names
  rw [among_actionValues actions] at lengths
  have cancelled : ((network.nodeValues.among names).combinations.length : ℚ) *
      actionShare network ≠ 0 := by
    apply mul_ne_zero _ (actionShare_pos valued).ne'
    exact Nat.cast_ne_zero.2 (List.length_pos_of_mem asked).ne'
  unfold expectedUtility
  rw [sum_joint_compose built apart chance fun row => network.utility library (row.compose action),
    jointMass_eq_evidenceMass built apart chance, lengths, Finset.sum_div]
  refine Finset.sum_congr rfl fun state _ => ?_
  rw [sum_choices actions asked, Domains.sum_combinationSet, Nat.cast_mul, meanUtility]
  exact share_cancels cancelled

end Asked

section Posterior

theorem among_chance (built : network.Built) :
    network.domains.among (network.chanceNodes.map ChanceNode.id) = network.domains := by
  refine SortedMap.ext_get? fun name => ?_
  rw [Domains.get?_among]
  split
  next => rfl
  next unlisted =>
      rw [built.get?_domains]
      cases found : network.chanceNode? name with
      | none => rfl
      | some node =>
          have sameId := built.chanceNode_id found
          exact absurd (List.mem_map.2
            ⟨node, built.mem_chanceNodes_iff.2 (sameId ▸ found), sameId⟩) unlisted

/-- The mass of a whole state of chance is its weight, if it contains the evidence. -/
theorem partMass_row (built : network.Built) (member : state ∈ network.rows) :
    partMass network evidence state =
      if state.contains evidence = true then weight network state else 0 := by
  have whole {row : Assignment} (listed : row ∈ network.rows) :
      row ∈ (network.domains.among (network.chanceNodes.map ChanceNode.id)).combinations := by
    rwa [among_chance built]
  have isState {row : Assignment} (listed : row ∈ network.rows) :
      row.contains state = true ↔ row = state := by
    rw [Domains.contains_iff_restrict_eq listed (whole member),
      Domains.restrict_eq_self (whole listed)]
  rw [partMass, mass_eq_sum, Finset.sum_filter, Finset.sum_eq_single_of_mem state member]
  · rw [(isState member).2 rfl, Bool.and_true]
  · intro row listed apart
    rw [Bool.eq_false_iff.2 (mt (isState listed).1 apart), Bool.and_false,
      if_neg Bool.false_ne_true]

theorem probability_posteriorTable_chance (built : network.Built) (member : state ∈ network.rows) :
    (posteriorTable network (network.chanceNodes.map ChanceNode.id) evidence).probability state =
      if state.contains evidence = true then weight network state / evidenceMass network evidence
      else 0 := by
  rw [probability_posteriorTable, partMass_row built member, ite_div, zero_div]
  rwa [among_chance built]

end Posterior

/-- There are no more states of chance than joint rows, if every action has a value. -/
theorem count_domains_le (built : network.Built)
    (valued : ∀ node ∈ network.actionNodes, node.values ≠ []) :
    network.domains.count ≤ (jointDomains network true).count := by
  have lengths := Domains.length_split (jointDomains network true)
    (network.actionNodes.map ActionNode.id)
  rw [built.without_actions, built.among_actions] at lengths
  have choices := List.length_pos_iff.2 (built.combinations_actionValues_ne_nil valued)
  have more := Nat.le_mul_of_pos_right network.domains.combinations.length choices
  rw [Domains.count_eq_min, Domains.count_eq_min]
  omega

/-- Where no chance node reads an action and every action has a value, expected utilities are
refused exactly when the distribution of chance is. Otherwise each is the sum over the states of
chance of their probability given the evidence, times the utility averaged over the other actions.
-/
theorem expectedUtilities_eq_mean {settings : Settings} {names : List String}
    (built : network.Built)
    (apart : ∀ node ∈ network.chanceNodes, ∀ input ∈ node.inputs.toList,
      input ∉ network.actionNodes.map ActionNode.id)
    (valued : ∀ node ∈ network.actionNodes, node.values ≠ [])
    (actions : ∀ name ∈ names, name ∈ network.actionNodes.map ActionNode.id)
    (chance : ∀ name ∈ evidence.names, (network.chanceNode? name).isSome)
    (domainsWithin : (network.nodeValues.among names).count ≤ settings.maxAssignments)
    (within : (jointDomains network true).count ≤ settings.maxAssignments)
    (library : RuleLibrary ℚ) :
    (expectedUtilities settings network names evidence library =
        .error (.degenerateQuery evidence) ∧
      posterior settings network (network.chanceNodes.map ChanceNode.id) evidence =
        .error (.degenerateQuery evidence)) ∨
    ∃ table after distribution,
      expectedUtilities settings network names evidence library = .ok (table, after) ∧
      posterior settings network (network.chanceNodes.map ChanceNode.id) evidence =
        .ok distribution ∧
      table.rows.keys.Perm (network.nodeValues.among names).combinations ∧
      ∀ action ∈ (network.nodeValues.among names).combinations,
        table.row action =
          (network.rows.map fun state => distribution.probability state *
            meanUtility network library names state action).sum := by
  have present : ∀ name ∈ names, network.contains name = true := by
    intro name member
    obtain ⟨node, found⟩ := built.mem_map_id_actionNodes_iff.1 (actions name member)
    exact contains_iff.2 ⟨_, found⟩
  have chanceNames : ∀ name ∈ network.chanceNodes.map ChanceNode.id,
      (network.chanceNode? name).isSome := by
    intro name listed
    obtain ⟨node, member, rfl⟩ := List.mem_map.1 listed
    rw [built.mem_chanceNodes_iff.1 member]
    rfl
  have chanceWithin := (count_domains_le built valued).trans within
  have utilities := expectedUtilities_eq built present domainsWithin within evidence library
  have distribution := @posterior_eq _ settings _ evidence built chanceNames
    ((among_chance built).symm ▸ chanceWithin) chanceWithin
  have shares : (0 : ℚ) < network.actionValues.combinations.length * actionShare network := by
    apply mul_pos _ (actionShare_pos valued)
    exact Nat.cast_pos.2 (List.length_pos_iff.2 (built.combinations_actionValues_ne_nil valued))
  rw [jointMass_eq_evidenceMass built apart chance] at utilities
  by_cases positive : 0 < evidenceMass network evidence
  · right
    rw [if_pos (mul_pos positive shares)] at utilities
    rw [if_pos positive] at distribution
    obtain ⟨after, answer⟩ := exists_of_map_fst_eq_ok utilities
    refine ⟨_, after, _, answer, distribution, UtilityTable.keys_ofList_combinations_perm _ _, ?_⟩
    intro action asked
    rw [UtilityTable.row_ofList_combinations _ _ asked,
      expectedUtility_eq_sum actions asked built apart chance valued, Finset.sum_filter,
      Domains.sum_combinationSet]
    refine congrArg List.sum (List.map_congr_left fun state member => ?_)
    rw [probability_posteriorTable_chance built member, ite_mul, zero_mul]
  · left
    rw [if_neg fun mass => positive (pos_of_mul_pos_left mass shares.le)] at utilities
    rw [if_neg positive] at distribution
    exact ⟨eq_error_of_map_eq_error utilities, distribution⟩

/-- A head is more likely than a tail until a tail is reported. Then the coin lies on either side
with the same probability, and either call loses on average, since the higher stake loses more than
it wins. -/
theorem expectedUtilities_eq_mean_wager :
    (∀ node ∈ wager.chanceNodes, ∀ input ∈ node.inputs.toList,
        input ∉ wager.actionNodes.map ActionNode.id) ∧
      (∀ node ∈ wager.actionNodes, node.values ≠ []) ∧
      (∃ table after,
        expectedUtilities {} wager ["call"] (.single "first" (.boolean false)) .empty =
          .ok (table, after) ∧
        (wager.nodeValues.among ["call"]).combinations.map table.row = [-3 / 8, -3 / 8]) ∧
      ∃ table after,
        expectedUtilities {} wager ["call"] .empty .empty = .ok (table, after) ∧
        (wager.nodeValues.among ["call"]).combinations.map table.row = [3 / 4, -3 / 2] := by
  have apart : ∀ node ∈ wager.chanceNodes, ∀ input ∈ node.inputs.toList,
      input ∉ wager.actionNodes.map ActionNode.id := by decide +kernel
  have valued : ∀ node ∈ wager.actionNodes, node.values ≠ [] := by decide +kernel
  have actions : ∀ name ∈ ["call"], name ∈ wager.actionNodes.map ActionNode.id := by
    decide +kernel
  have means (evidence : Assignment)
      (chance : ∀ name ∈ evidence.names, (wager.chanceNode? name).isSome)
      (positive : 0 < evidenceMass wager evidence) :
      ∃ table after, expectedUtilities {} wager ["call"] evidence .empty = .ok (table, after) ∧
        ∀ action ∈ (wager.nodeValues.among ["call"]).combinations,
          table.row action = (wager.rows.map fun state =>
            (posteriorTable wager (wager.chanceNodes.map ChanceNode.id) evidence).probability
              state * meanUtility wager .empty ["call"] state action).sum := by
    have distribution : posterior {} wager (wager.chanceNodes.map ChanceNode.id) evidence =
        .ok (posteriorTable wager (wager.chanceNodes.map ChanceNode.id) evidence) :=
      posterior_of_evidenceMass_pos wager_built (by decide +kernel) (by decide +kernel)
        (by decide +kernel) positive
    obtain ⟨_, refused⟩ | ⟨table, after, found, answer, isDistribution, _, rows⟩ :=
      @expectedUtilities_eq_mean wager evidence {} ["call"] wager_built apart valued actions chance
        (by decide +kernel) (by decide +kernel) .empty
    · rw [distribution] at refused
      cases refused
    · obtain rfl := Except.ok.inj (isDistribution.symm.trans distribution)
      exact ⟨table, after, answer, rows⟩
  obtain ⟨reported, afterReport, reportAnswer, reportRows⟩ :=
    means (.single "first" (.boolean false)) (by decide +kernel) (by decide +kernel)
  obtain ⟨unreported, afterNone, unreportedAnswer, unreportedRows⟩ :=
    means .empty (by decide +kernel) (by decide +kernel)
  refine ⟨apart, valued, ⟨reported, afterReport, reportAnswer, ?_⟩,
    ⟨unreported, afterNone, unreportedAnswer, ?_⟩⟩
  · rw [List.map_congr_left reportRows]
    decide +kernel
  · rw [List.map_congr_left unreportedRows]
    decide +kernel

end Inference

end DecisionNetwork
