import DecisionNetwork.Proofs.Inference.Outcome
import DecisionNetwork.Proofs.RuleUtility.Asked

/-!
Contract: how often queries for expected utilities match the rule of a network's utility node.

Owns:
- `inputRows`, what the node sees of the joint rows that contain the evidence, overridden by the
  combinations of what is asked for;
- `served_utilitiesOf` and `served_of_expectedUtilities`, the requests of a query;
- `UtilityQuery` and `afterQueries`, queries made one after the other, with `ServedInputs`, which
  every query keeps;
- `matchings_of_queries`: a first query matches the rule once for each distinct row that the node
  sees, and no number of queries matches it more often than the inputs have combinations.
-/

namespace DecisionNetwork

variable {α : Type}

namespace Network

variable {network : Network α} {node : UtilityNode α} {names : List String}

/-- The chance and action nodes that a utility node reads. -/
def readNodes (network : Network α) (node : UtilityNode α) : List (Node α) :=
  (network.enumerated true).filter fun input => node.inputs.toList.contains input.id

/-- The number of combinations of the chance and action inputs of a utility node. -/
def inputCount (network : Network α) (node : UtilityNode α) : Nat :=
  ((network.readNodes node).map fun input => input.values.length).prod

theorem Built.length_combinations_inputs (built : network.Built) (node : UtilityNode α) :
    ((Inference.jointDomains network true).among node.inputs.toList).combinations.length =
      network.inputCount node := by
  apply length_combinations_of_nodes
  · exact (built.map_id_enumerated_nodup true).sublist (List.filter_sublist.map Node.id)
  · intro name domain
    rw [Domains.get?_among]
    unfold readNodes
    simp only [List.mem_filter, List.contains_iff_mem, and_assoc]
    split
    next listed =>
        rw [built.get?_jointDomains_eq_some_iff]
        refine exists_congr fun input => and_congr_right fun _ => ?_
        constructor
        · rintro ⟨rfl, isDomain⟩
          exact ⟨listed, rfl, isDomain⟩
        · rintro ⟨-, sameId, isDomain⟩
          exact ⟨sameId, isDomain⟩
    next unlisted =>
        constructor
        · intro found
          cases found
        · rintro ⟨input, -, listed, rfl, -⟩
          exact absurd listed unlisted

/-- What is asked for has a value only if it is enumerated, since a utility has no values. -/
theorem Built.mem_combinations_among_jointDomains (built : network.Built) {action : Assignment}
    (asked : action ∈ (network.nodeValues.among names).combinations) :
    action ∈ ((Inference.jointDomains network true).among names).combinations := by
  obtain ⟨picks, unbound⟩ := Domains.mem_combinations_iff.1 asked
  have domainOf {name : String} (listed : name ∈ names) {node : Node α}
      (stored : network.node? name = some node) :
      (network.nodeValues.among names).get? name = some node.values := by
    rw [Domains.get?_among, if_pos listed, get?_nodeValues, stored, Option.map_some]
  refine Domains.mem_combinations_iff.2 ⟨fun name domain found => ?_, fun name absent => ?_⟩
  · rw [Domains.get?_among, built.get?_jointDomains] at found
    split at found
    next listed =>
        obtain ⟨node, isNode, rfl⟩ := Option.map_eq_some_iff.1 found
        exact picks name _ (domainOf listed (Option.filter_eq_some_iff.1 isNode).1)
    next => cases found
  · by_cases listed : name ∈ names
    · rw [Domains.get?_among, if_pos listed, built.get?_jointDomains] at absent
      cases stored : network.node? name with
      | none =>
          apply unbound
          rw [Domains.get?_among, if_pos listed, get?_nodeValues, stored, Option.map_none]
      | some node =>
          cases node with
          | chance node => simp [stored, Node.isEnumerated] at absent
          | action node => simp [stored, Node.isEnumerated] at absent
          | utility node =>
              obtain ⟨value, noValue, -⟩ := picks name _ (domainOf listed stored)
              cases noValue
    · apply unbound
      rw [Domains.get?_among, if_neg listed]

end Network

namespace Inference

open Network RuleLibrary

/-- What a utility node sees of the joint rows that contain the evidence, overridden by the
combinations of the variables asked for. -/
def inputRows (network : Network α) (node : UtilityNode α) (names : List String)
    (evidence : Assignment) : List Assignment :=
  (network.nodeValues.among names).combinations.flatMap fun action =>
    ((jointDomains network true).combinations.filter fun row => row.contains evidence).map
      fun row => (row.compose action).restrict node.inputs.toList

variable {network : Network α} {node : UtilityNode α} {names : List String}
  {evidence : Assignment} {settings : Settings}

theorem mem_combinations_of_mem_inputRows (built : network.Built) {row : Assignment}
    (member : row ∈ inputRows network node names evidence) :
    row ∈ ((jointDomains network true).among node.inputs.toList).combinations := by
  obtain ⟨action, asked, inRows⟩ := List.mem_flatMap.1 member
  obtain ⟨whole, consistent, rfl⟩ := List.mem_map.1 inRows
  apply Domains.restrict_mem_combinations
  exact Domains.compose_mem_combinations (List.mem_filter.1 consistent).1
    (built.mem_combinations_among_jointDomains asked)

/-- Only nodes have their domains taken. -/
theorem exists_node_of_nodeDomains {domains : Domains}
    (taken : nodeDomains settings network names = .ok domains) :
    ∀ name ∈ names, ∃ node, network.node? name = some node := by
  intro name member
  obtain ⟨entries, found, -⟩ := exists_of_bind_eq_ok taken
  obtain ⟨entry, isEntry⟩ := exists_of_mapM_eq_ok found name member
  cases stored : network.node? name with
  | none =>
      rw [stored] at isEntry
      cases isEntry
  | some node => exact ⟨node, rfl⟩

/-- The domains of what is asked for are those of the nodes. -/
theorem eq_among_of_nodeDomains {domains : Domains}
    (taken : nodeDomains settings network names = .ok domains) :
    domains = network.nodeValues.among names := by
  have present := exists_node_of_nodeDomains taken
  unfold nodeDomains at taken
  rw [@lookups_eq_checked settings names network.nodeValues] at taken
  · obtain ⟨_, -, same⟩ := exists_of_bind_eq_ok taken
    exact (Except.ok.inj same).symm
  · intro name member
    obtain ⟨node, found⟩ := present name member
    exact ⟨node.values, by rw [get?_nodeValues, found, Option.map_some], by rw [found]⟩

variable [Scalar α]

section Steps

variable {rule : AnchoredRule α} {handle : Nat} {requests : List Assignment}
  {library : RuleLibrary α}

theorem weightedUtility_eq_thread (network : Network α) (rows : List (Assignment × α))
    (action : Assignment) (library : RuleLibrary α) :
    weightedUtility network rows action library =
      thread (fun row => totalUtility network.utilityNodes (row.1.compose action))
        (fun total row utility => Scalar.add total (Scalar.mul utility row.2))
        rows Scalar.zero library := rfl

theorem utilitiesOf_eq_thread (network : Network α) (rows : List (Assignment × α)) (total : α)
    (actions : List Assignment) (library : RuleLibrary α) :
    utilitiesOf network rows total actions library =
      thread (weightedUtility network rows)
        (fun table action weighted => table.set action (Scalar.div weighted total))
        actions UtilityTable.empty library := rfl

variable (single : network.utilityNodes = [node]) (ruled : node.function = .rule handle)
include single ruled

theorem served_weightedUtility (rows : List (Assignment × α)) (action : Assignment)
    (served : Served rule handle requests library) :
    Served rule handle
      (requests ++ rows.map fun row => (row.1.compose action).restrict node.inputs.toList)
      (weightedUtility network rows action library).2 := by
  rw [List.map_eq_flatMap, weightedUtility_eq_thread]
  apply served.thread
  intro row earlier before beforeServed
  rw [single]
  exact beforeServed.node ruled _

theorem served_utilitiesOf (rows : List (Assignment × α)) (total : α) (actions : List Assignment)
    (served : Served rule handle requests library) :
    Served rule handle
      (requests ++ actions.flatMap fun action =>
        rows.map fun row => (row.1.compose action).restrict node.inputs.toList)
      (utilitiesOf network rows total actions library).2 := by
  rw [utilitiesOf_eq_thread]
  apply served.thread
  intro action earlier before beforeServed
  exact served_weightedUtility single ruled rows action beforeServed

end Steps

section Answers

variable {library after : RuleLibrary α} {table : UtilityTable α}

theorem keys_perm_of_fullJoint {withActions : Bool} {joint : SortedMap Assignment α}
    (enumerated : fullJoint settings network withActions = .ok joint) :
    joint.keys.Perm (jointDomains network withActions).combinations := by
  obtain ⟨_, -, same⟩ := exists_of_bind_eq_ok enumerated
  cases same
  exact Domains.keys_ofList_combinations_perm _ _

/-- The rows that contain the evidence are those of the joint distribution that do. -/
theorem mem_map_consistentRows_iff {withActions : Bool} {joint : SortedMap Assignment α}
    (enumerated : fullJoint settings network withActions = .ok joint) {row : Assignment} :
    row ∈ (consistentRows joint evidence).map Prod.fst ↔
      row ∈ (jointDomains network withActions).combinations.filter fun row =>
        row.contains evidence := by
  have keys : (consistentRows joint evidence).map Prod.fst =
      joint.keys.filter fun row => row.contains evidence := by
    rw [SortedMap.keys_eq_map, List.filter_map]
    rfl
  rw [keys, ((keys_perm_of_fullJoint enumerated).filter _).mem_iff]

variable {rule : AnchoredRule α} {handle : Nat} {requests : List Assignment}
  (single : network.utilityNodes = [node]) (ruled : node.function = .rule handle)
include single ruled

/-- A query asks for what the node sees of the joint rows, in some order. -/
theorem served_of_expectedUtilities
    (answered : expectedUtilities settings network names evidence library = .ok (table, after))
    (served : Served rule handle requests library) :
    ∃ asked, Served rule handle (requests ++ asked) after ∧
      ∀ request, request ∈ asked ↔ request ∈ inputRows network node names evidence := by
  obtain ⟨domains, taken, afterDomains⟩ := exists_of_bind_eq_ok answered
  obtain ⟨joint, enumerated, afterJoint⟩ := exists_of_bind_eq_ok afterDomains
  dsimp only at afterJoint
  split at afterJoint
  next =>
      have isAfter := congrArg Prod.snd (Except.ok.inj afterJoint)
      have next := served_utilitiesOf single ruled (consistentRows joint evidence)
        (Scalar.sum ((consistentRows joint evidence).map Prod.snd)) domains.combinations served
      refine ⟨_, isAfter ▸ next, fun request => ?_⟩
      cases eq_among_of_nodeDomains taken
      unfold inputRows
      rw [List.mem_flatMap, List.mem_flatMap]
      refine exists_congr fun action => and_congr_right fun _ => ?_
      -- The table lists the rows in its own order, so the requests are the same up to order alone.
      have rows : ((consistentRows joint evidence).map fun row =>
          (row.1.compose action).restrict node.inputs.toList) =
          ((consistentRows joint evidence).map Prod.fst).map fun row =>
            (row.compose action).restrict node.inputs.toList := by
        rw [List.map_map]
        rfl
      rw [rows, List.mem_map, List.mem_map]
      exact exists_congr fun row => and_congr_left fun _ => mem_map_consistentRows_iff enumerated
  next => cases afterJoint

end Answers

section Queries

/-- What a query for expected utilities asks of a network. -/
structure UtilityQuery where
  settings : Settings
  names : List String
  evidence : Assignment

/-- The library after a query; one that fails has asked for nothing. -/
def afterQuery (network : Network α) (library : RuleLibrary α) (query : UtilityQuery) :
    RuleLibrary α :=
  match expectedUtilities query.settings network query.names query.evidence library with
  | .ok answer => answer.2
  | .error _ => library

/-- The library after several queries. -/
def afterQueries (network : Network α) (library : RuleLibrary α) (queries : List UtilityQuery) :
    RuleLibrary α :=
  queries.foldl (afterQuery network) library

variable {rule : AnchoredRule α} {handle : Nat} {library after : RuleLibrary α}
  {table : UtilityTable α}

/-- A library that was asked, since its utility was made, for combinations of the inputs alone. -/
def ServedInputs (network : Network α) (node : UtilityNode α) (rule : AnchoredRule α)
    (handle : Nat) (library : RuleLibrary α) : Prop :=
  ∃ requests, Served rule handle requests library ∧
    ∀ request ∈ requests,
      request ∈ ((jointDomains network true).among node.inputs.toList).combinations

section Runs

variable (built : network.Built) (single : network.utilityNodes = [node])
  (ruled : node.function = .rule handle)
include built single ruled

theorem servedInputs_afterQuery (served : ServedInputs network node rule handle library)
    (query : UtilityQuery) :
    ServedInputs network node rule handle (afterQuery network library query) := by
  unfold afterQuery
  split
  next answer answered =>
      obtain ⟨requests, servedRequests, areInputs⟩ := served
      obtain ⟨asked, servedAll, sameRows⟩ :=
        served_of_expectedUtilities single ruled answered servedRequests
      refine ⟨requests ++ asked, servedAll, fun request member => ?_⟩
      rcases List.mem_append.1 member with earlier | now
      · exact areInputs request earlier
      · exact mem_combinations_of_mem_inputRows built ((sameRows request).1 now)
  next => exact served

theorem servedInputs_afterQueries (served : ServedInputs network node rule handle library)
    (queries : List UtilityQuery) :
    ServedInputs network node rule handle (afterQueries network library queries) := by
  unfold afterQueries
  induction queries generalizing library with
  | nil => exact served
  | cons query rest inductionHypothesis =>
      exact inductionHypothesis (servedInputs_afterQuery built single ruled served query)

end Runs

/-- A utility asked for combinations of the inputs has matched its rule no more often than there
are such combinations. -/
theorem ServedInputs.exists_matchings_le (built : network.Built)
    (served : ServedInputs network node rule handle library) :
    ∃ used, library.get? handle = some used ∧ used.matchings ≤ network.inputCount node := by
  obtain ⟨requests, ⟨used, found, counted⟩, areInputs⟩ := served
  refine ⟨used, found, ?_⟩
  rw [← built.length_combinations_inputs node]
  exact Nat.le_trans (Nat.le_of_eq counted.matchings) (length_eraseDups_le areInputs)

/-- The utility node of a network over a fresh cached rule utility. A query that is answered
matches the rule once for each of the distinct rows that the node sees, and keeps that many
utilities, namely those of the rows under what the rule yields. Whatever is asked of the network
from then on, the rule is matched no more often in all than the chance and action inputs of the node
have combinations. -/
theorem matchings_of_queries {ruleSettings : Settings} {fresh : RuleUtility α}
    (built : network.Built) (single : network.utilityNodes = [node])
    (ruled : node.function = .rule handle) (made : RuleUtility.make rule ruleSettings = .ok fresh)
    (cached : fresh.isCached = true) (held : library.get? handle = some fresh)
    (answered : expectedUtilities settings network names evidence library = .ok (table, after)) :
    (∃ used, after.get? handle = some used ∧
      used.matchings = (inputRows network node names evidence).eraseDups.length ∧
      used.cachedSize = (inputRows network node names evidence).eraseDups.length ∧
      ∀ row ∈ inputRows network node names evidence,
        used.cache.get? (RuleUtility.inputOf rule row) (RuleUtility.actionsOf rule row) =
          some (RuleUtility.plainUtility rule row)) ∧
    ∀ further : List UtilityQuery,
      ∃ used, (afterQueries network after further).get? handle = some used ∧
        used.matchings ≤ network.inputCount node := by
  have served : Served rule handle [] library :=
    ⟨fresh, held, RuleUtility.counted_of_make made cached⟩
  obtain ⟨asked, servedAsked, sameRows⟩ :=
    served_of_expectedUtilities single ruled answered served
  have areInputs : ∀ request ∈ asked,
      request ∈ ((jointDomains network true).among node.inputs.toList).combinations :=
    fun request member => mem_combinations_of_mem_inputRows built ((sameRows request).1 member)
  have sameCount := length_eraseDups_congr areInputs sameRows
  rw [List.nil_append] at servedAsked
  constructor
  · obtain ⟨used, found, counted⟩ := servedAsked
    refine ⟨used, found, ?_, ?_, fun row seen => ?_⟩
    · rw [← sameCount]
      exact counted.matchings
    · rw [← sameCount]
      exact counted.cachedSize
    · exact counted.recalls.get?_of_mem areInputs ((sameRows row).2 seen)
  · intro further
    apply ServedInputs.exists_matchings_le built
    exact servedInputs_afterQueries built single ruled ⟨asked, servedAsked, areInputs⟩ further

end Queries

section Guess

/-- The rule that rewards a call of the side that the coin shows. -/
def guessRule : CaseRule ℚ where
  id := "guess"
  kind := .utility
  outputs := .ofList ["call"]
  parameters := .empty
  cases := [(.always, ⟨[(⟨[⟨.ofText "call", .assign, .ofText "\x7bcoin\x7d"⟩]⟩, .fixed 1)]⟩)]

def guess : UtilityNode ℚ where
  id := "guess"
  inputs := .ofList ["call", "coin"]
  function := .rule 0

/-- A coin that is reported once, and a guess of the side that it shows. -/
def guessing : Network ℚ :=
  ⟨(((SortedMap.empty.insert "coin" (.chance coin)).insert "first"
    (.chance (echo "first"))).insert "call" (.action call)).insert "guess" (.utility guess)⟩

theorem guessing_built : guessing.Built := by
  have withCoin := Built.empty.insert (.chance coin) (by decide +kernel) (by decide +kernel)
  have withFirst := withCoin.insert (.chance (echo "first")) (by decide +kernel)
    (by decide +kernel)
  have withCall := withFirst.insert (.action call) (by decide +kernel) (by decide +kernel)
  exact withCall.insert (.utility guess) (by decide +kernel) (by decide +kernel)

/-- What the node sees of a call while the coin shows a head. -/
def called (side : Bool) : Assignment :=
  .ofList [("call", .boolean side), ("coin", .boolean true)]

/-- Of the four rows that the node sees two have no probability, since a tail is never reported
as a head. -/
theorem matchings_of_queries_guessing :
    let fresh : RuleUtility ℚ := ⟨guessRule.anchor, .enabled .empty, 0⟩
    RuleUtility.make guessRule.anchor {} = .ok fresh ∧
      ∃ table after,
        expectedUtilities {} guessing ["call"] (.single "first" (.boolean true)) ⟨[fresh]⟩ =
          .ok (table, after) ∧
        (∃ used, after.get? 0 = some used ∧ used.matchings = 4 ∧ used.cachedSize = 4 ∧
          used.cache.get? (RuleUtility.inputOf guessRule.anchor (called true))
            (RuleUtility.actionsOf guessRule.anchor (called true)) = some 1 ∧
          used.cache.get? (RuleUtility.inputOf guessRule.anchor (called false))
            (RuleUtility.actionsOf guessRule.anchor (called false)) = some 0) ∧
        ∀ further, ∃ used, (afterQueries guessing after further).get? 0 = some used ∧
          used.matchings ≤ 4 := by
  intro fresh
  have made : RuleUtility.make guessRule.anchor {} = .ok fresh := rfl
  have positive : 0 < jointMass guessing true (.single "first" (.boolean true)) := by
    decide +kernel
  have present : ∀ name ∈ ["call"], guessing.contains name = true := by decide +kernel
  have askedWithin : (guessing.nodeValues.among ["call"]).count ≤ Settings.maxAssignments {} := by
    decide +kernel
  have rowsWithin : (jointDomains guessing true).count ≤ Settings.maxAssignments {} := by
    decide +kernel
  have answer := expectedUtilities_eq guessing_built present askedWithin rowsWithin
    (.single "first" (.boolean true)) ⟨[fresh]⟩
  rw [if_pos positive] at answer
  obtain ⟨after, answered⟩ := exists_of_map_fst_eq_ok answer
  obtain ⟨⟨used, found, matchings, size, kept⟩, bounded⟩ :=
    matchings_of_queries guessing_built rfl rfl made rfl rfl answered
  have seen : (inputRows guessing guess ["call"]
      (.single "first" (.boolean true))).eraseDups.length = 4 := by decide +kernel
  have bound : guessing.inputCount guess = 4 := by decide +kernel
  have right : (inputRows guessing guess ["call"] (.single "first" (.boolean true)))[3]? =
      some (called true) := rfl
  have wrong : (inputRows guessing guess ["call"] (.single "first" (.boolean true)))[5]? =
      some (called false) := rfl
  have worthOne : RuleUtility.plainUtility guessRule.anchor (called true) = 1 := by decide +kernel
  have worthNothing : RuleUtility.plainUtility guessRule.anchor (called false) = 0 := by
    decide +kernel
  refine ⟨made, _, after, answered,
    ⟨used, found, matchings.trans seen, size.trans seen, ?_, ?_⟩, bound ▸ bounded⟩
  · rw [← worthOne]
    exact kept (called true) (List.mem_of_getElem? right)
  · rw [← worthNothing]
    exact kept (called false) (List.mem_of_getElem? wrong)

end Guess

end Inference

end DecisionNetwork
