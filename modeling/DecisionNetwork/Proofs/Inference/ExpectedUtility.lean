import DecisionNetwork.Inference.ExpectedUtility
import DecisionNetwork.Proofs.Inference.Enumeration
import DecisionNetwork.Proofs.RuleUtility.Steady

/-!
Contract: expected utilities as quotients of sums over the joint distribution, over exact numbers.

Owns:
- `Network.utility`, the total utility of an assignment as a library answers it;
- `fst_totalUtility`, `fst_weightedUtility` and `fst_utilitiesOf`, by which every rule utility
  answers during a query as it does before it;
- `expectedUtility` and `expectedUtilities_eq`, what a query answers.
-/

namespace DecisionNetwork

namespace UtilityTable

variable {α : Type}

theorem rows_ofList (rows : List (Assignment × α)) :
    (ofList rows).rows = SortedMap.empty.insertMany rows := by
  suffices from_ : ∀ table : UtilityTable α,
      (rows.foldl (fun table row => table.set row.1 row.2) table).rows =
        table.rows.insertMany rows from from_ empty
  induction rows with
  | nil => exact fun _ => rfl
  | cons head tail inductionHypothesis =>
      exact fun table => inductionHypothesis (table.set head.1 head.2)

section Combinations

variable (domains : Domains) (entry : Assignment → α)

theorem keys_ofList_combinations_perm :
    (ofList (domains.combinations.map fun row => (row, entry row))).rows.keys.Perm
      domains.combinations := by
  have listed := SortedMap.toList_insertMany_perm
    (List.pairwise_map.2 domains.combinations_pairwise : (domains.combinations.map fun row =>
      (row, entry row)).Pairwise fun left right => compare left.1 right.1 ≠ .eq)
  rw [rows_ofList]
  have keys := listed.map Prod.fst
  rw [List.map_map] at keys
  exact keys.trans (List.Perm.of_eq (List.map_id _))

theorem row_ofList_combinations [Scalar α] {row : Assignment}
    (member : row ∈ domains.combinations) :
    (ofList (domains.combinations.map fun row => (row, entry row))).row row = entry row := by
  have found := SortedMap.get?_insertMany_of_mem .empty
    (List.pairwise_map.2 domains.combinations_pairwise : (domains.combinations.map fun row =>
      (row, entry row)).Pairwise fun left right => compare left.1 right.1 ≠ .eq)
    (List.mem_map_of_mem member)
  unfold UtilityTable.row get?
  rw [rows_ofList, found, Option.getD_some]

end Combinations

end UtilityTable

/-- The total utility of an assignment as a library answers it. -/
def Network.utility (network : Network ℚ) (library : RuleLibrary ℚ) (full : Assignment) : ℚ :=
  (network.utilityNodes.map fun node => (node.evaluate full library).1).sum

namespace Inference

open Network RuleLibrary

theorem foldl_add_eq_sum {ι : Type} (items : List ι) (number : ι → ℚ) :
    items.foldl (fun total item => Scalar.add total (number item)) Scalar.zero =
      (items.map number).sum := by
  rw [← Scalar.sum_eq_sum, Scalar.sum, List.foldl_map]

theorem exists_of_map_fst_eq_ok {ε β γ : Type} {result : Except ε (β × γ)} {answer : β}
    (same : result.map Prod.fst = .ok answer) : ∃ after, result = .ok (answer, after) := by
  cases result with
  | error failure => cases same
  | ok found =>
      cases same
      exact ⟨found.2, rfl⟩

theorem eq_error_of_map_eq_error {ε β γ : Type} {change : β → γ} {result : Except ε β} {failure : ε}
    (same : result.map change = .error failure) : result = .error failure := by
  cases result with
  | error other => exact congrArg Except.error (Except.error.inj same)
  | ok found => cases same

section Threads

variable {network : Network ℚ} {domains : Domains} {library : RuleLibrary ℚ}

section Total

variable {full : Assignment} (admitted : domains.Admits full) (nodes : List (UtilityNode ℚ))
include admitted

theorem steady_totalUtility : Steady domains (totalUtility nodes full) :=
  steady_thread (fun total _ utility => Scalar.add total utility)
    (fun node _ => steady_evaluate node admitted) Scalar.zero

theorem fst_totalUtility :
    (totalUtility nodes full library).1 =
      (nodes.map fun node => (node.evaluate full library).1).sum := by
  have answers := fst_thread (fun total _ utility => Scalar.add total utility)
    (fun node (_ : node ∈ nodes) => steady_evaluate node admitted) Scalar.zero library
  exact answers.trans (foldl_add_eq_sum nodes _)

end Total

section Weighted

variable {rows : List (Assignment × ℚ)} {action : Assignment}
  (admitted : ∀ row ∈ rows, domains.Admits (row.1.compose action))
include admitted

theorem steady_weightedUtility (network : Network ℚ) :
    Steady domains (weightedUtility network rows action) :=
  steady_thread
    (fun total (row : Assignment × ℚ) utility => Scalar.add total (Scalar.mul utility row.2))
    (fun row member => steady_totalUtility (admitted row member) network.utilityNodes) Scalar.zero

theorem fst_weightedUtility :
    (weightedUtility network rows action library).1 =
      (rows.map fun row => network.utility library (row.1.compose action) * row.2).sum := by
  have answers := fst_thread
    (fun total (row : Assignment × ℚ) utility => Scalar.add total (Scalar.mul utility row.2))
    (fun row member => steady_totalUtility (admitted row member) network.utilityNodes)
    Scalar.zero library
  refine answers.trans ((foldl_add_eq_sum rows _).trans ?_)
  refine congrArg List.sum (List.map_congr_left fun row member => ?_)
  rw [fst_totalUtility (admitted row member)]
  rfl

end Weighted

theorem fst_utilitiesOf {rows : List (Assignment × ℚ)} {actions : List Assignment}
    (admitted : ∀ action ∈ actions, ∀ row ∈ rows, domains.Admits (row.1.compose action))
    (total : ℚ) :
    (utilitiesOf network rows total actions library).1 =
      .ofList (actions.map fun action => (action,
        (rows.map fun row => network.utility library (row.1.compose action) * row.2).sum /
          total)) := by
  have answers := fst_thread
    (fun (table : UtilityTable ℚ) action weighted => table.set action (Scalar.div weighted total))
    (fun action member => steady_weightedUtility (admitted action member) network)
    .empty library
  refine answers.trans ?_
  rw [UtilityTable.ofList, List.foldl_map]
  apply List.foldl_ext
  intro table action member
  rw [fst_weightedUtility (admitted action member)]
  rfl

end Threads

/-- The mean utility of the joint rows that contain the evidence, an action overriding them. -/
def expectedUtility (network : Network ℚ) (library : RuleLibrary ℚ)
    (evidence action : Assignment) : ℚ :=
  (∑ row ∈ (jointDomains network true).combinationSet with row.contains evidence = true,
    network.utility library (row.compose action) * jointProbability network true row) /
      jointMass network true evidence

section Queries

variable {network : Network ℚ} {settings : Settings} {names : List String}

theorem nodeDomains_eq (present : ∀ name ∈ names, network.contains name = true)
    (within : (network.nodeValues.among names).count ≤ settings.maxAssignments) :
    nodeDomains settings network names = .ok (network.nodeValues.among names) := by
  apply lookups_eq _ within
  intro name member
  obtain ⟨node, found⟩ := contains_iff.1 (present name member)
  refine ⟨node.values, ?_, ?_⟩
  · rw [get?_nodeValues, found, Option.map_some]
  · rw [found]

/-- Rows of a joint distribution are admitted by the domains of all nodes. -/
theorem admits_of_mem_jointDomains (built : network.Built) {withActions : Bool} {row : Assignment}
    (member : row ∈ (jointDomains network withActions).combinations) :
    network.nodeValues.Admits row := by
  apply (Domains.admits_of_mem member).mono
  intro name domain found
  rw [built.get?_jointDomains, Option.map_eq_some_iff] at found
  obtain ⟨node, isNode, rfl⟩ := found
  rw [get?_nodeValues, (Option.filter_eq_some_iff.1 isNode).1, Option.map_some]

/-- Actions that override a row of the joint distribution are admitted as the row is. -/
theorem admits_compose_of_mem (built : network.Built) {evidence action : Assignment}
    {row : Assignment × ℚ} (listed : row ∈ consistentRows (jointRows network true) evidence)
    (asked : action ∈ (network.nodeValues.among names).combinations) :
    network.nodeValues.Admits (row.1.compose action) := by
  have inJoint : row.1 ∈ (jointRows network true).keys :=
    List.mem_map_of_mem (List.mem_filter.1 listed).1
  rw [jointRows, (Domains.keys_ofList_combinations_perm _ _).mem_iff] at inJoint
  apply (admits_of_mem_jointDomains built inJoint).compose
  apply (Domains.admits_of_mem asked).mono
  intro name domain found
  rw [Domains.get?_among] at found
  split at found
  · exact found
  · cases found

theorem fst_utilitiesOf_jointRows (built : network.Built) (names : List String)
    (evidence : Assignment) (library : RuleLibrary ℚ) :
    (utilitiesOf network (consistentRows (jointRows network true) evidence)
      (jointMass network true evidence) (network.nodeValues.among names).combinations library).1 =
      .ofList ((network.nodeValues.among names).combinations.map fun action =>
        (action, expectedUtility network library evidence action)) := by
  rw [fst_utilitiesOf fun action asked row listed => admits_compose_of_mem built listed asked]
  refine congrArg UtilityTable.ofList (List.map_congr_left fun action _ => ?_)
  rw [expectedUtility]
  exact congrArg (fun sum => (action, sum / _)) (sum_joint_rows network true
    (fun row => row.contains evidence)
    fun row => network.utility library (row.1.compose action) * row.2)

/-- A query answers the expected utilities, if the evidence has any mass. -/
theorem expectedUtilities_eq (built : network.Built)
    (present : ∀ name ∈ names, network.contains name = true)
    (within : (network.nodeValues.among names).count ≤ settings.maxAssignments)
    (jointWithin : (jointDomains network true).count ≤ settings.maxAssignments)
    (evidence : Assignment) (library : RuleLibrary ℚ) :
    (expectedUtilities settings network names evidence library).map Prod.fst =
      if 0 < jointMass network true evidence then
        .ok (.ofList ((network.nodeValues.among names).combinations.map fun action =>
          (action, expectedUtility network library evidence action)))
      else .error (.degenerateQuery evidence) := by
  let rows := consistentRows (jointRows network true) evidence
  have total : Scalar.sum (rows.map Prod.snd) = jointMass network true evidence :=
    massOf_jointRows evidence
  unfold expectedUtilities
  rw [nodeDomains_eq present within, fullJoint_of_within jointWithin]
  show Except.map Prod.fst (if isMass (Scalar.sum (rows.map Prod.snd)) then
    pure (utilitiesOf network rows (Scalar.sum (rows.map Prod.snd)) _ library)
    else Except.error (InferenceError.degenerateQuery evidence)) = _
  rw [total, isMass_eq]
  by_cases positive : 0 < jointMass network true evidence
  · rw [if_pos (decide_eq_true positive), if_pos positive,
      ← fst_utilitiesOf_jointRows built names evidence library]
    rfl
  · rw [if_neg (mt of_decide_eq_true positive), if_neg positive]
    rfl

end Queries

section Wager

/-- The action of playing for a low or a high stake. -/
def stake : ActionNode := .make "stake" [.text "low", .text "high"]

/-- What a call wins or loses. -/
def gain : UtilityNode ℚ where
  id := "gain"
  inputs := .ofList ["call", "coin", "stake"]
  function :=
    let outcome (called landed : Bool) (staked : String) (utility : ℚ) : Assignment × ℚ :=
      (.ofList [("call", .boolean called), ("coin", .boolean landed), ("stake", .text staked)],
        utility)
    .table (.ofList [outcome true true "low" 1, outcome false false "low" 1,
      outcome true false "low" (-1), outcome false true "low" (-1),
      outcome true true "high" 3, outcome false false "high" 3,
      outcome true false "high" (-4), outcome false true "high" (-4)])

/-- What it costs to play for a high stake. -/
def fee : UtilityNode ℚ where
  id := "fee"
  inputs := .ofList ["stake"]
  function := .table (.ofList [(.single "stake" (.text "high"), -1 / 4)])

/-- A coin that is reported once, and a wager on it. -/
def wager : Network ℚ :=
  ⟨(((((SortedMap.empty.insert "coin" (.chance coin)).insert "first"
    (.chance (echo "first"))).insert "call" (.action call)).insert "stake" (.action stake)).insert
    "gain" (.utility gain)).insert "fee" (.utility fee)⟩

theorem wager_built : wager.Built := by
  have withCoin := Built.empty.insert (.chance coin) (by decide +kernel) (by decide +kernel)
  have withFirst := withCoin.insert (.chance (echo "first")) (by decide +kernel)
    (by decide +kernel)
  have withCall := withFirst.insert (.action call) (by decide +kernel) (by decide +kernel)
  have withStake := withCall.insert (.action stake) (by decide +kernel) (by decide +kernel)
  have withGain := withStake.insert (.utility gain) (by decide +kernel) (by decide +kernel)
  exact withGain.insert (.utility fee) (by decide +kernel) (by decide +kernel)

end Wager

end Inference

end DecisionNetwork
