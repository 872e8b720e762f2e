import DecisionNetwork.Proofs.Inference.ExpectedUtility
import DecisionNetwork.Proofs.Inference.Extension

/-!
Contract: when queries are answered and why they are refused, over exact numbers.

Owns:
- `saturated`, a product of domain sizes as it is counted, with `Network.askedCount` and
  `Network.rowCount`, the two that a query is measured by;
- `Network.length_combinations_of_nodes`, the combinations of nodes as a product of their sizes;
- `Answerable`, the conditions of an answer, and `refusal?`, the first of them that fails;
- `decides_refusal?`, the checks that both kinds of queries make in turn;
- `posterior_decided` and `expectedUtilities_decided`, put together in `queries_decided`.
-/

namespace DecisionNetwork

/-- The product of the sizes of domains, held at the greatest count. -/
def saturated (sizes : List Nat) : Nat := min sizes.prod Domains.countLimit

section Sizes

variable {domains : Domains} {names : List String} (size : String → Nat)
  (listed : domains.keys.Perm names)
  (sizes : ∀ name domain, domains.get? name = some domain →
    (Value.distinct domain).length = size name)
include listed sizes

/-- There are as many combinations as the product of the sizes of the variables, in whatever order
these are listed. -/
theorem Domains.length_combinations_eq_prod :
    domains.combinations.length = (names.map size).prod := by
  have entries : domains.toList.map (fun entry => (Value.distinct entry.2).length) =
      domains.keys.map size := by
    rw [SortedMap.keys_eq_map, List.map_map]
    refine List.map_congr_left fun entry member => ?_
    exact sizes entry.1 entry.2 (SortedMap.get?_of_mem member)
  rw [length_combinations, entries, (listed.map size).prod_eq]

/-- Domains are counted by the sizes of their variables, in whatever order these are listed. -/
theorem Domains.count_eq_saturated : domains.count = saturated (names.map size) := by
  rw [count_eq_min, length_combinations_eq_prod size listed sizes]
  rfl

end Sizes

/-- The number of values listed for a variable. -/
def Domains.listedSize (domains : Domains) (name : String) : Nat :=
  ((domains.get? name).getD []).length

namespace Network

variable {α : Type} {network : Network α} {withActions : Bool} {names : List String}

/-- The number of values of a node. -/
def domainSize (network : Network α) (name : String) : Nat :=
  ((network.node? name).map fun node => node.values.length).getD 0

/-- The number of combinations of some variables, each of which counts once. -/
def askedCount (network : Network α) (names : List String) : Nat :=
  saturated (names.dedup.map network.domainSize)

/-- The number of rows of a joint distribution. -/
def rowCount (network : Network α) (withActions : Bool) : Nat :=
  saturated ((network.enumerated withActions).map fun node => node.values.length)

theorem count_among_nodeValues (present : ∀ name ∈ names, network.contains name = true) :
    (network.nodeValues.among names).count = network.askedCount names := by
  apply Domains.count_eq_saturated
  · rw [List.perm_ext_iff_of_nodup (SortedMap.keys_nodup _) (List.nodup_dedup names)]
    intro name
    rw [SortedMap.mem_keys_iff, Domains.get?_among, List.mem_dedup]
    by_cases listed : name ∈ names
    · obtain ⟨node, found⟩ := contains_iff.1 (present name listed)
      simp [listed, get?_nodeValues, found]
    · simp [listed]
  · intro name domain found
    rw [Domains.get?_among] at found
    split at found
    · rw [get?_nodeValues, Option.map_eq_some_iff] at found
      obtain ⟨node, isNode, rfl⟩ := found
      rw [node.distinct_values, domainSize, isNode, Option.map_some, Option.getD_some]
    · cases found

/-- Domains of nodes with identifiers of their own have as many combinations as the product of the
numbers of values. -/
theorem length_combinations_of_nodes {domains : Domains} {nodes : List (Node α)}
    (ids : (nodes.map Node.id).Nodup)
    (listed : ∀ name domain, domains.get? name = some domain ↔
      ∃ node ∈ nodes, node.id = name ∧ node.values = domain) :
    domains.combinations.length = (nodes.map fun node => node.values.length).prod := by
  have sizes : (nodes.map fun node => node.values.length) =
      (nodes.map Node.id).map domains.listedSize := by
    rw [List.map_map]
    refine List.map_congr_left fun node member => ?_
    have found : domains.get? node.id = some node.values :=
      (listed node.id node.values).2 ⟨node, member, rfl, rfl⟩
    rw [Function.comp_apply, Domains.listedSize, found, Option.getD_some]
  rw [sizes]
  apply Domains.length_combinations_eq_prod
  · rw [List.perm_ext_iff_of_nodup (SortedMap.keys_nodup _) ids]
    intro name
    rw [SortedMap.mem_keys_iff, Option.isSome_iff_exists, List.mem_map]
    constructor
    · rintro ⟨domain, found⟩
      obtain ⟨node, member, sameId, -⟩ := (listed name domain).1 found
      exact ⟨node, member, sameId⟩
    · rintro ⟨node, member, sameId⟩
      exact ⟨node.values, (listed name node.values).2 ⟨node, member, sameId, rfl⟩⟩
  · intro name domain found
    obtain ⟨node, -, -, rfl⟩ := (listed name domain).1 found
    rw [Domains.listedSize, found, Option.getD_some, node.distinct_values]

theorem Built.map_id_enumerated_nodup (built : network.Built) (withActions : Bool) :
    ((network.enumerated withActions).map Node.id).Nodup :=
  (built.map_id_nodeList ▸ SortedMap.keys_nodup network.nodes :
    (network.nodeList.map Node.id).Nodup).sublist (List.filter_sublist.map Node.id)

theorem Built.get?_jointDomains_eq_some_iff (built : network.Built) {name : String}
    {domain : List Value} :
    (Inference.jointDomains network withActions).get? name = some domain ↔
      ∃ node ∈ network.enumerated withActions, node.id = name ∧ node.values = domain := by
  rw [built.get?_jointDomains, Option.map_eq_some_iff]
  constructor
  · rintro ⟨node, isNode, isDomain⟩
    obtain ⟨stored, isEnumerated⟩ := Option.filter_eq_some_iff.1 isNode
    have sameId := built.node_id stored
    exact ⟨node, built.mem_enumerated_iff.2 ⟨sameId ▸ stored, isEnumerated⟩, sameId, isDomain⟩
  · rintro ⟨node, member, rfl, isDomain⟩
    exact ⟨node, Option.filter_eq_some_iff.2 (built.mem_enumerated_iff.1 member), isDomain⟩

theorem Built.count_jointDomains (built : network.Built) (withActions : Bool) :
    (Inference.jointDomains network withActions).count = network.rowCount withActions := by
  rw [Domains.count_eq_min, length_combinations_of_nodes
    (built.map_id_enumerated_nodup withActions) fun _ _ => built.get?_jointDomains_eq_some_iff]
  rfl

end Network

namespace Inference

open Network

/-- Whether a query may ask for a variable: for any node if the actions are enumerated, else for
chance nodes. -/
def isAskable {α : Type} (network : Network α) (withActions : Bool) (name : String) : Bool :=
  if withActions then network.contains name else (network.chanceNode? name).isSome

section Conditions

variable (settings : Settings) (network : Network ℚ) (withActions : Bool) (names : List String)
  (evidence : Assignment)

/-- What it takes for a query to be answered. The mass of the evidence does not depend on what is
asked for. -/
structure Answerable : Prop where
  askable : ∀ name ∈ names, isAskable network withActions name = true
  askedWithin : network.askedCount names ≤ settings.maxAssignments
  rowsWithin : network.rowCount withActions ≤ settings.maxAssignments
  positive : 0 < jointMass network withActions evidence

/-- Why a query is refused: the first condition that fails, and the first variable that fails it. -/
def refusal? : Option InferenceError :=
  match names.find? fun name => !isAskable network withActions name with
  | some name => some (.unknownVariable name)
  | none =>
    if settings.maxAssignments < network.askedCount names then
      some (.tooManyAssignments (network.askedCount names) settings.maxAssignments)
    else if settings.maxAssignments < network.rowCount withActions then
      some (.tooManyAssignments (network.rowCount withActions) settings.maxAssignments)
    else if 0 < jointMass network withActions evidence then none
    else some (.degenerateQuery evidence)

theorem find?_unknown_eq_none_iff :
    (names.find? fun name => !isAskable network withActions name) = none ↔
      ∀ name ∈ names, isAskable network withActions name = true := by
  simp [List.find?_eq_none]

theorem refusal?_eq_none_iff :
    refusal? settings network withActions names evidence = none ↔
      Answerable settings network withActions names evidence := by
  have askable := find?_unknown_eq_none_iff network withActions names
  unfold refusal?
  constructor
  · intro none
    split at none
    · cases none
    next found =>
        split_ifs at none with askedAbove rowsAbove positive
        exact ⟨askable.1 found, Nat.not_lt.1 askedAbove, Nat.not_lt.1 rowsAbove, positive⟩
  · intro answerable
    rw [askable.2 answerable.askable]
    simp only [if_neg (Nat.not_lt.2 answerable.askedWithin),
      if_neg (Nat.not_lt.2 answerable.rowsWithin), if_pos answerable.positive]

end Conditions

/-- A result is an answer unless there is a reason to refuse, and then it is that reason. -/
def Decides {β : Type} (result : Except InferenceError β) : Option InferenceError → Prop
  | none => ∃ answer, result = .ok answer
  | some failure => result = .error failure

section Decides

variable {β : Type} {result : Except InferenceError β} {refusal : Option InferenceError}

theorem Decides.ok_iff (decides : Decides result refusal) :
    (∃ answer, result = .ok answer) ↔ refusal = none := by
  cases refusal with
  | none => exact ⟨fun _ => rfl, fun _ => decides⟩
  | some failure =>
      constructor
      · rintro ⟨answer, answered⟩
        cases answered.symm.trans decides
      · intro none
        cases none

theorem Decides.error_iff (decides : Decides result refusal) (failure : InferenceError) :
    result = .error failure ↔ refusal = some failure := by
  cases refusal with
  | none =>
      obtain ⟨answer, answered⟩ := decides
      rw [answered]
      exact ⟨fun wrong => (by cases wrong), fun wrong => (by cases wrong)⟩
  | some reason =>
      rw [show result = .error reason from decides, Except.error.injEq, Option.some.injEq]

end Decides

variable {network : Network ℚ} {settings : Settings} {withActions : Bool} {names : List String}
  {evidence : Assignment}

theorem contains_of_isAskable {name : String}
    (askable : isAskable network withActions name = true) : network.contains name = true := by
  cases withActions with
  | true => exact askable
  | false =>
      obtain ⟨node, found⟩ := Option.isSome_iff_exists.1 askable
      exact contains_iff.2 ⟨.chance node, chanceNode?_eq_some_iff.1 found⟩

/-- Both kinds of queries look the variables up, count twice and enumerate, in this order; whatever
passes is decided by the mass. -/
theorem decides_refusal? {β : Type} {query : Except InferenceError β} (built : network.Built)
    {lookup : String → Except InferenceError (String × List Value)}
    {conclude : Domains → SortedMap Assignment ℚ → Except InferenceError β}
    (steps : query = do
      let domains ← (do
        let entries ← names.mapM lookup
        let gathered := SortedMap.empty.insertMany entries
        checkSize settings gathered
        return gathered)
      let joint ← fullJoint settings network withActions
      conclude domains joint)
    (misses : ∀ name, isAskable network withActions name = false →
      lookup name = .error (.unknownVariable name))
    (finds : ∀ name, isAskable network withActions name = true →
      ∃ domain, network.nodeValues.get? name = some domain ∧ lookup name = .ok (name, domain))
    (passes : (∀ name ∈ names, isAskable network withActions name = true) →
      (network.nodeValues.among names).count ≤ settings.maxAssignments →
      (jointDomains network withActions).count ≤ settings.maxAssignments →
      Decides query (if 0 < jointMass network withActions evidence then none
        else some (.degenerateQuery evidence))) :
    Decides query (refusal? settings network withActions names evidence) := by
  unfold refusal?
  split
  next name found =>
      obtain ⟨unknown, before, after, isSplit, earlier⟩ := List.find?_eq_some_iff_append.1 found
      have failed : names.mapM lookup = .error (.unknownVariable name) := by
        rw [isSplit]
        refine mapM_eq_error (fun other member => ?_) (misses name (by simpa using unknown))
        obtain ⟨domain, _, isEntry⟩ := finds other (by simpa using earlier other member)
        exact ⟨(other, domain), isEntry⟩
      rw [steps, failed]
      rfl
  next found =>
      have askable := (find?_unknown_eq_none_iff network withActions names).1 found
      have asked : (network.nodeValues.among names).count = network.askedCount names :=
        count_among_nodeValues fun name member => contains_of_isAskable (askable name member)
      have rows := built.count_jointDomains withActions
      have checked := steps
      rw [lookups_eq_checked fun name member => finds name (askable name member)] at checked
      by_cases askedAbove : settings.maxAssignments < network.askedCount names
      · rw [if_pos askedAbove, ← asked, checked, checkSize_eq_error (asked ▸ askedAbove)]
        rfl
      · have askedWithin := asked ▸ Nat.not_lt.1 askedAbove
        rw [checkSize_eq_ok askedWithin] at checked
        rw [if_neg askedAbove]
        by_cases rowsAbove : settings.maxAssignments < network.rowCount withActions
        · rw [if_pos rowsAbove, ← rows, checked, fullJoint_of_above (rows ▸ rowsAbove)]
          rfl
        · rw [if_neg rowsAbove]
          exact passes askable askedWithin (rows ▸ Nat.not_lt.1 rowsAbove)

theorem evidenceMass_eq_jointMass (network : Network ℚ) (evidence : Assignment) :
    evidenceMass network evidence = jointMass network false evidence :=
  mass_eq_sum network fun row => row.contains evidence

theorem posterior_decided (built : network.Built) (settings : Settings) (names : List String)
    (evidence : Assignment) :
    Decides (posterior settings network names evidence)
      (refusal? settings network false names evidence) := by
  refine decides_refusal? built rfl (fun name unknown => ?_) (fun name askable => ?_)
    fun askable askedWithin rowsWithin => ?_
  · have none : network.chanceNode? name = none := by simpa [isAskable] using unknown
    rw [none]
  · obtain ⟨node, found⟩ := Option.isSome_iff_exists.1 askable
    refine ⟨node.values, ?_, by rw [found]⟩
    rw [get?_nodeValues, chanceNode?_eq_some_iff.1 found]
    rfl
  · have sameDomains : network.domains.among names = network.nodeValues.among names := by
      refine built.among_jointDomains fun name listed => ?_
      obtain ⟨node, found⟩ := Option.isSome_iff_exists.1 (askable name listed)
      have stored := chanceNode?_eq_some_iff.1 found
      have sameId := built.node_id stored
      exact ⟨.chance node, built.mem_enumerated_iff.2 ⟨sameId ▸ stored, rfl⟩, sameId⟩
    rw [posterior_eq built askable (sameDomains ▸ askedWithin) rowsWithin,
      evidenceMass_eq_jointMass]
    by_cases positive : 0 < jointMass network false evidence
    · rw [if_pos positive, if_pos positive]
      exact ⟨_, rfl⟩
    · rw [if_neg positive, if_neg positive]
      rfl

theorem expectedUtilities_decided (built : network.Built) (settings : Settings)
    (names : List String) (evidence : Assignment) (library : RuleLibrary ℚ) :
    Decides (expectedUtilities settings network names evidence library)
      (refusal? settings network true names evidence) := by
  refine decides_refusal? built rfl (fun name unknown => ?_) (fun name askable => ?_)
    fun askable askedWithin rowsWithin => ?_
  · have none : network.node? name = none := by
      simpa [isAskable, Network.contains, SortedMap.contains, Network.node?] using unknown
    rw [none]
  · obtain ⟨node, found⟩ := contains_iff.1 askable
    refine ⟨node.values, ?_, by rw [found]⟩
    rw [get?_nodeValues, found]
    rfl
  · have answer := expectedUtilities_eq built askable askedWithin rowsWithin evidence library
    by_cases positive : 0 < jointMass network true evidence
    · rw [if_pos positive] at answer ⊢
      obtain ⟨after, answered⟩ := exists_of_map_fst_eq_ok answer
      exact ⟨_, answered⟩
    · rw [if_neg positive] at answer ⊢
      exact eq_error_of_map_eq_error answer

/-- A query is answered if and only if every variable may be asked for, neither what is asked for
nor the joint distribution is too large, and the evidence has mass. Else the first of these
conditions that fails is the error, and the first unknown variable is the one it names. -/
theorem queries_decided (built : network.Built) (settings : Settings) (names : List String)
    (evidence : Assignment) (library : RuleLibrary ℚ) :
    ((∃ table, posterior settings network names evidence = .ok table) ↔
        Answerable settings network false names evidence) ∧
      (∀ failure, posterior settings network names evidence = .error failure ↔
        refusal? settings network false names evidence = some failure) ∧
      ((∃ answer, expectedUtilities settings network names evidence library = .ok answer) ↔
        Answerable settings network true names evidence) ∧
      ∀ failure, expectedUtilities settings network names evidence library = .error failure ↔
        refusal? settings network true names evidence = some failure := by
  have probabilities := posterior_decided built settings names evidence
  have utilities := expectedUtilities_decided built settings names evidence library
  exact ⟨probabilities.ok_iff.trans (refusal?_eq_none_iff ..), probabilities.error_iff,
    utilities.ok_iff.trans (refusal?_eq_none_iff ..), utilities.error_iff⟩

theorem queries_decided_wager :
    posterior {} wager ["coin", "call", "bell"] .empty = .error (.unknownVariable "call") ∧
      (∃ answer, expectedUtilities {} wager ["call", "coin", "call"] .empty .empty = .ok answer) ∧
      expectedUtilities { maxAssignments := 15 } wager ["call", "coin", "call"] .empty .empty =
        .error (.tooManyAssignments 16 15) ∧
      posterior {} wager ["coin"] (.single "first" (.text "heard")) =
        .error (.degenerateQuery (.single "first" (.text "heard"))) := by
  refine ⟨?_, ?_, ?_, ?_⟩
  · obtain ⟨_, refused, _⟩ :=
      queries_decided wager_built {} ["coin", "call", "bell"] .empty .empty
    exact (refused _).2 (by rfl)
  · obtain ⟨_, _, answered, _⟩ :=
      queries_decided wager_built {} ["call", "coin", "call"] .empty .empty
    exact answered.2 ⟨by decide +kernel, by decide +kernel, by decide +kernel, by decide +kernel⟩
  · obtain ⟨_, _, _, refused⟩ :=
      queries_decided wager_built { maxAssignments := 15 } ["call", "coin", "call"] .empty .empty
    exact (refused _).2 (by rfl)
  · obtain ⟨_, refused, _⟩ :=
      queries_decided wager_built {} ["coin"] (.single "first" (.text "heard")) .empty
    exact (refused _).2 (by rfl)

end Inference

end DecisionNetwork
