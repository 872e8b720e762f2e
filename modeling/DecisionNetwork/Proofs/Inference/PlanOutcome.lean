import DecisionNetwork.Proofs.Inference.Outcome
import DecisionNetwork.Proofs.Inference.Rebuild

/-!
Contract: what comes of carrying out a plan, be it in order or not.

Owns:
- `Unaskable`, refusals of what is asked for, with the errors of `chanceDomains` and `posterior`;
- `answeredRows` and `answeredNode`, a variable with a row wherever there is a posterior, with
  `conditionalTable_eq_ok` and `conditionalTable_eq_error`, the two ends of the loop over the rows;
- `reduceVariable_eq_ok` and `reduceVariable_eq_error`, what a step of a plan does;
- `Carries`, what holds between the steps, with `foldlM_eq_ok` and `foldlM_eq_error` for a run;
- `Carried`, what a variable becomes, and `reduce_carries_posteriors`, how a plan fails and what
  comes of one that does not.

An assignment without mass only leaves its row out, so no step is refused for lack of mass. A node
is only refused where the plan is out of order.
-/

namespace DecisionNetwork.Inference

open Network

/-- Refusals of what is asked for: something is unknown, or there is too much of it. -/
inductive Unaskable : InferenceError → Prop
  | unknown (name : String) : Unaskable (.unknownVariable name)
  | tooMany (count limit : Nat) : Unaskable (.tooManyAssignments count limit)

section Errors

theorem eq_error_of_bind {ε β γ : Type} {first : Except ε β} {rest : β → Except ε γ}
    {failure : ε} (fails : (first >>= rest) = .error failure) :
    first = .error failure ∨ ∃ value, first = .ok value ∧ rest value = .error failure := by
  cases first with
  | error reason =>
      cases fails
      exact Or.inl rfl
  | ok value => exact Or.inr ⟨value, rfl, fails⟩

theorem exists_of_mapM_eq_error {ε β γ : Type} {step : β → Except ε γ} {items : List β}
    {failure : ε} (fails : items.mapM step = .error failure) :
    ∃ item ∈ items, step item = .error failure := by
  induction items with
  | nil => cases fails
  | cons head tail inductionHypothesis =>
      rw [List.mapM_cons] at fails
      rcases eq_error_of_bind fails with first | ⟨result, _, later⟩
      · exact ⟨head, List.mem_cons_self, first⟩
      · rcases eq_error_of_bind later with rest | ⟨results, _, wrong⟩
        · obtain ⟨item, member, failed⟩ := inductionHypothesis rest
          exact ⟨item, List.mem_cons_of_mem head member, failed⟩
        · cases wrong

theorem eq_ok_of_mapError {ε ζ β : Type} {change : ε → ζ} {result : Except ε β} {value : β}
    (success : result.mapError change = .ok value) : result = .ok value := by
  cases result with
  | ok other => cases success; rfl
  | error cause => cases success

theorem exists_of_mapError_eq_error {ε ζ β : Type} {change : ε → ζ} {result : Except ε β}
    {failure : ζ} (fails : result.mapError change = .error failure) :
    ∃ cause, failure = change cause ∧ result = .error cause := by
  cases result with
  | ok value => cases fails
  | error cause => exact ⟨cause, (Except.error.inj fails).symm, rfl⟩

variable {α : Type} {network : Network α} {settings : Settings} {names : List String}
  {failure : InferenceError}

theorem checkSize_unaskable {domains : Domains}
    (fails : checkSize settings domains = .error failure) : Unaskable failure := by
  unfold checkSize at fails
  split at fails
  · cases fails
    exact .tooMany _ _
  · cases fails

theorem chanceDomains_unaskable (fails : chanceDomains settings network names = .error failure) :
    Unaskable failure := by
  rcases eq_error_of_bind fails with lookups | ⟨entries, _, later⟩
  · obtain ⟨name, _, failed⟩ := exists_of_mapM_eq_error lookups
    split at failed
    · cases failed
    · cases failed
      exact .unknown name
  · rcases eq_error_of_bind later with tooMany | ⟨_, _, wrong⟩
    · exact checkSize_unaskable tooMany
    · cases wrong

theorem count_le_of_checkSize {domains : Domains} (passes : checkSize settings domains = .ok ()) :
    domains.count ≤ settings.maxAssignments := by
  by_contra above
  rw [checkSize_eq_error (Nat.not_le.1 above)] at passes
  cases passes

/-- Domains that are taken are those of the variables. -/
theorem eq_among_of_chanceDomains (built : network.Built) {domains : Domains}
    (taken : chanceDomains settings network names = .ok domains) :
    domains = network.domains.among names ∧
      (network.domains.among names).count ≤ settings.maxAssignments := by
  have chance := isSome_of_chanceDomains_eq_ok taken
  have checked := taken
  unfold chanceDomains at checked
  rw [@lookups_eq_checked settings names network.domains] at checked
  · obtain ⟨_, size, same⟩ := exists_of_bind_eq_ok checked
    exact ⟨(Except.ok.inj same).symm, count_le_of_checkSize size⟩
  · intro name member
    obtain ⟨node, found⟩ := Option.isSome_iff_exists.1 (chance name member)
    exact ⟨node.values, by rw [built.get?_domains, found, Option.map_some], by rw [found]⟩

end Errors

section Posteriors

variable {network : Network ℚ} {settings : Settings} {names : List String} {evidence : Assignment}

/-- A query is refused for what it asks for or for lack of mass. -/
theorem posterior_eq_error (built : network.Built) {failure : InferenceError}
    (fails : posterior settings network names evidence = .error failure) :
    Unaskable failure ∨ failure = .degenerateQuery evidence := by
  rw [(posterior_decided built settings names evidence).error_iff] at fails
  unfold refusal? at fails
  split at fails
  · cases fails
    exact Or.inl (.unknown _)
  · split_ifs at fails
    · cases fails
      exact Or.inl (.tooMany _ _)
    · cases fails
      exact Or.inl (.tooMany _ _)
    · cases fails
      exact Or.inr rfl

/-- An answer is the table of conditional probabilities, given evidence that has mass. -/
theorem eq_posteriorTable_of_posterior (built : network.Built) {table : CategoricalTable ℚ}
    (answer : posterior settings network names evidence = .ok table) :
    0 < evidenceMass network evidence ∧ table = posteriorTable network names evidence := by
  obtain ⟨domains, taken, afterDomains⟩ := exists_of_bind_eq_ok answer
  obtain ⟨joint, enumerated, _⟩ := exists_of_bind_eq_ok afterDomains
  obtain ⟨_, within⟩ := eq_among_of_chanceDomains built taken
  obtain ⟨_, size, _⟩ := exists_of_bind_eq_ok enumerated
  have jointWithin : network.domains.count ≤ settings.maxAssignments := count_le_of_checkSize size
  rw [posterior_eq built (isSome_of_chanceDomains_eq_ok taken) within jointWithin] at answer
  split_ifs at answer with positive
  exact ⟨positive, (Except.ok.inj answer).symm⟩

end Posteriors

section Rows

variable {α : Type} [Scalar α]

/-- The posteriors of a variable for those assignments of its inputs that have one. -/
def answeredRows (settings : Settings) (network : Network α) (name : String)
    (evidence : Assignment) (assignments : List Assignment) :
    List (Assignment × CategoricalTable α) :=
  assignments.filterMap fun parents =>
    (posterior settings network [name] (evidence.compose parents)).toOption.map
      fun table => (parents, table)

/-- The combinations of the values that the inputs of a variable have in the whole network. -/
def inputCombinations (network : Network α) (plan : ReductionPlan) (name : String) :
    List Assignment :=
  (network.domains.among (plan.inputsOf name).toList).combinations

/-- A variable with the inputs that a plan gives it. -/
def plannedNode (plan : ReductionPlan) (name : String) (tables : ConditionalTable α) :
    ChanceNode α :=
  ⟨name, plan.inputsOf name, .conditional tables⟩

/-- The rows of a variable in the smaller network. -/
def answeredTables (settings : Settings) (network : Network α) (plan : ReductionPlan)
    (name : String) : ConditionalTable α :=
  ⟨.insertMany .empty (answeredRows settings network name plan.evidence
    (inputCombinations network plan name))⟩

/-- The node of a variable in the smaller network. -/
def answeredNode (settings : Settings) (network : Network α) (plan : ReductionPlan)
    (name : String) : ChanceNode α :=
  plannedNode plan name (answeredTables settings network plan name)

variable {settings : Settings} {network : Network α} {name : String} {evidence : Assignment}
  {assignments : List Assignment}

theorem mem_answeredRows_iff {parents : Assignment} {table : CategoricalTable α} :
    (parents, table) ∈ answeredRows settings network name evidence assignments ↔
      parents ∈ assignments ∧
        posterior settings network [name] (evidence.compose parents) = .ok table := by
  rw [answeredRows, List.mem_filterMap]
  constructor
  · rintro ⟨other, member, found⟩
    cases answer : posterior settings network [name] (evidence.compose other) with
    | ok table =>
        rw [answer] at found
        cases found
        exact ⟨member, answer⟩
    | error failure =>
        rw [answer] at found
        cases found
  · rintro ⟨member, answer⟩
    exact ⟨parents, member, by rw [answer]; rfl⟩

theorem conditionalTable_eq_ok {table final : ConditionalTable α}
    (success : conditionalTable settings network name evidence table assignments = .ok final) :
    final = ⟨table.tables.insertMany
      (answeredRows settings network name evidence assignments)⟩ := by
  fun_induction conditionalTable settings network name evidence table assignments with
  | case1 table => exact (Except.ok.inj success).symm
  | case2 table parents rest distribution answer inductionHypothesis =>
      rw [inductionHypothesis success, answeredRows, answeredRows, List.filterMap_cons, answer]
      rfl
  | case3 table parents rest given noMass inductionHypothesis =>
      rw [inductionHypothesis success, answeredRows, answeredRows, List.filterMap_cons, noMass]
      rfl
  | case4 => cases success

/-- The loop over the rows fails with the first refusal that is not for lack of mass. -/
theorem conditionalTable_eq_error {table : ConditionalTable α} {failure : InferenceError}
    (fails : conditionalTable settings network name evidence table assignments = .error failure) :
    (∀ given, failure ≠ .degenerateQuery given) ∧
      ∃ parents ∈ assignments,
        posterior settings network [name] (evidence.compose parents) = .error failure := by
  fun_induction conditionalTable settings network name evidence table assignments with
  | case1 => cases fails
  | case2 table parents rest distribution answer inductionHypothesis =>
      obtain ⟨hasMass, other, member, failed⟩ := inductionHypothesis fails
      exact ⟨hasMass, other, List.mem_cons_of_mem parents member, failed⟩
  | case3 table parents rest given noMass inductionHypothesis =>
      obtain ⟨hasMass, other, member, failed⟩ := inductionHypothesis fails
      exact ⟨hasMass, other, List.mem_cons_of_mem parents member, failed⟩
  | case4 table parents rest reason hasMass failed =>
      cases fails
      exact ⟨hasMass, parents, List.mem_cons_self, failed⟩

end Rows

section Steps

variable {network reduced : Network ℚ} {settings : Settings} {plan : ReductionPlan} {name : String}

theorem reduceVariable_of_unknown (unknown : (network.chanceNode? name).isNone) :
    reduceVariable settings network plan reduced name = .error (.unknownVariable name) := by
  unfold reduceVariable
  rw [if_pos unknown]
  rfl

theorem reduceVariable_of_known (known : ¬ (network.chanceNode? name).isNone) :
    reduceVariable settings network plan reduced name = (do
      let domains ← chanceDomains settings network (plan.inputsOf name).toList
      let table ← conditionalTable settings network name plan.evidence .empty domains.combinations
      (reduced.add (.chance ⟨name, plan.inputsOf name, .conditional table⟩)).mapError .model) := by
  unfold reduceVariable
  rw [if_neg known]
  refine bind_congr fun domains => bind_congr fun table => ?_
  cases reduced.add (.chance ⟨name, plan.inputsOf name, .conditional table⟩) <;> rfl

/-- A step that succeeds adds the node of a chance variable whose inputs are chance variables. -/
theorem reduceVariable_eq_ok (built : network.Built) {next : Network ℚ}
    (success : reduceVariable settings network plan reduced name = .ok next) :
    (∀ other ∈ name :: (plan.inputsOf name).toList, (network.chanceNode? other).isSome) ∧
      reduced.add (.chance (answeredNode settings network plan name)) = .ok next := by
  by_cases unknown : (network.chanceNode? name).isNone
  · rw [reduceVariable_of_unknown unknown] at success
    cases success
  · rw [reduceVariable_of_known unknown] at success
    obtain ⟨domains, taken, afterDomains⟩ := exists_of_bind_eq_ok success
    obtain ⟨table, answered, added⟩ := exists_of_bind_eq_ok afterDomains
    obtain ⟨rfl, _⟩ := eq_among_of_chanceDomains built taken
    cases conditionalTable_eq_ok answered
    constructor
    · intro other member
      rcases List.mem_cons.1 member with rfl | reads
      · simpa [Option.isSome_iff_ne_none] using unknown
      · exact isSome_of_chanceDomains_eq_ok taken other reads
    · exact eq_ok_of_mapError added

/-- A step fails for what is asked for, or because the node is refused. -/
theorem reduceVariable_eq_error (built : network.Built) {failure : InferenceError}
    (fails : reduceVariable settings network plan reduced name = .error failure) :
    Unaskable failure ∨ ∃ cause, failure = .model cause ∧
      reduced.add (.chance (answeredNode settings network plan name)) = .error cause := by
  by_cases unknown : (network.chanceNode? name).isNone
  · rw [reduceVariable_of_unknown unknown] at fails
    cases fails
    exact Or.inl (.unknown name)
  · rw [reduceVariable_of_known unknown] at fails
    rcases eq_error_of_bind fails with lookups | ⟨domains, taken, afterDomains⟩
    · exact Or.inl (chanceDomains_unaskable lookups)
    rcases eq_error_of_bind afterDomains with rows | ⟨table, answered, added⟩
    · obtain ⟨hasMass, parents, _, failed⟩ := conditionalTable_eq_error rows
      rcases posterior_eq_error built failed with unaskable | noMass
      · exact Or.inl unaskable
      · exact absurd noMass (hasMass _)
    · obtain ⟨rfl, _⟩ := eq_among_of_chanceDomains built taken
      cases conditionalTable_eq_ok answered
      exact Or.inr (exists_of_mapError_eq_error added)

end Steps

/-- What holds of the smaller network once some variables of a plan have been added: they are its
nodes, each was new and came after its inputs, and all are chance variables. -/
structure Carries (settings : Settings) (network : Network ℚ) (plan : ReductionPlan)
    (done : List String) (reduced : Network ℚ) : Prop where
  nodes : ∀ id, reduced.node? id =
    if id ∈ done then some (.chance (answeredNode settings network plan id)) else none
  nodup : done.Nodup
  inputsBefore : ∀ before name after, done = before ++ name :: after →
    (plan.inputsOf name).toList ⊆ before
  chance : ∀ name ∈ done, ∀ other ∈ name :: (plan.inputsOf name).toList,
    (network.chanceNode? other).isSome

section Run

variable {network reduced : Network ℚ} {settings : Settings} {plan : ReductionPlan}
  {done pending : List String} {name : String}

theorem carries_empty : Carries settings network plan [] .empty where
  nodes _ := rfl
  nodup := List.nodup_nil
  inputsBefore before name after split := by simp at split
  chance _ member := by cases member

theorem Carries.contains_iff (carries : Carries settings network plan done reduced) (id : String) :
    reduced.contains id = true ↔ id ∈ done :=
  contains_iff_of_rendered carries.nodes id

theorem Carries.step (built : network.Built) (carries : Carries settings network plan done reduced)
    {next : Network ℚ} (success : reduceVariable settings network plan reduced name = .ok next) :
    Carries settings network plan (done ++ [name]) next := by
  obtain ⟨known, added⟩ := reduceVariable_eq_ok built success
  obtain ⟨new, present, rfl⟩ := add_eq_ok_iff.1 added
  have isNew : name ∉ done := by
    rw [← carries.contains_iff, Bool.not_eq_true]
    exact new
  constructor
  case nodes => exact node?_insert_of_rendered carries.nodes rfl
  case nodup =>
    exact List.nodup_append.2 ⟨carries.nodup, List.nodup_singleton name, by
      rintro other member _ isLast rfl
      exact isNew (List.mem_singleton.1 isLast ▸ member)⟩
  case inputsBefore =>
    intro before other after split
    rcases List.eq_nil_or_concat after with rfl | ⟨earlier, last, rfl⟩
    · obtain ⟨rfl, isLast⟩ := List.append_inj' split rfl
      cases isLast
      exact fun input reads => (carries.contains_iff input).1 (present input reads)
    · rw [List.concat_eq_append, ← List.cons_append, ← List.append_assoc] at split
      exact carries.inputsBefore before other earlier (List.append_inj' split rfl).1
  case chance =>
    intro other member
    rcases List.mem_append.1 member with earlier | isLast
    · exact carries.chance other earlier
    · exact List.mem_singleton.1 isLast ▸ known

theorem foldlM_eq_ok (built : network.Built) (carries : Carries settings network plan done reduced)
    {last : Network ℚ}
    (success : pending.foldlM (reduceVariable settings network plan) reduced = .ok last) :
    Carries settings network plan (done ++ pending) last := by
  induction pending generalizing done reduced with
  | nil =>
      cases success
      rwa [List.append_nil]
  | cons name rest inductionHypothesis =>
      rw [List.foldlM_cons] at success
      obtain ⟨next, step, later⟩ := exists_of_bind_eq_ok success
      rw [List.append_cons]
      exact inductionHypothesis (carries.step built step) later

/-- A run fails for what is asked for, or in a plan that is out of order. -/
theorem foldlM_eq_error (built : network.Built)
    (carries : Carries settings network plan done reduced) (split : plan.order = done ++ pending)
    {failure : InferenceError}
    (fails : pending.foldlM (reduceVariable settings network plan) reduced = .error failure) :
    Unaskable failure ∨ (∃ cause, failure = .model cause) ∧ ¬ plan.Ordered := by
  induction pending generalizing done reduced with
  | nil => cases fails
  | cons name rest inductionHypothesis =>
      rw [List.foldlM_cons] at fails
      rcases eq_error_of_bind fails with step | ⟨next, step, later⟩
      · rcases reduceVariable_eq_error built step with unaskable | ⟨cause, isModel, refused⟩
        · exact Or.inl unaskable
        · refine Or.inr ⟨⟨cause, isModel⟩, fun ordered => ?_⟩
          cases add_eq_error_iff.1 refused with
          | taken present =>
              have repeated := (carries.contains_iff name).1 present
              have nodup := ordered.nodup
              rw [split, List.nodup_append] at nodup
              exact nodup.2.2 name repeated name List.mem_cons_self rfl
          | missing _ reads absent _ =>
              have earlier := ordered.inputsBefore done name rest split reads
              rw [(carries.contains_iff _).2 earlier] at absent
              cases absent
      · rw [List.append_cons] at split
        exact inductionHypothesis (carries.step built step) split later

end Run

/-- What a plan makes of a variable. For a combination of the values of its inputs it has the
posterior as its row where there is one, and else gives every value probability zero. It keeps its
domain unless it has no rows at all. -/
structure Carried (settings : Settings) (network : Network ℚ) (plan : ReductionPlan)
    (source : ChanceNode ℚ) (tables : ConditionalTable ℚ) : Prop where
  conditions : ∀ condition ∈ tables.conditions,
    condition ∈ inputCombinations network plan source.id
  row_iff : ∀ parents ∈ inputCombinations network plan source.id, ∀ table,
    tables.table? parents = some table ↔
      posterior settings network [source.id] (plan.evidence.compose parents) = .ok table
  total : ∀ parents ∈ inputCombinations network plan source.id, ∀ table,
    tables.table? parents = some table → table.total = 1
  missing : ∀ parents ∈ inputCombinations network plan source.id, tables.table? parents = none →
    ∀ value, (plannedNode plan source.id tables).probability parents value = 0
  keeps : (∃ parents ∈ inputCombinations network plan source.id,
    (tables.table? parents).isSome) → (plannedNode plan source.id tables).values = source.values
  loses : (∀ parents ∈ inputCombinations network plan source.id, tables.table? parents = none) →
    (plannedNode plan source.id tables).values = []

section Tables

variable {network : Network ℚ} {settings : Settings} {plan : ReductionPlan} {name : String}

theorem answeredRows_pairwise :
    (answeredRows settings network name plan.evidence
      (inputCombinations network plan name)).Pairwise
        fun left right => compare left.1 right.1 ≠ .eq := by
  refine List.pairwise_filterMap.2 ((Domains.combinations_pairwise _).imp ?_)
  intro left right apart first isFirst second isSecond
  obtain ⟨_, _, rfl⟩ := Option.map_eq_some_iff.1 isFirst
  obtain ⟨_, _, rfl⟩ := Option.map_eq_some_iff.1 isSecond
  exact apart

/-- The row for a combination is the posterior, if there is one. -/
theorem table?_answeredTables {parents : Assignment}
    (member : parents ∈ inputCombinations network plan name) (table : CategoricalTable ℚ) :
    (answeredTables settings network plan name).table? parents = some table ↔
      posterior settings network [name] (plan.evidence.compose parents) = .ok table := by
  have row {answer : CategoricalTable ℚ}
      (answered : posterior settings network [name] (plan.evidence.compose parents) = .ok answer) :
      (answeredTables settings network plan name).table? parents = some answer :=
    SortedMap.get?_insertMany_of_mem .empty answeredRows_pairwise
      (mem_answeredRows_iff.2 ⟨member, answered⟩)
  refine ⟨fun found => ?_, row⟩
  cases answered : posterior settings network [name] (plan.evidence.compose parents) with
  | ok answer => rw [Except.ok.injEq, ← Option.some.injEq, ← row answered, found]
  | error failure =>
      have absent : (answeredTables settings network plan name).table? parents = none := by
        refine SortedMap.get?_insertMany_of_apart .empty fun binding listed same => ?_
        obtain ⟨bindingMember, bindingAnswered⟩ := mem_answeredRows_iff.1 listed
        rw [← Domains.eq_of_compare_eq_of_mem member bindingMember same, answered]
          at bindingAnswered
        cases bindingAnswered
      rw [absent] at found
      cases found

theorem mem_of_mem_conditions {condition : Assignment}
    (member : condition ∈ (answeredTables settings network plan name).conditions) :
    condition ∈ inputCombinations network plan name := by
  have listed := (SortedMap.toList_insertMany_perm
    (@answeredRows_pairwise network settings plan name)).map Prod.fst
  obtain ⟨entry, inRows, rfl⟩ := List.mem_map.1 (listed.mem_iff.1 member)
  exact (mem_answeredRows_iff.1 inRows).1

/-- Every table among the rows has the values of the variable. -/
theorem values_of_mem_answeredTables (built : network.Built) {source : ChanceNode ℚ}
    (found : network.chanceNode? name = some source) {table : CategoricalTable ℚ}
    (member : table ∈ (answeredTables settings network plan name).tables.values) :
    table.values name = source.values := by
  rcases SortedMap.mem_values_insertMany member with inEmpty | ⟨parents, inRows⟩
  · cases inEmpty
  · obtain ⟨_, rfl⟩ := eq_posteriorTable_of_posterior built (mem_answeredRows_iff.1 inRows).2
    exact values_posteriorTable built found _

theorem carried_answeredTables (built : network.Built) {source : ChanceNode ℚ}
    (found : network.chanceNode? source.id = some source) :
    Carried settings network plan source (answeredTables settings network plan source.id) where
  conditions _ := mem_of_mem_conditions
  row_iff _ := table?_answeredTables
  total parents member table isRow := by
    obtain ⟨positive, rfl⟩ := eq_posteriorTable_of_posterior built
      ((table?_answeredTables member table).1 isRow)
    exact total_posteriorTable positive
  missing parents member isMissing value := by
    show (answeredTables settings network plan source.id).probability
      (parents.restrict (plan.inputsOf source.id).toList) _ = 0
    rw [Domains.restrict_eq_self member, ConditionalTable.probability, isMissing]
    rfl
  keeps := by
    rintro ⟨parents, member, hasRow⟩
    obtain ⟨table, isRow⟩ := Option.isSome_iff_exists.1 hasRow
    exact values_of_tables source.values_ascending
      (fun _ => values_of_mem_answeredTables built found) isRow
  loses none := by
    have noRows : (answeredTables settings network plan source.id).tables.values = [] := by
      refine List.eq_nil_iff_forall_not_mem.2 fun table listed => ?_
      rcases SortedMap.mem_values_insertMany listed with inEmpty | ⟨parents, inRows⟩
      · cases inEmpty
      · obtain ⟨member, answered⟩ := mem_answeredRows_iff.1 inRows
        have isRow := (table?_answeredTables member table).2 answered
        rw [none parents member] at isRow
        cases isRow
    show ConditionalTable.values _ source.id = []
    rw [ConditionalTable.values, noRows]
    rfl

end Tables

section Outcome

variable {network : Network ℚ} {settings : Settings} {plan : ReductionPlan}

theorem reduce_eq_error (built : network.Built) {failure : InferenceError}
    (fails : reduce settings network plan = .error failure) :
    Unaskable failure ∨ (∃ cause, failure = .model cause) ∧ ¬ plan.Ordered :=
  foldlM_eq_error built carries_empty rfl fails

theorem carries_of_reduce (built : network.Built) {reduced : Network ℚ}
    (success : reduce settings network plan = .ok reduced) :
    Carries settings network plan plan.order reduced :=
  foldlM_eq_ok built carries_empty success

theorem not_ordered_of_reduce_eq_model (built : network.Built) {cause : ModelError}
    (fails : reduce settings network plan = .error (.model cause)) : ¬ plan.Ordered := by
  rcases reduce_eq_error built fails with unaskable | ⟨_, disordered⟩
  · cases unaskable
  · exact disordered

/-- A plan never fails for lack of mass, and it fails for a node that is refused only if it repeats
a variable or gives one an input that does not come before it, so never if it was derived from the
network. If it is carried out, the smaller network has exactly its variables with exactly their
inputs, and their rows are the posteriors. It is carried out if it is in order and asks for chance
variables, and not for too much. -/
theorem reduce_carries_posteriors (built : network.Built) (settings : Settings)
    (plan : ReductionPlan) :
    (∀ evidence, reduce settings network plan ≠ .error (.degenerateQuery evidence)) ∧
      (∀ cause, reduce settings network plan = .error (.model cause) → ¬ plan.Ordered) ∧
      (∀ retained evidence cause, reduce settings network (.ofNetwork network retained evidence) ≠
        .error (.model cause)) ∧
      (∀ reduced, reduce settings network plan = .ok reduced →
        plan.Ordered ∧ (∀ id, reduced.contains id = true ↔ id ∈ plan.order) ∧
        ∀ name ∈ plan.order,
          (∀ input ∈ (plan.inputsOf name).toList, (network.chanceNode? input).isSome) ∧
          ∃ source tables, network.chanceNode? name = some source ∧
            reduced.node? name = some (.chance (plannedNode plan name tables)) ∧
            Carried settings network plan source tables) ∧
      (plan.Ordered → (∀ name ∈ plan.order, (network.chanceNode? name).isSome) →
        (∀ names ⊆ plan.order, (network.domains.among names).count ≤ settings.maxAssignments) →
        network.domains.count ≤ settings.maxAssignments →
        ∃ reduced, reduce settings network plan = .ok reduced) := by
  refine ⟨fun evidence failed => ?_,
    fun cause failed => not_ordered_of_reduce_eq_model built failed,
    fun retained evidence cause failed => ?_, fun reduced success => ?_,
    fun ordered chance within jointWithin => ?_⟩
  · rcases reduce_eq_error built failed with unaskable | ⟨⟨_, isModel⟩, _⟩
    · cases unaskable
    · cases isModel
  · exact not_ordered_of_reduce_eq_model built failed (ReductionPlan.ordered_ofNetwork built)
  · have carries := carries_of_reduce built success
    refine ⟨⟨carries.nodup, carries.inputsBefore⟩, carries.contains_iff, fun name member => ?_⟩
    have known := carries.chance name member
    obtain ⟨source, found⟩ := Option.isSome_iff_exists.1 (known name List.mem_cons_self)
    cases built.chanceNode_id found
    refine ⟨fun input reads => known input (List.mem_cons_of_mem _ reads), source,
      answeredTables settings network plan source.id, found, ?_, carried_answeredTables built found⟩
    rw [carries.nodes, if_pos member]
    rfl
  · obtain ⟨reduced, success, _⟩ := reduce_eq built ordered chance within jointWithin
    exact ⟨reduced, success⟩

/-- The coin and its first report, given that the second report is a head. -/
def headReported : ReductionPlan :=
  ⟨["coin", "first"], .insert .empty "first" (.ofList ["coin"]), .single "second" (.boolean true)⟩

/-- A tail is never reported as a head, so the report has no row for it and keeps its domain. -/
theorem reduce_carries_posteriors_headReported :
    (∃ reduced tables, reduce {} coinWithEchoes headReported = .ok reduced ∧
      reduced.node? "first" = some (.chance (plannedNode headReported "first" tables)) ∧
      (tables.table? (.single "coin" (.boolean true))).isSome ∧
      tables.table? (.single "coin" (.boolean false)) = none ∧
      (plannedNode headReported "first" tables).values = (echo "first").values) ∧
      ¬ (headReported.withInputs "coin" ["first"]).Ordered := by
  obtain ⟨_, _, _, carried, _⟩ := reduce_carries_posteriors coinWithEchoes_built {} headReported
  constructor
  · cases success : reduce {} coinWithEchoes headReported with
    | error failure =>
        have wrong : (reduce {} coinWithEchoes headReported).toBool = true := by decide +kernel
        rw [success] at wrong
        cases wrong
    | ok reduced =>
        obtain ⟨_, _, named⟩ := carried reduced success
        obtain ⟨_, source, tables, found, isNode, rows⟩ := named "first" (by decide)
        obtain rfl : echo "first" = source := Option.some.inj found
        have isTail : .single "coin" (.boolean false) ∈
            inputCombinations coinWithEchoes headReported "first" :=
          @List.mem_of_getElem? _ _ 0 _ (by rfl)
        have isHead : .single "coin" (.boolean true) ∈
            inputCombinations coinWithEchoes headReported "first" :=
          @List.mem_of_getElem? _ _ 1 _ (by rfl)
        have heads : (tables.table? (.single "coin" (.boolean true))).isSome := by
          cases answer : posterior {} coinWithEchoes ["first"]
              (headReported.evidence.compose (.single "coin" (.boolean true))) with
          | ok table =>
              rw [(rows.row_iff _ isHead table).2 answer]
              rfl
          | error failure =>
              have wrong : (posterior {} coinWithEchoes ["first"] (headReported.evidence.compose
                  (.single "coin" (.boolean true)))).toBool = true := by decide +kernel
              rw [answer] at wrong
              cases wrong
        have tails : tables.table? (.single "coin" (.boolean false)) = none := by
          refine Option.eq_none_iff_forall_ne_some.2 fun table isRow => ?_
          have answer := (rows.row_iff _ isTail table).1 isRow
          have wrong : (posterior {} coinWithEchoes ["first"] (headReported.evidence.compose
              (.single "coin" (.boolean false)))).toBool = false := by decide +kernel
          rw [show posterior {} coinWithEchoes ["first"] _ = .ok table from answer] at wrong
          cases wrong
        exact ⟨reduced, tables, rfl, isNode, heads, tails,
          rows.keeps ⟨_, isHead, heads⟩⟩
  · obtain ⟨_, refused, _⟩ :=
      reduce_carries_posteriors coinWithEchoes_built {} (headReported.withInputs "coin" ["first"])
    have isRefused : (match reduce {} coinWithEchoes (headReported.withInputs "coin" ["first"]) with
      | .error (.model _) => true
      | _ => false) = true := by decide +kernel
    split at isRefused
    next cause failed => exact refused cause failed
    next => cases isRefused

end Outcome

end DecisionNetwork.Inference
