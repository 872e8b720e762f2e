import DecisionNetwork.Inference.Posterior
import DecisionNetwork.Proofs.Inference.Mass
import Mathlib.Algebra.BigOperators.Ring.List
import Mathlib.Algebra.Order.BigOperators.Group.List
import Mathlib.Algebra.Order.Field.Basic

/-!
Contract: queries as quotients of probability masses, over exact numbers.

Owns:
- `mapM_eq_ok` and `exists_of_mapM_eq_ok`, steps that all succeed, `mapM_eq_error`, the first that
  fails, and `lookups_eq`, by which the domains of variables are taken;
- `jointRows` and `fullJoint_of_within`, the rows that are enumerated;
- `evidenceMass` and `partMass`, the mass of the evidence alone and together with other values;
- `posteriorTable` and `posterior_eq`, what a query answers;
- `posterior_factorises`, by which the answers to queries fit together as conditional probabilities.
-/

namespace DecisionNetwork.Inference

open Network

/-- The mass of the rows that contain the evidence. -/
def evidenceMass (network : Network ℚ) (evidence : Assignment) : ℚ :=
  mass network fun row => row.contains evidence

/-- The mass of the rows that contain the evidence and a part. -/
def partMass (network : Network ℚ) (evidence part : Assignment) : ℚ :=
  mass network fun row => row.contains evidence && row.contains part

/-- The conditional probabilities of the combinations of some variables. -/
def posteriorTable (network : Network ℚ) (names : List String) (evidence : Assignment) :
    CategoricalTable ℚ :=
  .ofList ((network.domains.among names).combinations.map fun part =>
    (part, partMass network evidence part / evidenceMass network evidence))

theorem sum_map_div {ι : Type} (items : List ι) (number : ι → ℚ) (divisor : ℚ) :
    (items.map fun item => number item / divisor).sum = (items.map number).sum / divisor := by
  simp only [div_eq_mul_inv]
  rw [List.sum_map_mul_right]

section Queries

variable {α : Type} {network : Network α} {settings : Settings} {names : List String}

theorem checkSize_eq_ok {domains : Domains} (within : domains.count ≤ settings.maxAssignments) :
    checkSize settings domains = .ok () := by
  rw [checkSize, if_neg (Nat.not_lt.2 within)]

theorem checkSize_eq_error {domains : Domains} (above : settings.maxAssignments < domains.count) :
    checkSize settings domains =
      .error (.tooManyAssignments domains.count settings.maxAssignments) := by
  rw [checkSize, if_pos above]

theorem mapM_eq_ok {ε β γ : Type} {step : β → Except ε γ} (result : β → γ)
    {items : List β} (succeeds : ∀ item ∈ items, step item = .ok (result item)) :
    items.mapM step = .ok (items.map result) := by
  induction items with
  | nil => rfl
  | cons head tail inductionHypothesis =>
      have rest := inductionHypothesis fun item member =>
        succeeds item (List.mem_cons_of_mem head member)
      rw [List.mapM_cons, succeeds head List.mem_cons_self, rest]
      rfl

/-- The first of several steps that fails decides. -/
theorem mapM_eq_error {ε β γ : Type} {step : β → Except ε γ} {before after : List β} {item : β}
    {failure : ε} (succeeds : ∀ earlier ∈ before, ∃ result, step earlier = .ok result)
    (fails : step item = .error failure) :
    (before ++ item :: after).mapM step = .error failure := by
  induction before with
  | nil =>
      rw [List.nil_append, List.mapM_cons, fails]
      rfl
  | cons head tail inductionHypothesis =>
      obtain ⟨result, first⟩ := succeeds head List.mem_cons_self
      have rest := inductionHypothesis fun earlier member =>
        succeeds earlier (List.mem_cons_of_mem head member)
      rw [List.cons_append, List.mapM_cons, first, rest]
      rfl

theorem exists_of_bind_eq_ok {ε β γ : Type} {first : Except ε β} {rest : β → Except ε γ}
    {result : γ} (succeeds : (first >>= rest) = .ok result) :
    ∃ value, first = .ok value ∧ rest value = .ok result := by
  cases first with
  | error failure => cases succeeds
  | ok value => exact ⟨value, rfl, succeeds⟩

theorem exists_of_mapM_eq_ok {ε β γ : Type} {step : β → Except ε γ} {items : List β}
    {results : List γ} (succeeds : items.mapM step = .ok results) :
    ∀ item ∈ items, ∃ result, step item = .ok result := by
  induction items generalizing results with
  | nil => simp
  | cons head tail inductionHypothesis =>
      rw [List.mapM_cons] at succeeds
      obtain ⟨result, first, later⟩ := exists_of_bind_eq_ok succeeds
      obtain ⟨others, rest, _⟩ := exists_of_bind_eq_ok later
      intro item member
      rcases List.mem_cons.1 member with rfl | inTail
      · exact ⟨result, first⟩
      · exact inductionHypothesis rest item inTail

/-- Binding some of the variables to their domains keeps these domains. -/
theorem insertMany_domains_eq {domains : Domains}
    (found : ∀ name ∈ names, (domains.get? name).isSome) :
    SortedMap.empty.insertMany (names.map fun name => (name, (domains.get? name).getD [])) =
      domains.among names := by
  refine SortedMap.ext_get? fun name => ?_
  rw [SortedMap.get?_insertMany_map _ names fun name => (domains.get? name).getD [],
    Domains.get?_among]
  split
  next member =>
      obtain ⟨domain, isDomain⟩ := Option.isSome_iff_exists.1 (found name member)
      rw [isDomain, Option.getD_some]
  next => rfl

/-- Variables that have a domain each are looked up one after the other. -/
theorem lookups_eq_checked {domains : Domains}
    {lookup : String → Except InferenceError (String × List Value)}
    (found : ∀ name ∈ names, ∃ domain, domains.get? name = some domain ∧
      lookup name = .ok (name, domain)) :
    (do
      let entries ← names.mapM lookup
      let gathered := SortedMap.empty.insertMany entries
      checkSize settings gathered
      return gathered) =
      do
        checkSize settings (domains.among names)
        return domains.among names := by
  rw [mapM_eq_ok fun name => (name, (domains.get? name).getD [])]
  · show (do checkSize settings (SortedMap.empty.insertMany _); pure _) = _
    rw [insertMany_domains_eq]
    intro name member
    obtain ⟨domain, isDomain, _⟩ := found name member
    rw [isDomain, Option.isSome_some]
  · intro name member
    obtain ⟨domain, isDomain, isEntry⟩ := found name member
    rw [isEntry, isDomain, Option.getD_some]

theorem lookups_eq {domains : Domains}
    {lookup : String → Except InferenceError (String × List Value)}
    (found : ∀ name ∈ names, ∃ domain, domains.get? name = some domain ∧
      lookup name = .ok (name, domain))
    (within : (domains.among names).count ≤ settings.maxAssignments) :
    (do
      let entries ← names.mapM lookup
      let gathered := SortedMap.empty.insertMany entries
      checkSize settings gathered
      return gathered) = .ok (domains.among names) := by
  rw [lookups_eq_checked found, checkSize_eq_ok within]
  rfl

theorem chanceDomains_eq (built : network.Built)
    (chance : ∀ name ∈ names, (network.chanceNode? name).isSome)
    (within : (network.domains.among names).count ≤ settings.maxAssignments) :
    chanceDomains settings network names = .ok (network.domains.among names) := by
  apply lookups_eq _ within
  intro name member
  obtain ⟨node, found⟩ := Option.isSome_iff_exists.1 (chance name member)
  refine ⟨node.values, ?_, ?_⟩
  · rw [built.get?_domains, found, Option.map_some]
  · rw [found]

/-- Only chance variables have their domains taken. -/
theorem isSome_of_chanceDomains_eq_ok {domains : Domains}
    (taken : chanceDomains settings network names = .ok domains) :
    ∀ name ∈ names, (network.chanceNode? name).isSome := by
  intro name member
  obtain ⟨entries, found, _⟩ := exists_of_bind_eq_ok taken
  obtain ⟨entry, isEntry⟩ := exists_of_mapM_eq_ok found name member
  cases isChance : network.chanceNode? name with
  | none => simp [isChance] at isEntry
  | some node => rfl

end Queries

variable {network : Network ℚ} {settings : Settings} {names : List String}
  {evidence : Assignment}

/-- The joint distribution, as it is enumerated. -/
def jointRows (network : Network ℚ) (withActions : Bool) : SortedMap Assignment ℚ :=
  .ofList ((jointDomains network withActions).combinations.map fun row =>
    (row, jointProbability network withActions row))

theorem fullJoint_of_within {withActions : Bool}
    (within : (jointDomains network withActions).count ≤ settings.maxAssignments) :
    fullJoint settings network withActions = .ok (jointRows network withActions) := by
  show (do checkSize settings (jointDomains network withActions); pure _) = _
  rw [checkSize_eq_ok within]
  rfl

theorem fullJoint_of_above {withActions : Bool}
    (above : settings.maxAssignments < (jointDomains network withActions).count) :
    fullJoint settings network withActions =
      .error (.tooManyAssignments (jointDomains network withActions).count
        settings.maxAssignments) := by
  show (do checkSize settings (jointDomains network withActions); pure _) = _
  rw [checkSize_eq_error above]
  rfl

theorem eq_jointRows_of_fullJoint {withActions : Bool} {joint : SortedMap Assignment ℚ}
    (answer : fullJoint settings network withActions = .ok joint) :
    joint = jointRows network withActions := by
  obtain ⟨_, _, enumerated⟩ := exists_of_bind_eq_ok answer
  exact (Except.ok.inj enumerated).symm

theorem fullJoint_eq (within : network.domains.count ≤ settings.maxAssignments) :
    fullJoint settings network false =
      .ok (.ofList (network.rows.map fun row => (row, weight network row))) :=
  fullJoint_of_within within

theorem massOf_consistentRows (part : Assignment) :
    massOf (consistentRows (.ofList (network.rows.map fun row => (row, weight network row)))
      evidence) part = partMass network evidence part := by
  have listed : (SortedMap.ofList
      (network.rows.map fun row => (row, weight network row))).toList.Perm
      (network.rows.map fun row => (row, weight network row)) :=
    Domains.toList_ofList_combinations_perm network.domains (weight network)
  unfold massOf consistentRows
  rw [Scalar.sum_eq_sum, List.filter_filter, ((listed.filter _).map Prod.snd).sum_eq,
    List.filter_map, List.map_map]
  simp only [partMass, mass, Function.comp_def, Bool.and_comm]

theorem isMass_eq (total : ℚ) : isMass total = decide (0 < total) := by
  show (!decide (total ≤ 0) && true) = _
  rw [Bool.and_true, ← decide_not, decide_eq_decide, not_le]

theorem sum_partMass :
    ((network.domains.among names).combinations.map fun part =>
      partMass network evidence part).sum = evidenceMass network evidence := by
  have parts := @sum_mass_parts network names (fun row => row.contains evidence) (fun _ => true)
    fun _ _ => rfl
  simpa [partMass, evidenceMass] using parts

theorem exists_partMass_pos (names : List String) (positive : 0 < evidenceMass network evidence) :
    ∃ part ∈ (network.domains.among names).combinations, 0 < partMass network evidence part := by
  refine List.exists_lt_of_sum_lt (fun _ => 0) (partMass network evidence) ?_
  rw [List.map_const', List.sum_replicate, nsmul_zero]
  exact positive.trans_eq sum_partMass.symm

/-- A query answers the conditional probabilities, if the evidence has any mass. -/
theorem posterior_eq (built : network.Built)
    (chance : ∀ name ∈ names, (network.chanceNode? name).isSome)
    (within : (network.domains.among names).count ≤ settings.maxAssignments)
    (jointWithin : network.domains.count ≤ settings.maxAssignments) :
    posterior settings network names evidence =
      if 0 < evidenceMass network evidence then .ok (posteriorTable network names evidence)
      else .error (.degenerateQuery evidence) := by
  have weights : ((network.domains.among names).combinations.map fun part =>
      (part, massOf (consistentRows (.ofList (network.rows.map fun row =>
        (row, weight network row))) evidence) part)) =
      (network.domains.among names).combinations.map fun part =>
        (part, partMass network evidence part) := by
    refine List.map_congr_left fun part _ => ?_
    rw [massOf_consistentRows]
  have listed := Domains.toList_ofList_combinations_perm (network.domains.among names)
    (partMass network evidence)
  have total : Scalar.sum (SortedMap.ofList ((network.domains.among names).combinations.map
      fun part => (part, partMass network evidence part))).values =
      evidenceMass network evidence := by
    rw [Scalar.sum_eq_sum, SortedMap.values_eq_map, (listed.map Prod.snd).sum_eq, List.map_map]
    exact sum_partMass
  unfold posterior
  rw [chanceDomains_eq built chance within, fullJoint_eq jointWithin]
  show (do let rows ← normalise (.ofList _) evidence; pure (CategoricalTable.mk rows)) = _
  rw [weights, normalise]
  rw [total, isMass_eq]
  by_cases positive : 0 < evidenceMass network evidence
  · rw [if_pos (decide_eq_true positive), if_pos positive, SortedMap.mapValues_ofList,
      List.map_map]
    rfl
  · rw [if_neg (mt of_decide_eq_true positive), if_neg positive]
    rfl

theorem posterior_of_evidenceMass_pos (built : network.Built)
    (chance : ∀ name ∈ names, (network.chanceNode? name).isSome)
    (within : (network.domains.among names).count ≤ settings.maxAssignments)
    (jointWithin : network.domains.count ≤ settings.maxAssignments)
    (positive : 0 < evidenceMass network evidence) :
    posterior settings network names evidence = .ok (posteriorTable network names evidence) := by
  rw [posterior_eq built chance within jointWithin, if_pos positive]

section Tables

theorem keys_posteriorTable_perm :
    (posteriorTable network names evidence).rows.keys.Perm
      (network.domains.among names).combinations :=
  Domains.keys_ofList_combinations_perm _ _

theorem probability_posteriorTable {part : Assignment}
    (member : part ∈ (network.domains.among names).combinations) :
    (posteriorTable network names evidence).probability part =
      partMass network evidence part / evidenceMass network evidence := by
  unfold CategoricalTable.probability
  rw [show (posteriorTable network names evidence).rows.get? part = some _ from
    Domains.get?_ofList_combinations _ _ member]
  rfl

theorem toList_posteriorTable_perm :
    (posteriorTable network names evidence).toList.Perm
      ((network.domains.among names).combinations.map fun part =>
        (part, partMass network evidence part / evidenceMass network evidence)) :=
  Domains.toList_ofList_combinations_perm _ _

/-- The rows of a table that contain values of some of its variables have the mass of those. -/
theorem massOf_posteriorTable {others : List String} (part : others ⊆ names) {values : Assignment}
    (member : values ∈ (network.domains.among others).combinations) :
    massOf (posteriorTable network names evidence).toList values =
      partMass network evidence values / evidenceMass network evidence := by
  have depends : ∀ row ∈ network.rows, (row.restrict names).contains values =
      row.contains values := fun row _ =>
    Assignment.contains_restrict fun name bound =>
      part (Domains.mem_of_mem_names member name bound)
  have parts := sum_mass_parts names (fun row => row.contains evidence)
    (fun row => row.contains values) depends
  unfold massOf
  rw [Scalar.sum_eq_sum, ((toList_posteriorTable_perm.filter _).map Prod.snd).sum_eq,
    List.filter_map, List.map_map]
  show (List.map (fun row => partMass network evidence row / evidenceMass network evidence)
    (List.filter (fun row => row.contains values) _)).sum = _
  rw [sum_map_div]
  exact congrArg (· / _) parts

theorem total_posteriorTable (positive : 0 < evidenceMass network evidence) :
    (posteriorTable network names evidence).total = 1 := by
  unfold CategoricalTable.total
  have listed := (@toList_posteriorTable_perm network names evidence).map Prod.snd
  rw [Scalar.sum_eq_sum]
  refine (List.Perm.sum_eq listed).trans ?_
  rw [List.map_map]
  show (List.map (fun row => partMass network evidence row / evidenceMass network evidence)
    _).sum = 1
  rw [sum_map_div, sum_partMass, div_self positive.ne']

end Tables

/-- Values that occur together with the evidence agree with it. -/
theorem contains_compose_of_partMass_pos {part : Assignment}
    (positive : 0 < partMass network evidence part) (row : Assignment) :
    row.contains (evidence.compose part) = (row.contains evidence && row.contains part) := by
  obtain ⟨witness, _, contained⟩ := exists_row_of_mass_pos positive
  rw [Bool.and_eq_true] at contained
  exact Assignment.contains_compose
    (Assignment.consistentWith_of_contains contained.1 contained.2) row

theorem evidenceMass_compose {part : Assignment}
    (positive : 0 < partMass network evidence part) :
    evidenceMass network (evidence.compose part) = partMass network evidence part :=
  mass_congr fun row _ => contains_compose_of_partMass_pos positive row

theorem partMass_compose {part other : Assignment}
    (positive : 0 < partMass network evidence part) :
    partMass network (evidence.compose part) other =
      mass network fun row => row.contains evidence && row.contains part && row.contains other :=
  mass_congr fun row _ => by rw [contains_compose_of_partMass_pos positive row]

section Factors

variable {first second : List String} {row : Assignment}

theorem restrict_mem_among (member : row ∈ (network.domains.among names).combinations)
    {others : List String} (part : others ⊆ names) :
    row.restrict others ∈ (network.domains.among others).combinations := by
  have restricted := @Domains.restrict_mem_combinations _ others _ member
  rwa [Domains.among_among part] at restricted

section Parts

variable (member : row ∈ (network.domains.among (first ++ second)).combinations)
include member

/-- A row of two lists of variables is contained where its two parts are. -/
theorem contains_eq_parts (whole : Assignment) :
    whole.contains row =
      (whole.contains (row.restrict first) && whole.contains (row.restrict second)) := by
  rw [← Assignment.contains_restrict_append, Domains.restrict_eq_self member]

theorem partMass_le_restrict (evidence : Assignment) (nonnegative : network.Nonnegative) :
    partMass network evidence row ≤ partMass network evidence (row.restrict first) :=
  mass_mono nonnegative fun whole _ passes => by
    rw [contains_eq_parts member whole] at passes
    simp only [Bool.and_eq_true] at passes ⊢
    exact ⟨passes.1, passes.2.1⟩

end Parts

/-- The table of several variables has a row for each combination of their values and adds up to
one. Added up over some of the variables it is the table of the others, and each row is the product
of conditional probabilities, or zero where there is nothing to condition on. -/
theorem posterior_factorises (built : network.Built) (nonnegative : network.Nonnegative)
    (chance : ∀ name ∈ first ++ second, (network.chanceNode? name).isSome)
    (positive : 0 < evidenceMass network evidence)
    (within : (jointDomains network false).count ≤ settings.maxAssignments) :
    ∃ both one, posterior settings network (first ++ second) evidence = .ok both ∧
      posterior settings network first evidence = .ok one ∧
      both.rows.keys.Perm (network.domains.among (first ++ second)).combinations ∧
      both.total = 1 ∧
      one.rows.keys.Perm (network.domains.among first).combinations ∧
      (∀ values ∈ one.rows.keys,
        0 ≤ one.probability values ∧ massOf both.toList values = one.probability values) ∧
      ∀ row ∈ both.rows.keys,
        (one.probability (row.restrict first) = 0 → both.probability row = 0) ∧
        (0 < one.probability (row.restrict first) →
          ∃ other, posterior settings network second (evidence.compose (row.restrict first)) =
              .ok other ∧
            both.probability row =
              one.probability (row.restrict first) * other.probability (row.restrict second)) := by
  have partWithin (names : List String) :
      (network.domains.among names).count ≤ settings.maxAssignments :=
    (count_among_le_of_mass_pos positive names).trans within
  have firstPart : first ⊆ first ++ second := List.subset_append_left first second
  have secondPart : second ⊆ first ++ second := List.subset_append_right first second
  have answer (names : List String) (part : names ⊆ first ++ second) (evidence : Assignment)
      (positive : 0 < evidenceMass network evidence) :
      posterior settings network names evidence = .ok (posteriorTable network names evidence) :=
    posterior_of_evidenceMass_pos built (fun name member => chance name (part member))
      (partWithin names) within positive
  refine ⟨posteriorTable network (first ++ second) evidence, posteriorTable network first evidence,
    answer _ (List.Subset.refl _) _ positive, answer _ firstPart _ positive,
    keys_posteriorTable_perm, total_posteriorTable positive, keys_posteriorTable_perm, ?_, ?_⟩
  · intro values member
    rw [keys_posteriorTable_perm.mem_iff] at member
    rw [massOf_posteriorTable firstPart member, probability_posteriorTable member]
    exact ⟨div_nonneg (mass_nonneg nonnegative _) positive.le, rfl⟩
  · intro row member
    rw [keys_posteriorTable_perm.mem_iff] at member
    have inFirst := restrict_mem_among member firstPart
    have inSecond := restrict_mem_among member secondPart
    rw [probability_posteriorTable member, probability_posteriorTable inFirst]
    constructor
    · intro zero
      have noPart : partMass network evidence (row.restrict first) = 0 :=
        (div_eq_zero_iff.1 zero).resolve_right positive.ne'
      have below := partMass_le_restrict member evidence nonnegative
      have none : partMass network evidence row = 0 :=
        le_antisymm (below.trans noPart.le) (mass_nonneg nonnegative _)
      rw [none, zero_div]
    · intro some
      have partPositive : 0 < partMass network evidence (row.restrict first) :=
        (div_pos_iff_of_pos_right positive).1 some
      have composed := evidenceMass_compose partPositive
      refine ⟨posteriorTable network second (evidence.compose (row.restrict first)),
        answer _ secondPart _ (composed ▸ partPositive), ?_⟩
      rw [probability_posteriorTable inSecond, composed, partMass_compose partPositive,
        div_mul_div_cancel₀' partPositive.ne']
      congr 1
      refine mass_congr fun whole _ => ?_
      rw [contains_eq_parts member whole, Bool.and_assoc]

end Factors

section CoinWithEchoes

/-- A coin that shows its head three times out of four. -/
def coin : ChanceNode ℚ where
  id := "coin"
  inputs := .empty
  distribution := .categorical (.ofList
    [(.single "coin" (.boolean true), 3 / 4), (.single "coin" (.boolean false), 1 / 4)])

/-- A report of the coin that misses every third head. -/
def echo (id : String) : ChanceNode ℚ where
  id := id
  inputs := .ofList ["coin"]
  distribution := .conditional (.ofList
    [(.single "coin" (.boolean true), .ofList
        [(.single id (.boolean true), 2 / 3), (.single id (.boolean false), 1 / 3)]),
      (.single "coin" (.boolean false), .ofList
        [(.single id (.boolean true), 0), (.single id (.boolean false), 1)])])

/-- The action of calling a side of the coin. -/
def call : ActionNode := .make "call" [.boolean true, .boolean false]

/-- A coin that is reported twice. -/
def coinWithEchoes : Network ℚ :=
  ⟨((SortedMap.empty.insert "coin" (.chance coin)).insert "first" (.chance (echo "first"))).insert
    "second" (.chance (echo "second"))⟩

theorem coinWithEchoes_built : coinWithEchoes.Built := by
  have withCoin := Built.empty.insert (.chance coin) (by decide +kernel) (by decide +kernel)
  have withFirst := withCoin.insert (.chance (echo "first")) (by decide +kernel)
    (by decide +kernel)
  exact withFirst.insert (.chance (echo "second")) (by decide +kernel) (by decide +kernel)

/-- The second report leaves the coin open. The first one, which is not known, would then report a
head only if there is one. -/
theorem posterior_factorises_coinWithEchoes :
    0 < evidenceMass coinWithEchoes (.single "second" (.boolean false)) ∧
      ∃ both one,
        posterior {} coinWithEchoes (["coin"] ++ ["first"]) (.single "second" (.boolean false)) =
          .ok both ∧
        posterior {} coinWithEchoes ["coin"] (.single "second" (.boolean false)) = .ok one ∧
        both.total = 1 ∧
        (∀ values ∈ one.rows.keys, massOf both.toList values = one.probability values) ∧
        (coinWithEchoes.domains.among (["coin"] ++ ["first"])).combinations.map both.probability =
          [1 / 2, 0, 1 / 6, 1 / 3] := by
  have positive : 0 < evidenceMass coinWithEchoes (.single "second" (.boolean false)) := by
    decide +kernel
  have within : (jointDomains coinWithEchoes false).count ≤ Settings.maxAssignments {} := by
    decide +kernel
  have chance : ∀ name ∈ ["coin"] ++ ["first"], (coinWithEchoes.chanceNode? name).isSome := by
    decide +kernel
  obtain ⟨both, one, bothAnswer, oneAnswer, _, total, _, marginal, _⟩ :=
    posterior_factorises coinWithEchoes_built (by decide +kernel) chance positive within
  have isTable := posterior_of_evidenceMass_pos coinWithEchoes_built chance
    ((count_among_le_of_mass_pos positive _).trans within) within positive
  obtain rfl := Except.ok.inj (bothAnswer.symm.trans isTable)
  exact ⟨positive, _, one, bothAnswer, oneAnswer, total,
    fun values member => (marginal values member).2, by decide +kernel⟩

end CoinWithEchoes

end DecisionNetwork.Inference
