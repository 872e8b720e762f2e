import DecisionNetwork.Inference.ExpectedUtility
import DecisionNetwork.Proofs.Inference.Posterior
import DecisionNetwork.Proofs.Number.Extended

/-!
Contract: queries on networks that hold any numbers at all, infinite and undefined ones included.

Owns:
- `isMass_iff`, by which the guard before a division lets finite positive totals through only;
- `nonneg_of_massOf_eq_finite`, since joint probabilities are formed by their logarithms;
- `exists_shares_of_normalise`: weights that pass the guard are finite, every one of them;
- `weightedUtility_dividingBy`, by which utilities are computed without division, and
  `posterior_divOr` and `expectedUtilities_divOr`, by which no query divides by anything but a
  positive finite number;
- `distribution_of_posterior` and `exists_mass_of_expectedUtilities`, put together with these in
  `queries_guarded`.

No network is assumed to be well formed: its tables need not be normalised, nor even hold numbers.
Which divisions take place is told by exchanging the division of the arithmetic: a query that does
not divide by some numbers answers the same, whatever a division by them yields.
-/

namespace DecisionNetwork.Inference

open Extended

variable {network : Network (Extended ℚ)} {settings : Settings} {names : List String}
  {evidence : Assignment}

theorem isMass_iff (total : Extended ℚ) :
    isMass total = true ↔ ∃ exact, total = .finite exact ∧ 0 < exact := by
  cases total with
  | finite exact =>
      show (!decide (exact ≤ 0) && true) = true ↔ _
      simp
  | infinity negative => cases negative <;> simp [isMass, Scalar.isFinite, isFinite]
  | undefined => simp [isMass, Scalar.isFinite, isFinite]

section Joint

variable {withActions : Bool} {joint : SortedMap Assignment (Extended ℚ)}
  (enumerated : fullJoint settings network withActions = .ok joint)
include enumerated

theorem exists_row_of_mem_joint {entry : Assignment × Extended ℚ} (member : entry ∈ joint.toList) :
    ∃ row, jointProbability network withActions row = entry.2 := by
  obtain ⟨_, _, listed⟩ := exists_of_bind_eq_ok enumerated
  cases listed
  rw [(Domains.toList_ofList_combinations_perm _ _).mem_iff] at member
  obtain ⟨row, _, rfl⟩ := List.mem_map.1 member
  exact ⟨row, rfl⟩

/-- The mass of some rows is not below zero, if it is finite. -/
theorem nonneg_of_massOf_eq_finite {part : Assignment} {mass : ℚ}
    (finite : massOf (consistentRows joint evidence) part = .finite mass) : 0 ≤ mass := by
  obtain ⟨exacts, same, rfl⟩ := exists_of_sum_eq_finite finite
  refine List.sum_nonneg fun exact member => ?_
  have listed : Extended.finite exact ∈ exacts.map Extended.finite := List.mem_map_of_mem member
  rw [← same] at listed
  obtain ⟨entry, inRows, isExact⟩ := List.mem_map.1 listed
  have inJoint := (List.mem_filter.1 (List.mem_filter.1 inRows).1).1
  obtain ⟨row, isProbability⟩ := exists_row_of_mem_joint enumerated inJoint
  exact nonneg_of_productByLogs_eq_finite (isProbability.trans isExact)

end Joint

/-- Weights that are divided by their total become shares of one. -/
theorem exists_shares_of_normalise {weights rows : SortedMap Assignment (Extended ℚ)}
    (nonnegative : ∀ exact, Extended.finite exact ∈ weights.values → 0 ≤ exact)
    (normalised : normalise weights evidence = .ok rows) :
    ∃ shares : List ℚ, rows.values = shares.map .finite ∧ (∀ share ∈ shares, 0 ≤ share) ∧
      shares.sum = 1 := by
  unfold normalise at normalised
  dsimp only at normalised
  split at normalised
  next guarded =>
      cases normalised
      obtain ⟨total, isTotal, positive⟩ := (isMass_iff _).1 guarded
      obtain ⟨exacts, areExact, rfl⟩ := exists_of_sum_eq_finite isTotal
      refine ⟨exacts.map (· / exacts.sum), ?_, ?_, ?_⟩
      · rw [SortedMap.values_mapValues, isTotal, areExact, List.map_map, List.map_map]
        refine List.map_congr_left fun exact _ => ?_
        show Extended.div (.finite exact) (.finite exacts.sum) = .finite (exact / exacts.sum)
        rw [Extended.div, if_neg positive.ne']
      · intro share member
        obtain ⟨exact, listed, rfl⟩ := List.mem_map.1 member
        exact div_nonneg (nonnegative exact (areExact ▸ List.mem_map_of_mem listed)) positive.le
      · rw [sum_map_div, List.map_id', div_self positive.ne']
  next => cases normalised

/-- The probabilities in an answer are finite numbers that add up to one, and none is negative. -/
theorem distribution_of_posterior {table : CategoricalTable (Extended ℚ)}
    (answered : posterior settings network names evidence = .ok table) :
    (∀ probability ∈ table.rows.values, probability.IsProbability) ∧
      table.total = .finite 1 := by
  obtain ⟨domains, _, afterDomains⟩ := exists_of_bind_eq_ok answered
  obtain ⟨joint, enumerated, afterJoint⟩ := exists_of_bind_eq_ok afterDomains
  obtain ⟨rows, normalised, isTable⟩ := exists_of_bind_eq_ok afterJoint
  cases isTable
  have weightsNonnegative (exact : ℚ) (listed : Extended.finite exact ∈ SortedMap.values
      (.ofList (domains.combinations.map fun part =>
        (part, massOf (consistentRows joint evidence) part)))) : 0 ≤ exact := by
    rw [(Domains.values_ofList_combinations_perm _ _).mem_iff] at listed
    obtain ⟨part, _, isMass⟩ := List.mem_map.1 listed
    exact nonneg_of_massOf_eq_finite enumerated isMass
  obtain ⟨shares, areShares, nonnegative, total⟩ :=
    exists_shares_of_normalise weightsNonnegative normalised
  constructor
  · intro probability member
    rw [areShares] at member
    obtain ⟨share, listed, rfl⟩ := List.mem_map.1 member
    exact ⟨share, rfl, nonnegative share listed,
      (List.single_le_sum nonnegative share listed).trans_eq total⟩
  · show Scalar.sum rows.values = _
    rw [areShares, sum_finite, total]

theorem exists_mass_of_expectedUtilities {library : RuleLibrary (Extended ℚ)}
    {answer : UtilityTable (Extended ℚ) × RuleLibrary (Extended ℚ)}
    (answered : expectedUtilities settings network names evidence library = .ok answer) :
    ∃ domains joint total, nodeDomains settings network names = .ok domains ∧
      fullJoint settings network true = .ok joint ∧
      Scalar.sum ((consistentRows joint evidence).map Prod.snd) = .finite total ∧ 0 < total ∧
      answer = utilitiesOf network (consistentRows joint evidence) (.finite total)
        domains.combinations library := by
  obtain ⟨domains, taken, afterDomains⟩ := exists_of_bind_eq_ok answered
  obtain ⟨joint, enumerated, afterJoint⟩ := exists_of_bind_eq_ok afterDomains
  dsimp only at afterJoint
  split at afterJoint
  next guarded =>
      obtain ⟨total, isTotal, positive⟩ := (isMass_iff _).1 guarded
      rw [isTotal] at afterJoint
      cases afterJoint
      exact ⟨domains, joint, total, taken, enumerated, isTotal, positive, rfl⟩
  next => cases afterJoint

section Undivided

variable {α : Type} [Scalar α]

/-- The same arithmetic with another division. -/
abbrev dividingBy (quotient : α → α → α) : Scalar α :=
  { (inferInstance : Scalar α) with div := quotient }

variable (quotient : α → α → α)

theorem addRealised_dividingBy (input actions : Assignment) (total : α)
    (effects : List (Effect × Parameter α)) :
    @RuleUtility.addRealised α (dividingBy quotient) input actions total effects =
      RuleUtility.addRealised input actions total effects := by
  induction effects generalizing total with
  | nil => rfl
  | cons head tail inductionHypothesis =>
      simp only [RuleUtility.addRealised, inductionHypothesis]
      rfl

theorem scoreOrZero_dividingBy (result : Except (RuleError α) (RuleOutput α))
    (input actions : Assignment) :
    @RuleUtility.scoreOrZero α (dividingBy quotient) result input actions =
      RuleUtility.scoreOrZero result input actions := by
  unfold RuleUtility.scoreOrZero RuleUtility.score RuleUtility.scoreOutput
  simp only [addRealised_dividingBy]
  rfl

theorem evaluate_dividingBy (node : UtilityNode α) (full : Assignment) (library : RuleLibrary α) :
    @UtilityNode.evaluate α (dividingBy quotient) node full library =
      node.evaluate full library := by
  unfold UtilityNode.evaluate UtilityFunction.evaluate RuleLibrary.evaluate RuleUtility.evaluate
    RuleUtility.evaluateBy
  simp only [scoreOrZero_dividingBy]
  rfl

/-- No utility is divided before the sum over the rows is complete. -/
theorem weightedUtility_dividingBy (network : Network α) (rows : List (Assignment × α))
    (action : Assignment) (library : RuleLibrary α) :
    @weightedUtility α (dividingBy quotient) network rows action library =
      weightedUtility network rows action library := by
  unfold weightedUtility totalUtility
  simp only [evaluate_dividingBy]
  rfl

end Undivided

section Divisors

variable (other : Extended ℚ → Extended ℚ → Extended ℚ)

/-- An action has a share for each of its values, of which there are some. -/
theorem probability_divOr (node : ActionNode) (value : Value) :
    @ActionNode.probability _ (dividingBy (divOr other)) node value = node.probability value := by
  unfold ActionNode.probability
  by_cases listed : node.values.contains value = true
  · rw [if_pos listed, if_pos listed]
    have some : 0 < node.values.length := by
      apply List.length_pos_iff.2
      intro none
      rw [none] at listed
      cases listed
    exact divOr_of_pos other _ (Nat.cast_pos.2 some)
  · rw [if_neg listed, if_neg listed]
    rfl

theorem fullJoint_divOr (settings : Settings) (network : Network (Extended ℚ))
    (withActions : Bool) :
    @fullJoint _ (dividingBy (divOr other)) settings network withActions =
      fullJoint settings network withActions := by
  unfold fullJoint jointProbability localProbabilities
  simp only [probability_divOr]
  rfl

theorem normalise_divOr (weights : SortedMap Assignment (Extended ℚ)) (evidence : Assignment) :
    @normalise _ (dividingBy (divOr other)) weights evidence = normalise weights evidence := by
  unfold normalise
  by_cases guarded : isMass (Scalar.sum weights.values) = true
  · obtain ⟨total, isTotal, positive⟩ := (isMass_iff _).1 guarded
    refine (if_pos guarded).trans (Eq.trans ?_ (if_pos guarded).symm)
    refine congrArg Except.ok (congrArg weights.mapValues (funext fun weight => ?_))
    show divOr other weight (Scalar.sum weights.values) = weight.div (Scalar.sum weights.values)
    rw [isTotal, divOr_of_pos other weight positive]
  · exact (if_neg guarded).trans (if_neg guarded).symm

theorem utilitiesOf_divOr (network : Network (Extended ℚ))
    (rows : List (Assignment × Extended ℚ)) {total : ℚ} (positive : 0 < total)
    (actions : List Assignment) (library : RuleLibrary (Extended ℚ)) :
    @utilitiesOf _ (dividingBy (divOr other)) network rows (.finite total) actions library =
      utilitiesOf network rows (.finite total) actions library := by
  unfold utilitiesOf
  refine congrArg (fun step => actions.foldl step _) (funext fun state => funext fun action => ?_)
  rw [weightedUtility_dividingBy]
  exact congrArg (fun utility => (state.1.set action utility, _)) (divOr_of_pos other _ positive)

theorem posterior_divOr (settings : Settings) (network : Network (Extended ℚ))
    (names : List String) (evidence : Assignment) :
    @posterior _ (dividingBy (divOr other)) settings network names evidence =
      posterior settings network names evidence := by
  unfold posterior
  simp only [fullJoint_divOr, normalise_divOr]
  rfl

theorem expectedUtilities_divOr (settings : Settings) (network : Network (Extended ℚ))
    (names : List String) (evidence : Assignment) (library : RuleLibrary (Extended ℚ)) :
    @expectedUtilities _ (dividingBy (divOr other)) settings network names evidence library =
      expectedUtilities settings network names evidence library := by
  unfold expectedUtilities
  rw [fullJoint_divOr]
  cases nodeDomains settings network names with
  | error failure =>
      show Except.error failure = Except.error failure
      rfl
  | ok domains =>
      cases fullJoint settings network true with
      | error failure =>
          show Except.error failure = Except.error failure
          rfl
      | ok joint =>
          let rows := consistentRows joint evidence
          by_cases guarded : isMass (Scalar.sum (rows.map Prod.snd)) = true
          · obtain ⟨total, isTotal, positive⟩ := (isMass_iff _).1 guarded
            refine (if_pos guarded).trans (Eq.trans ?_ (if_pos guarded).symm)
            refine congrArg Except.ok ?_
            show @utilitiesOf _ (dividingBy (divOr other)) network rows
              (Scalar.sum (rows.map Prod.snd)) domains.combinations library = _
            rw [isTotal, utilitiesOf_divOr other network rows positive, ← isTotal]
          · exact (if_neg guarded).trans (if_neg guarded).symm

end Divisors

/-- Whatever numbers a network holds, the probabilities that a query answers are finite numbers
between zero and one that add up to one, and the utilities that a query answers are quotients by a
finite positive mass. Nothing is divided by any other number on the way to an answer or a failure:
whatever that would yield, the outcome is the same. -/
theorem queries_guarded (network : Network (Extended ℚ)) (settings : Settings)
    (names : List String) (evidence : Assignment) (library : RuleLibrary (Extended ℚ)) :
    (∀ table, posterior settings network names evidence = .ok table →
      (∀ probability ∈ table.rows.values, probability.IsProbability) ∧
        table.total = .finite 1) ∧
      (∀ answer, expectedUtilities settings network names evidence library = .ok answer →
        ∃ domains joint total, nodeDomains settings network names = .ok domains ∧
          fullJoint settings network true = .ok joint ∧
          Scalar.sum ((consistentRows joint evidence).map Prod.snd) = .finite total ∧ 0 < total ∧
          answer = utilitiesOf network (consistentRows joint evidence) (.finite total)
            domains.combinations library) ∧
      ∀ other, @posterior _ (dividingBy (divOr other)) settings network names evidence =
          posterior settings network names evidence ∧
        @expectedUtilities _ (dividingBy (divOr other)) settings network names evidence library =
          expectedUtilities settings network names evidence library :=
  ⟨fun _ answered => distribution_of_posterior answered,
    fun _ answered => exists_mass_of_expectedUtilities answered, fun other =>
      ⟨posterior_divOr other settings network names evidence,
        expectedUtilities_divOr other settings network names evidence library⟩⟩

theorem isOk_iff {ε β : Type} (result : Except ε β) :
    result.isOk = true ↔ ∃ answer, result = .ok answer := by
  cases result with
  | error failure => simp [Except.isOk, Except.toBool]
  | ok answer => simp [Except.isOk, Except.toBool]

section BentCoin

/-- A coin with a probability for its tail and nonsense for everything else. -/
def bentCoin : ChanceNode (Extended ℚ) where
  id := "coin"
  inputs := .empty
  distribution := .categorical (.ofList
    [(.single "coin" (.boolean true), .undefined),
      (.single "coin" (.boolean false), .finite (1 / 2)),
      (.single "coin" (.text "edge"), .infinity false),
      (.single "coin" (.text "lost"), .finite (-1))])

/-- What the coin is worth, which depends on nothing. -/
def bentGain : UtilityNode (Extended ℚ) where
  id := "gain"
  inputs := .empty
  function := .table (.ofList [(.empty, .finite 3)])

def bentWager : Network (Extended ℚ) :=
  ⟨(SortedMap.empty.insert "coin" (.chance bentCoin)).insert "gain" (.utility bentGain)⟩

theorem queries_guarded_bentWager :
    (∃ table, posterior {} bentWager ["coin"] (.single "coin" (.boolean false)) = .ok table ∧
      (∀ probability ∈ table.rows.values, probability.IsProbability) ∧
      table.total = .finite 1) ∧
    (∃ answer domains joint total,
      expectedUtilities {} bentWager ["coin"] (.single "coin" (.boolean false)) .empty =
        .ok answer ∧
      0 < total ∧
      answer = utilitiesOf bentWager (consistentRows joint (.single "coin" (.boolean false)))
        (.finite total) (Domains.combinations domains) .empty) ∧
    ¬∃ table, posterior {} bentWager ["coin"] .empty = .ok table := by
  obtain ⟨probabilities, utilities, _⟩ :=
    queries_guarded bentWager {} ["coin"] (.single "coin" (.boolean false)) .empty
  refine ⟨?_, ?_, ?_⟩
  · obtain ⟨table, answered⟩ := (isOk_iff
      (posterior {} bentWager ["coin"] (.single "coin" (.boolean false)))).1 (by decide +kernel)
    exact ⟨table, answered, probabilities table answered⟩
  · obtain ⟨answer, answered⟩ := (isOk_iff (expectedUtilities {} bentWager ["coin"]
      (.single "coin" (.boolean false)) .empty)).1 (by decide +kernel)
    obtain ⟨domains, joint, total, _, _, _, positive, quotients⟩ := utilities answer answered
    exact ⟨answer, domains, joint, total, answered, positive, quotients⟩
  · rw [← isOk_iff]
    decide +kernel

end BentCoin

end DecisionNetwork.Inference
