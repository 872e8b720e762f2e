import DecisionNetwork.Proofs.Number.Extended
import DecisionNetwork.Proofs.Rule.Mentioned
import DecisionNetwork.Proofs.Rule.Realised
import DecisionNetwork.Proofs.RuleUtility.Recall

/-!
Contract: what a case rule is meant to be worth, over exact numbers.

Owns:
- `MetBy`, for basic conditions and for conditions at any depth, and `RealisedBy`, for effects;
- `Parameter.weight?`, a weight that can be added, and `CaseRule.worth`, the meaning of a rule;
- `addRealised_of_weighed` and `weighed_of_addRealised`, by which the loop over the effects reads
  the weights of those that are realised and adds them up;
- `evaluate_eq_worth`: an uncached utility is worth what the rule means.

The loop stops at the first realised effect without a weight. Numbers that are not finite are added
first and refused afterwards, so they have no weight either. A filled template is read again: slots
that a value shows are open like any other.
-/

namespace DecisionNetwork

/-- A condition whose slots are all filled from what is given, and whose variable then has the
expected value or, if they are to differ, another one. -/
structure BasicCondition.MetBy (condition : BasicCondition) (given : Assignment) : Prop where
  nameFilled : (condition.name.fill given).isOpen = false
  expectedFilled : (condition.expected.fill given).isOpen = false
  compared : (given.valueOrAbsent (condition.name.fill given).text ==
    (condition.expected.fill given).toValue) = true ↔ condition.relation = .equal

instance (condition : BasicCondition) (given : Assignment) : Decidable (condition.MetBy given) :=
  decidable_of_iff ((condition.name.fill given).isOpen = false ∧
      (condition.expected.fill given).isOpen = false ∧
      ((given.valueOrAbsent (condition.name.fill given).text ==
        (condition.expected.fill given).toValue) = true ↔ condition.relation = .equal))
    ⟨fun met => ⟨met.1, met.2.1, met.2.2⟩, fun met => ⟨met.1, met.2, met.3⟩⟩

/-- All basic conditions, at any depth, are met. -/
def Condition.MetBy (condition : Condition) (given : Assignment) : Prop :=
  ∀ basic ∈ condition.basics, basic.MetBy given

instance (condition : Condition) (given : Assignment) : Decidable (condition.MetBy given) :=
  inferInstanceAs (Decidable (∀ basic ∈ condition.basics, basic.MetBy given))

/-- The template filled from the input, and then from the actions where slots are left. -/
def Template.fillTwice (template : Template) (input actions : Assignment) : Template :=
  (template.fill input).fill actions

/-- A basic effect whose slots are all filled, from the input and then from the actions, and whose
variable takes the value or, if it is to be discarded, another one. -/
structure BasicEffect.RealisedBy (effect : BasicEffect) (input actions : Assignment) : Prop where
  nameFilled : (effect.name.fillTwice input actions).isOpen = false
  valueFilled : (effect.value.fillTwice input actions).isOpen = false
  compared : (actions.valueOrAbsent (effect.name.fillTwice input actions).text ==
    (effect.value.fillTwice input actions).toValue) = true ↔ effect.kind = .assign

instance (effect : BasicEffect) (input actions : Assignment) :
    Decidable (effect.RealisedBy input actions) :=
  decidable_of_iff ((effect.name.fillTwice input actions).isOpen = false ∧
      (effect.value.fillTwice input actions).isOpen = false ∧
      ((actions.valueOrAbsent (effect.name.fillTwice input actions).text ==
        (effect.value.fillTwice input actions).toValue) = true ↔ effect.kind = .assign))
    ⟨fun met => ⟨met.1, met.2.1, met.2.2⟩, fun met => ⟨met.1, met.2, met.3⟩⟩

/-- All parts of the effect are realised. -/
def Effect.RealisedBy (effect : Effect) (input actions : Assignment) : Prop :=
  ∀ part ∈ effect.parts, part.RealisedBy input actions

instance (effect : Effect) (input actions : Assignment) :
    Decidable (effect.RealisedBy input actions) :=
  inferInstanceAs (Decidable (∀ part ∈ effect.parts, part.RealisedBy input actions))

/-- The finite number that a parameter is, or that its variable has. -/
def Parameter.weight? (input : Assignment) : Parameter (Extended ℚ) → Option ℚ
  | .fixed (.finite weight) => some weight
  | .fixed _ => none
  | .bound name =>
    match input.value? name with
    | some (.number number) => if number.isFinite then some number.toRat else none
    | _ => none

/-- The effects that the actions realise, with their parameters. -/
def realisedEffects (input actions : Assignment)
    (effects : List (Effect × Parameter (Extended ℚ))) :
    List (Effect × Parameter (Extended ℚ)) :=
  effects.filter fun entry => entry.1.RealisedBy input actions

/-- The sum of the weights of the effects that are realised, zero if one of these has no weight. -/
def RuleOutput.worth (output : RuleOutput (Extended ℚ)) (input actions : Assignment) : ℚ :=
  if ∀ entry ∈ realisedEffects input actions output.effects, (entry.2.weight? input).isSome then
    ((realisedEffects input actions output.effects).map
      fun entry => (entry.2.weight? input).getD 0).sum
  else 0

/-- What the first case that applies is worth for the actions without their primes, zero if there
is no such case. The outputs of the rule are the actions, and all other variables the input. -/
def CaseRule.worth (rule : CaseRule (Extended ℚ)) (full : Assignment) : ℚ :=
  let input := full.without rule.outputs.toList
  let actions := (full.restrict rule.outputs.toList).removePrimes
  match rule.cases.find? fun entry => entry.1.MetBy input with
  | some entry => entry.2.worth input actions
  | none => 0

section Meaning

variable {given input actions : Assignment}

theorem Relation.relates_iff {relation : Relation} {actual expected : Value} :
    relation.relates actual expected = true ↔
      ((actual == expected) = true ↔ relation = .equal) := by
  cases relation with
  | equal => simp [relates]
  | unequal => simp [relates, bne]

theorem BasicCondition.holds_iff_metBy {condition : BasicCondition} :
    condition.holds given = true ↔ condition.MetBy given := by
  rw [holds_eq]
  constructor
  · intro holds
    split at holds
    next => cases holds
    next closed =>
        obtain ⟨nameFilled, expectedFilled⟩ := Bool.or_eq_false_iff.1 (Bool.eq_false_iff.2 closed)
        exact ⟨nameFilled, expectedFilled, Relation.relates_iff.1 holds⟩
  · intro met
    rw [met.nameFilled, met.expectedFilled]
    exact Relation.relates_iff.2 met.compared

theorem Condition.holds_iff_metBy {condition : Condition} :
    condition.holds given = true ↔ condition.MetBy given := by
  rw [holds_iff_basics]
  exact forall₂_congr fun basic _ => BasicCondition.holds_iff_metBy

theorem BasicEffect.metBy_iff_realisedBy {effect : BasicEffect} :
    (effect.fill input).toCondition.MetBy actions ↔ effect.RealisedBy input actions := by
  have sameKind : effect.kind.relation = .equal ↔ effect.kind = .assign := by
    cases effect.kind <;> decide
  constructor
  · intro met
    exact ⟨met.nameFilled, met.expectedFilled, met.compared.trans sameKind⟩
  · intro realised
    exact ⟨realised.nameFilled, realised.valueFilled, realised.compared.trans sameKind.symm⟩

theorem Effect.holds_iff_realisedBy {effect : Effect} :
    (effect.fill input).toCondition.holds actions = true ↔ effect.RealisedBy input actions := by
  rw [Effect.holds_toCondition_iff, Effect.fill, List.forall_mem_map]
  refine forall₂_congr fun part _ => ?_
  exact BasicCondition.holds_iff_metBy.trans BasicEffect.metBy_iff_realisedBy

theorem ofBinary64_eq_finite_iff {number : Binary64} {exact : ℚ} :
    Scalar.ofBinary64 number = Extended.finite exact ↔
      number.isFinite = true ∧ number.toRat = exact := by
  show Extended.ofBinary64 number = _ ↔ _
  unfold Extended.ofBinary64
  split
  next isFinite => simp [isFinite]
  next notFinite =>
      split <;> simp [notFinite]

/-- A parameter is read as a finite number if that is its weight. -/
theorem Parameter.value_eq_finite_iff {parameter : Parameter (Extended ℚ)} {weight : ℚ} :
    parameter.value input = .ok (.finite weight) ↔ parameter.weight? input = some weight := by
  cases parameter with
  | fixed number => cases number <;> simp [value, weight?]
  | bound name =>
      simp only [value, weight?]
      cases input.value? name with
      | none => simp
      | some found =>
          cases found with
          | number number =>
              simp only [Option.bind_some, Value.asNumber?, Except.ok.injEq,
                ofBinary64_eq_finite_iff]
              split <;> simp_all
          | _ => simp [Value.asNumber?]

/-- The case that applies is the first whose basic conditions are all met. -/
theorem CaseRule.find?_metBy (rule : CaseRule (Extended ℚ)) (input : Assignment) :
    (rule.cases.find? fun entry => entry.1.MetBy input) =
      rule.cases.find? fun entry => entry.1.holds input := by
  congr 1
  funext entry
  rw [Bool.eq_iff_iff, decide_eq_true_iff, Condition.holds_iff_metBy]

theorem CaseRule.worth_of_first (rule : CaseRule (Extended ℚ)) {full : Assignment}
    {entry : Condition × RuleOutput (Extended ℚ)}
    (first : rule.cases.find? (fun entry =>
      entry.1.holds (full.without rule.outputs.toList)) = some entry) :
    rule.worth full = entry.2.worth (full.without rule.outputs.toList)
      (full.restrict rule.outputs.toList).removePrimes := by
  unfold worth
  simp only [find?_metBy, first]

theorem CaseRule.worth_of_none (rule : CaseRule (Extended ℚ)) {full : Assignment}
    (noCase : rule.cases.find? (fun entry =>
      entry.1.holds (full.without rule.outputs.toList)) = none) : rule.worth full = 0 := by
  unfold worth
  simp only [find?_metBy, noCase]

end Meaning

namespace RuleUtility

section Loop

variable {input actions : Assignment} {effects : List (Effect × Parameter (Extended ℚ))}
  {effect : Effect} {parameter : Parameter (Extended ℚ)}

theorem realisedEffects_cons_of_pos (isRealised : effect.RealisedBy input actions) :
    realisedEffects input actions ((effect, parameter) :: effects) =
      (effect, parameter) :: realisedEffects input actions effects :=
  List.filter_cons_of_pos (decide_eq_true isRealised)

theorem realisedEffects_cons_of_neg (notRealised : ¬ effect.RealisedBy input actions) :
    realisedEffects input actions ((effect, parameter) :: effects) =
      realisedEffects input actions effects :=
  List.filter_cons_of_neg (by simpa using notRealised)

/-- The loop adds the weights of the realised effects to the total. -/
theorem addRealised_of_weighed
    (weighed : ∀ entry ∈ realisedEffects input actions effects, (entry.2.weight? input).isSome)
    (total : ℚ) :
    addRealised input actions (.finite total)
        (effects.map fun entry => (entry.1.fill input, entry.2)) =
      .ok (.finite (total + ((realisedEffects input actions effects).map
        fun entry => (entry.2.weight? input).getD 0).sum)) := by
  induction effects generalizing total with
  | nil => simp [addRealised, realisedEffects]
  | cons entry rest inductionHypothesis =>
      obtain ⟨effect, parameter⟩ := entry
      rw [List.map_cons, addRealised]
      by_cases isRealised : effect.RealisedBy input actions
      · rw [realisedEffects_cons_of_pos isRealised] at weighed ⊢
        obtain ⟨weight, isWeight⟩ := Option.isSome_iff_exists.1 (weighed _ List.mem_cons_self)
        rw [if_pos (Effect.holds_iff_realisedBy.2 isRealised),
          Parameter.value_eq_finite_iff.2 isWeight]
        have later := inductionHypothesis
          (fun entry member => weighed entry (List.mem_cons_of_mem _ member)) (total + weight)
        rw [List.map_cons, List.sum_cons, isWeight, Option.getD_some, ← add_assoc, ← later]
        rfl
      · rw [realisedEffects_cons_of_neg isRealised] at weighed ⊢
        rw [if_neg (mt Effect.holds_iff_realisedBy.1 isRealised)]
        exact inductionHypothesis weighed total

/-- A total that comes out finite was finite before, and each realised effect had a weight. -/
theorem weighed_of_addRealised {start : Extended ℚ} {total : ℚ}
    (added : addRealised input actions start
      (effects.map fun entry => (entry.1.fill input, entry.2)) = .ok (.finite total)) :
    (∃ exact, start = .finite exact) ∧
      ∀ entry ∈ realisedEffects input actions effects, (entry.2.weight? input).isSome := by
  induction effects generalizing start with
  | nil => exact ⟨⟨total, Except.ok.inj added⟩, by simp [realisedEffects]⟩
  | cons entry rest inductionHypothesis =>
      obtain ⟨effect, parameter⟩ := entry
      rw [List.map_cons, addRealised] at added
      by_cases isRealised : effect.RealisedBy input actions
      · rw [if_pos (Effect.holds_iff_realisedBy.2 isRealised)] at added
        split at added
        next number read =>
            obtain ⟨⟨sum, isSum⟩, restWeighed⟩ := inductionHypothesis added
            obtain ⟨exact, weight, isStart, rfl⟩ := Extended.exists_of_add_eq_finite isSum
            refine ⟨⟨exact, isStart⟩, ?_⟩
            rw [realisedEffects_cons_of_pos isRealised, List.forall_mem_cons]
            exact ⟨Option.isSome_of_eq_some (Parameter.value_eq_finite_iff.1 read), restWeighed⟩
        next => cases added
      · rw [if_neg (mt Effect.holds_iff_realisedBy.1 isRealised)] at added
        rw [realisedEffects_cons_of_neg isRealised]
        exact inductionHypothesis added

end Loop

section Rule

variable {input actions : Assignment}

/-- A filled output yields what it is worth, or fails where it is worth nothing. -/
theorem scoreOutput_fill (output : RuleOutput (Extended ℚ)) :
    scoreOutput (output.fill input) input actions =
        .ok (.finite (output.worth input actions.removePrimes)) ∨
      output.worth input actions.removePrimes = 0 ∧
        ∃ failure, scoreOutput (output.fill input) input actions = .error failure := by
  unfold scoreOutput RuleOutput.fill RuleOutput.worth
  split_ifs with weighed
  · left
    rw [show (Scalar.zero : Extended ℚ) = .finite 0 from rfl, addRealised_of_weighed weighed 0,
      zero_add]
    rfl
  · refine Or.inr ⟨rfl, ?_⟩
    cases added : addRealised input actions.removePrimes Scalar.zero
        (output.effects.map fun entry => (entry.1.fill input, entry.2)) with
    | error failure => exact ⟨failure, rfl⟩
    | ok total =>
        cases total with
        | finite exact => exact absurd (weighed_of_addRealised added).2 weighed
        | infinity => exact ⟨_, rfl⟩
        | undefined => exact ⟨_, rfl⟩

variable {rule : CaseRule (Extended ℚ)}

theorem scoreOrZero_of_first {entry : Condition × RuleOutput (Extended ℚ)}
    (first : rule.cases.find? (fun entry => entry.1.holds input) = some entry) :
    scoreOrZero (rule.anchor.matchingOutput input) input actions =
      .finite (entry.2.worth input actions.removePrimes) := by
  have matched : rule.anchor.matchingOutput input = .ok (entry.2.fill input) :=
    congrArg Except.ok (CaseRule.output_of_first first)
  unfold scoreOrZero score
  rw [matched]
  rcases @scoreOutput_fill input actions entry.2 with success | ⟨worthless, failure, failed⟩
  · simp only [success]
  · simp only [failed, worthless]
    rfl

theorem scoreOrZero_of_none
    (noCase : rule.cases.find? (fun entry => entry.1.holds input) = none) :
    scoreOrZero (rule.anchor.matchingOutput input) input actions = .finite 0 := by
  have matched : rule.anchor.matchingOutput input = .ok .empty := by
    show Except.ok (rule.output input) = _
    rw [CaseRule.output, noCase]
  unfold scoreOrZero score
  rw [matched]
  rfl

/-- The utility of an assignment under a rule without a cache is what the rule means. The first case
whose basic conditions are all met by the input, if any, is worth the sum of the weights of those
effects that are realised by the actions, or zero if one of those has no weight. Whether the other
effects have a weight does not matter. -/
theorem evaluate_eq_worth {utility : RuleUtility (Extended ℚ)} (rule : CaseRule (Extended ℚ))
    (sameRule : utility.rule = rule.anchor) (plain : utility.isCached = false)
    (full : Assignment) : (utility.evaluate full).1 = .finite (rule.worth full) := by
  rw [evaluate_of_not_cached plain, sameRule]
  cases first : rule.cases.find? fun entry =>
      entry.1.holds (full.without rule.outputs.toList) with
  | some entry =>
      rw [rule.worth_of_first first]
      exact scoreOrZero_of_first first
  | none =>
      rw [rule.worth_of_none first]
      exact scoreOrZero_of_none first

/-- A welcome by name has the warmth as its weight, staying has another, and a farewell the
regret. -/
def welcomeEffects : List (Effect × Parameter (Extended ℚ)) :=
  [(⟨[⟨.ofText "said", .assign, .ofText "hello \x7bname\x7d"⟩]⟩, .bound "warmth"),
    (⟨[⟨.ofText "said", .discard, .ofText "bye"⟩]⟩, .fixed (.finite (1 / 2))),
    (⟨[⟨.ofText "said", .assign, .ofText "bye"⟩]⟩, .bound "regret")]

/-- The rule that looks for those effects unless the mood is another than the one wanted. -/
def welcomeRule : CaseRule (Extended ℚ) where
  id := "welcome"
  kind := .utility
  outputs := .ofList ["said'"]
  parameters := .ofList ["warmth", "regret"]
  cases := [(.all [.basic ⟨.ofText "mood", .unequal, .ofText "\x7bwanted\x7d"⟩], .empty),
    (.always, ⟨welcomeEffects⟩)]

/-- A welcome to Ann. Neither a wanted mood nor a regret is bound. -/
def welcome : Assignment :=
  .ofList [("mood", .text "good"), ("name", .text "Ann"), ("said'", .text "hello Ann"),
    ("warmth", .number .one)]

/-- The first case has a slot that is not filled, and the effect that has no weight is not
realised. -/
theorem worth_welcome : welcomeRule.worth welcome = 3 / 2 := by
  decide +kernel

theorem evaluate_eq_worth_welcome :
    let utility : RuleUtility (Extended ℚ) := ⟨welcomeRule.anchor, .disabled, 0⟩
    utility.rule = welcomeRule.anchor ∧ utility.isCached = false ∧
      (utility.evaluate welcome).1 = .finite (3 / 2) := by
  refine ⟨rfl, rfl, ?_⟩
  rw [evaluate_eq_worth welcomeRule rfl rfl welcome, worth_welcome]

end Rule

end RuleUtility

end DecisionNetwork
