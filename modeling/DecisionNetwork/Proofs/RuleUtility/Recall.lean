import DecisionNetwork.Proofs.Assignment.Bindings
import DecisionNetwork.Proofs.RuleUtility.Operation
import DecisionNetwork.Rule.CaseRule

/-!
Contract: what a cached rule utility answers in the course of a run.

Owns:
- `UtilityCache.get?_store`, lookup after a utility was stored;
- `Recalls`, the invariant that a cache holds the utility of the first of several equal requests;
- `answer_eq_of_first_request`: every answer of a run is the uncached utility of the first equal
  assignment asked for since the utility last forgot, so that caching is transparent for a rule
  exactly when the rule does not tell equal assignments apart;
- a rule that does, through the sign of a zero that a template shows.
-/

namespace DecisionNetwork

namespace UtilityCache

variable {α : Type}

/-- A stored utility is found under equal inputs and equal actions. -/
theorem get?_store (tables : SortedMap Assignment (UtilityTable α)) (input actions : Assignment)
    (utility : α) (otherInput otherActions : Assignment) :
    ((enabled tables).store input actions utility).get? otherInput otherActions =
      if compare otherInput input = .eq ∧ compare otherActions actions = .eq then some utility
      else (enabled tables).get? otherInput otherActions := by
  simp only [store, get?, SortedMap.get?_insert]
  by_cases sameInput : compare otherInput input = .eq
  · rw [if_pos sameInput, SortedMap.get?_congr tables sameInput]
    show SortedMap.get? (SortedMap.insert _ actions utility) otherActions = _
    rw [SortedMap.get?_insert]
    by_cases sameActions : compare otherActions actions = .eq
    · rw [if_pos sameActions, if_pos ⟨sameInput, sameActions⟩]
    · rw [if_neg sameActions, if_neg fun both => sameActions both.2]
      cases tables.get? input <;> rfl
  · rw [if_neg sameInput, if_neg fun both => sameInput both.1]

end UtilityCache

namespace RuleUtility

variable {α : Type}

/-- Assignments are equal when the parts that a rule reads and those that it is about are. -/
theorem beq_iff_parts (rule : AnchoredRule α) {left right : Assignment} :
    (left == right) = true ↔
      compare (inputOf rule left) (inputOf rule right) = .eq ∧
        compare (actionsOf rule left) (actionsOf rule right) = .eq := by
  simp only [Assignment.beq_iff_compare_eq, Assignment.compare_eq_iff, inputOf, actionsOf,
    Assignment.value?_without, Assignment.value?_restrict]
  constructor
  · intro same
    constructor
    · intro name
      split
      · exact Option.Rel.none
      · exact same name
    · intro name
      split
      · exact same name
      · exact Option.Rel.none
  · rintro ⟨inputs, actions⟩ name
    by_cases isOutput : name ∈ rule.outputs.toList
    · simpa [isOutput] using actions name
    · simpa [isOutput] using inputs name

variable [Scalar α]

/-- The utility of an assignment under a rule, computed afresh. -/
def plainUtility (rule : AnchoredRule α) (full : Assignment) : α :=
  scoreOrZero (rule.matchingOutput (inputOf rule full)) (inputOf rule full) (actionsOf rule full)

/-- Whether a matcher yields in every state what the rule yields. -/
def Follows {σ : Type} (matcher : Matcher α σ) (rule : AnchoredRule α) : Prop :=
  ∀ input state, (matcher input state).1 = rule.matchingOutput input

theorem evaluateBy_eq {σ : Type} (matcher : Matcher α σ) (utility : RuleUtility α)
    (full : Assignment) (state : σ) :
    utility.evaluateBy matcher full state =
      match utility.cache.get? (inputOf utility.rule full) (actionsOf utility.rule full) with
      | some found => (found, utility.cache, state)
      | none =>
        let matched := matcher (inputOf utility.rule full) state
        let computed := scoreOrZero matched.1 (inputOf utility.rule full)
          (actionsOf utility.rule full)
        (computed, utility.cache.store (inputOf utility.rule full) (actionsOf utility.rule full)
          computed, matched.2) :=
  rfl

/-- A matcher that follows the rule is asked when nothing is found, once and about the input. -/
theorem evaluateBy_of_follows {σ : Type} {matcher : Matcher α σ} {utility : RuleUtility α}
    (follows : Follows matcher utility.rule) (full : Assignment) (state : σ) :
    utility.evaluateBy matcher full state =
      match utility.cache.get? (inputOf utility.rule full) (actionsOf utility.rule full) with
      | some found => (found, utility.cache, state)
      | none =>
        (plainUtility utility.rule full,
          utility.cache.store (inputOf utility.rule full) (actionsOf utility.rule full)
            (plainUtility utility.rule full),
          (matcher (inputOf utility.rule full) state).2) := by
  rw [evaluateBy_eq, plainUtility, ← follows (inputOf utility.rule full) state]

theorem evaluate_eq (utility : RuleUtility α) (full : Assignment) :
    utility.evaluate full =
      match utility.cache.get? (inputOf utility.rule full) (actionsOf utility.rule full) with
      | some found => (found, utility)
      | none =>
        (plainUtility utility.rule full,
          { utility with
            cache := utility.cache.store (inputOf utility.rule full) (actionsOf utility.rule full)
              (plainUtility utility.rule full)
            matchings := utility.matchings + 1 }) := by
  rw [evaluate, evaluateBy_eq]
  cases utility.cache.get? (inputOf utility.rule full) (actionsOf utility.rule full) <;> rfl

/-- A cache that holds, for each assignment, the utility of the first request equal to it. -/
structure Recalls (rule : AnchoredRule α) (utility : RuleUtility α)
    (requests : List Assignment) : Prop where
  sameRule : utility.rule = rule
  cached : utility.isCached = true
  found : ∀ full, utility.cache.get? (inputOf rule full) (actionsOf rule full) =
    (requests.find? fun request => request == full).map (plainUtility rule)

theorem evaluate_of_not_cached {utility : RuleUtility α} (plain : utility.isCached = false)
    (full : Assignment) : (utility.evaluate full).1 = plainUtility utility.rule full := by
  obtain ⟨rule, cache, matchings⟩ := utility
  cases cache with
  | disabled => rfl
  | enabled tables => cases plain

theorem recalls_clear {rule : AnchoredRule α} {utility : RuleUtility α}
    {requests : List Assignment} (recalls : Recalls rule utility requests) :
    Recalls rule utility.clear [] := by
  obtain ⟨own, cache, matchings⟩ := utility
  obtain ⟨sameRule, cached, _⟩ := recalls
  cases cache with
  | disabled => cases cached
  | enabled tables => exact ⟨sameRule, rfl, fun _ => rfl⟩

theorem recalls_clone {rule : AnchoredRule α} {utility : RuleUtility α}
    {requests : List Assignment} (recalls : Recalls rule utility requests) :
    Recalls rule utility.clone [] :=
  recalls_clear recalls

/-- The answer is the utility of the first equal request, or of the assignment itself. -/
theorem evaluate_of_recalls {rule : AnchoredRule α} {utility : RuleUtility α}
    {requests : List Assignment} (recalls : Recalls rule utility requests) (full : Assignment) :
    (utility.evaluate full).1 =
      plainUtility rule ((requests.find? fun request => request == full).getD full) := by
  rw [evaluate_eq, recalls.sameRule, recalls.found full]
  cases requests.find? fun request => request == full <;> rfl

/-- A request that equals an earlier one changes nothing. -/
private theorem find?_append_of_earlier {requests : List Assignment} {first full : Assignment}
    (earlier : (requests.find? fun request => request == full) = some first)
    (other : Assignment) :
    ((requests ++ [full]).find? fun request => request == other) =
      requests.find? fun request => request == other := by
  rw [List.find?_append]
  cases otherEarlier : requests.find? fun request => request == other with
  | some request => rfl
  | none =>
      have differ : (full == other) = false := Bool.eq_false_iff.2 fun same => by
        have firstFull := List.find?_some earlier
        have firstOther := Assignment.beq_trans firstFull same
        exact List.find?_eq_none.1 otherEarlier first (List.mem_of_find?_eq_some earlier) firstOther
      simp [differ]

/-- A request unlike all earlier ones becomes the first of its kind. -/
private theorem find?_append_of_new {requests : List Assignment} {full : Assignment}
    (new : (requests.find? fun request => request == full) = none) (other : Assignment) :
    ((requests ++ [full]).find? fun request => request == other) =
      if (other == full) = true then some full
      else requests.find? fun request => request == other := by
  rw [List.find?_append]
  split
  next same =>
      have none : (requests.find? fun request => request == other) = none := by
        refine List.find?_eq_none.2 fun request member requestOther => ?_
        exact List.find?_eq_none.1 new request member (Assignment.beq_trans requestOther same)
      simp [none, Assignment.beq_symm same]
  next differ =>
      have notSame : (full == other) = false := Bool.eq_false_iff.2 fun same =>
        differ (Assignment.beq_symm same)
      simp [notSame]

theorem recalls_evaluate {rule : AnchoredRule α} {utility : RuleUtility α}
    {requests : List Assignment} (recalls : Recalls rule utility requests) (full : Assignment) :
    Recalls rule (utility.evaluate full).2 (requests ++ [full]) := by
  obtain ⟨own, cache, matchings⟩ := utility
  obtain ⟨sameRule, cached, found⟩ := recalls
  cases sameRule
  cases cache with
  | disabled => cases cached
  | enabled tables =>
      rw [evaluate_eq]
      simp only [found full]
      cases earlier : requests.find? fun request => request == full with
      | some first =>
          refine ⟨rfl, rfl, fun other => ?_⟩
          rw [find?_append_of_earlier earlier]
          exact found other
      | none =>
          refine ⟨rfl, rfl, fun other => ?_⟩
          rw [find?_append_of_new earlier]
          simp only [Option.map_none]
          rw [UtilityCache.get?_store, found other]
          by_cases same : (other == full) = true
          · rw [if_pos ((beq_iff_parts own).1 same), if_pos same]
            rfl
          · rw [if_neg fun parts => same ((beq_iff_parts own).2 parts), if_neg same]

/-! ## Runs of a cached rule utility and of its copies -/

/-- In every run the invariant holds of each utility and the requests recorded for it. -/
theorem recalls_run {rule : AnchoredRule α} {cached : RuleUtility α}
    (fresh : Recalls rule cached []) (operations : List Operation) :
    List.Forall₂ (Recalls rule) ((RuleLibrary.mk [cached]).run operations).utilities
      (operations.foldl Operation.record [[]]) :=
  @run_related α _ (Recalls rule) (fun _ _ full recalls => recalls_evaluate recalls full)
    (fun _ _ recalls => recalls_clear recalls) (fun _ _ recalls => recalls_clone recalls)
    operations _ _ (List.Forall₂.cons fresh List.Forall₂.nil)

theorem library_evaluate_of_getElem? {library : RuleLibrary α} {handle : Nat}
    {utility : RuleUtility α} (found : library.utilities[handle]? = some utility)
    (full : Assignment) : (library.evaluate handle full).1 = (utility.evaluate full).1 := by
  have atHandle : library.get? handle = some utility := found
  simp only [RuleLibrary.evaluate, atHandle]

/-- Every answer is the uncached utility of the first equal request that is still recorded. -/
theorem answer_eq_of_first_request {rule : AnchoredRule α} {cached : RuleUtility α}
    (fresh : Recalls rule cached []) (operations : List Operation) {handle : Nat}
    {requests : List Assignment}
    (recorded : (operations.foldl Operation.record [[]])[handle]? = some requests)
    (full : Assignment) :
    (((RuleLibrary.mk [cached]).run operations).evaluate handle full).1 =
      plainUtility rule ((requests.find? fun request => request == full).getD full) := by
  have related := recalls_run fresh operations
  obtain ⟨within, atHandle⟩ := List.getElem?_eq_some_iff.1 recorded
  have withinLibrary := related.length_eq ▸ within
  have recalls := related.get withinLibrary within
  simp only [List.get_eq_getElem, atHandle] at recalls
  rw [library_evaluate_of_getElem? (List.getElem?_eq_getElem withinLibrary)]
  exact evaluate_of_recalls recalls full

/-- A utility rule without parameters, cached and uncached: in every run of requests, of forgetting
and of copying, an answer of the cached utility or of a copy is the uncached utility of the first
equal assignment asked for since it last forgot. So the cache never shows, whatever the run,
exactly when equal assignments have the same uncached utility. -/
theorem cached_runs_transparent_iff (rule : CaseRule α) (settings : Settings)
    (isUtility : rule.kind = .utility) (parameterless : rule.parameters.isEmpty = true) :
    ∃ cached plain : RuleUtility α,
      make rule.anchor { settings with cacheUtilities := true } = .ok cached ∧
      cached.isCached = true ∧
      make rule.anchor { settings with cacheUtilities := false } = .ok plain ∧
      plain.isCached = false ∧
      (∀ operations handle requests full,
        (operations.foldl Operation.record [[]])[handle]? = some requests →
          (((RuleLibrary.mk [cached]).run operations).evaluate handle full).1 =
            (plain.evaluate ((requests.find? fun request => request == full).getD full)).1) ∧
      ((∀ operations handle full,
          handle < ((RuleLibrary.mk [cached]).run operations).utilities.length →
            (((RuleLibrary.mk [cached]).run operations).evaluate handle full).1 =
              (plain.evaluate full).1) ↔
        ∀ left right : Assignment, (left == right) = true →
          (plain.evaluate left).1 = (plain.evaluate right).1) := by
  let cached : RuleUtility α := ⟨rule.anchor, .enabled .empty, 0⟩
  let plain : RuleUtility α := ⟨rule.anchor, .disabled, 0⟩
  have fresh : Recalls rule.anchor cached [] := ⟨rfl, rfl, fun _ => rfl⟩
  have uncached (full : Assignment) : (plain.evaluate full).1 = plainUtility rule.anchor full :=
    evaluate_of_not_cached rfl full
  have kind : rule.anchor.kind = .utility := isUtility
  have noParameters : rule.anchor.parameters.isEmpty = true := parameterless
  refine ⟨cached, plain, ?_, rfl, ?_, rfl, ?_, ?_, ?_⟩
  · rw [make, if_pos kind, noParameters]
    rfl
  · rw [make, if_pos kind]
    rfl
  · intro operations handle requests full recorded
    rw [uncached]
    exact answer_eq_of_first_request fresh operations recorded full
  · intro transparent left right same
    -- The second of two equal requests is answered with the utility of the first.
    have recorded : ([Operation.evaluate 0 left].foldl Operation.record [[]])[0]? = some [left] :=
      rfl
    have answer := answer_eq_of_first_request fresh [.evaluate 0 left] recorded right
    rw [transparent [.evaluate 0 left] 0 right Nat.zero_lt_one] at answer
    rw [answer, uncached]
    simp [same]
  · intro agree operations handle full within
    have related := recalls_run fresh operations
    have recorded : handle < (operations.foldl Operation.record [[]]).length :=
      related.length_eq ▸ within
    rw [answer_eq_of_first_request fresh operations (List.getElem?_eq_getElem recorded),
      ← uncached]
    cases first : (operations.foldl Operation.record [[]])[handle].find?
        fun request => request == full with
    | none => rfl
    | some request =>
        have same := List.find?_some first
        exact agree request full same

/-- The rule that rewards the action of naming the number which it is shown. -/
def namingRule : CaseRule Binary64 where
  id := "naming"
  kind := .utility
  outputs := .ofList ["a"]
  parameters := .empty
  cases := [(.always,
    ⟨[(⟨[⟨.ofText "a", .assign, .ofText "it is \x7bx\x7d"⟩]⟩, .fixed .one)]⟩)]

/-- The action of naming zero when shown a number. -/
def namingZero (shown : Binary64) : Assignment :=
  .ofList [("a", .text "it is 0"), ("x", .number shown)]

theorem namingRule_transparent_iff :
    namingRule.kind = .utility ∧ namingRule.parameters.isEmpty = true ∧
      ∃ cached plain : RuleUtility Binary64,
        make namingRule.anchor { cacheUtilities := true } = .ok cached ∧
        make namingRule.anchor { cacheUtilities := false } = .ok plain ∧
        ((∀ operations handle full,
            handle < ((RuleLibrary.mk [cached]).run operations).utilities.length →
              (((RuleLibrary.mk [cached]).run operations).evaluate handle full).1 =
                (plain.evaluate full).1) ↔
          ∀ left right : Assignment, (left == right) = true →
            (plain.evaluate left).1 = (plain.evaluate right).1) := by
  obtain ⟨cached, plain, madeCached, _, madePlain, _, _, transparent⟩ :=
    cached_runs_transparent_iff namingRule {} rfl rfl
  exact ⟨rfl, rfl, cached, plain, madeCached, madePlain, transparent⟩

/-- The text of a zero shows its sign, so the same action names the one and not the other. -/
theorem plainUtility_namingZero :
    plainUtility namingRule.anchor (namingZero (.withSign true 0)) = .zero ∧
      plainUtility namingRule.anchor (namingZero .zero) = .one := by
  decide +kernel

/-- Asked about zero after negative zero, the cached utility repeats the answer for negative zero,
whose text the action does not name. -/
theorem namingRule_answer_depends_on_run :
    ∃ cached plain : RuleUtility Binary64,
      make namingRule.anchor { cacheUtilities := true } = .ok cached ∧
      make namingRule.anchor { cacheUtilities := false } = .ok plain ∧
      (((RuleLibrary.mk [cached]).run
          [.evaluate 0 (namingZero (.withSign true 0))]).evaluate 0 (namingZero .zero)).1 ≠
        (plain.evaluate (namingZero .zero)).1 := by
  let cached : RuleUtility Binary64 := ⟨namingRule.anchor, .enabled .empty, 0⟩
  let plain : RuleUtility Binary64 := ⟨namingRule.anchor, .disabled, 0⟩
  refine ⟨cached, plain, rfl, rfl, ?_⟩
  have fresh : Recalls namingRule.anchor cached [] := ⟨rfl, rfl, fun _ => rfl⟩
  have recorded : ([Operation.evaluate 0 (namingZero (.withSign true 0))].foldl Operation.record
      [[]])[0]? = some [namingZero (.withSign true 0)] := rfl
  have equal : (namingZero (.withSign true 0) == namingZero .zero) = true := by decide +kernel
  rw [answer_eq_of_first_request fresh _ recorded, evaluate_of_not_cached rfl]
  simp only [List.find?_cons, equal, Option.getD_some]
  rw [plainUtility_namingZero.1]
  show Binary64.zero ≠ plainUtility namingRule.anchor (namingZero .zero)
  rw [plainUtility_namingZero.2]
  decide

end RuleUtility

end DecisionNetwork
