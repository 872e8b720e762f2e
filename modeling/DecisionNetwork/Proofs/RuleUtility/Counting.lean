import DecisionNetwork.Proofs.RuleUtility.Recall

/-!
Contract: how often a rule utility matches its rule, and how many utilities it keeps.

Owns:
- `UtilityCache.size_store`, by which storing adds at most one utility;
- `matchings_evaluate`, by which a request matches the rule once unless something is found;
- `Account`, what was asked of a utility since it last forgot and the matchings this took, and
  `RuleLibrary.accounts`, kept beside every utility of a run;
- `Counted` and `Uncounted`, the invariants of a cached and of a plain utility;
- `Accounted.evaluateBy`, a request served by any matcher that follows the rule;
- `matchings_eq_distinct_requests`: a cached utility matches its rule once for each of several equal
  requests, a plain one at every request, and neither sees what is asked of its copies.
-/

namespace DecisionNetwork

/-- One more item is new among the distinct ones unless it equals an earlier one. -/
theorem eraseDups_append_singleton {β : Type} [BEq β] [PartialEquivBEq β] (items : List β)
    (item : β) :
    (items ++ [item]).eraseDups =
      if items.any (· == item) then items.eraseDups else items.eraseDups ++ [item] := by
  cases items with
  | nil => rfl
  | cons head tail =>
      have rest := eraseDups_append_singleton (tail.filter fun other => !other == head) item
      rw [List.cons_append, List.eraseDups_cons, List.eraseDups_cons, List.filter_append,
        List.any_cons]
      cases same : head == item with
      | true =>
          have dropped : ([item].filter fun other => !other == head) = [] := by
            simp [PartialEquivBEq.symm same]
          rw [dropped, List.append_nil, Bool.true_or, if_pos rfl]
      | false =>
          have differ : (item == head) = false :=
            Bool.eq_false_iff.2 fun equal => Bool.eq_false_iff.1 same (PartialEquivBEq.symm equal)
          have kept : ([item].filter fun other => !other == head) = [item] := by simp [differ]
          -- What equals the item is unlike the head, so no such item is filtered away.
          have found : (tail.filter fun other => !other == head).any (· == item) =
              tail.any (· == item) := by
            rw [List.any_filter]
            refine congrArg tail.any (funext fun other => ?_)
            cases equal : other == item with
            | false => rw [Bool.and_false]
            | true =>
                have unlike : (other == head) = false := Bool.eq_false_iff.2 fun isHead =>
                  Bool.eq_false_iff.1 differ
                    (PartialEquivBEq.trans (PartialEquivBEq.symm equal) isHead)
                rw [unlike]
                rfl
          rw [kept, rest, found, Bool.false_or]
          split <;> rfl
termination_by items.length
decreasing_by
  have fewer := List.length_filter_le (fun other => !other == head) tail
  simp only [List.length_cons]
  omega

namespace UtilityTable

variable {α : Type}

theorem size_set (table : UtilityTable α) (assignment : Assignment) (utility : α) :
    (table.set assignment utility).size =
      table.size + if (table.get? assignment).isSome then 0 else 1 :=
  SortedMap.size_insert table.rows assignment utility

end UtilityTable

namespace UtilityCache

variable {α : Type}

/-- An enabled cache keeps one more utility after a new one was stored. -/
theorem size_store (tables : SortedMap Assignment (UtilityTable α)) (input actions : Assignment)
    (utility : α) :
    ((enabled tables).store input actions utility).size =
      (enabled tables).size + if ((enabled tables).get? input actions).isSome then 0 else 1 := by
  have total := SortedMap.sum_values_insert tables input
    (((tables.get? input).getD .empty).set actions utility) UtilityTable.size
  change ((enabled tables).store input actions utility).size + _ =
    (enabled tables).size + _ at total
  rw [UtilityTable.size_set] at total
  show _ = _ + if ((tables.get? input).bind fun table => table.get? actions).isSome then 0 else 1
  cases found : tables.get? input with
  | none =>
      simp only [found, Option.map_none, Option.getD_none] at total
      exact total
  | some table =>
      simp only [found, Option.map_some, Option.getD_some] at total
      rw [Option.bind_some]
      omega

end UtilityCache

/-- What was asked of a utility since it last forgot, and the matchings made for it. -/
structure Account where
  requests : List Assignment
  matchings : Nat

namespace Account

variable {α : Type} [Scalar α]

def empty : Account := ⟨[], 0⟩

/-- The account after one more request. -/
def ask (utility : RuleUtility α) (full : Assignment) (account : Account) : Account where
  requests := account.requests ++ [full]
  matchings := account.matchings + ((utility.evaluate full).2.matchings - utility.matchings)

/-- The number of requests of which no two are equal. -/
def distinctRequests (account : Account) : Nat := account.requests.eraseDups.length

end Account

/-- The accounts of the utilities of a library in the course of a run that starts with none of them
asked for anything. -/
def RuleLibrary.accounts {α : Type} [Scalar α] (library : RuleLibrary α)
    (operations : List Operation) : List Account :=
  library.notes .empty .ask (library.utilities.map fun _ => .empty) operations

namespace RuleUtility

variable {α : Type} [Scalar α] {rule : AnchoredRule α} {utility : RuleUtility α}
  {account : Account}

/-- A request matches the rule once, unless its utility is found. -/
theorem matchings_evaluate (utility : RuleUtility α) (full : Assignment) :
    (utility.evaluate full).2.matchings =
      utility.matchings +
        if (utility.cache.get? (inputOf utility.rule full) (actionsOf utility.rule full)).isSome
        then 0 else 1 := by
  rw [evaluate_eq]
  cases utility.cache.get? (inputOf utility.rule full) (actionsOf utility.rule full) <;> rfl

/-- A cached utility that matched its rule once for each utility that it keeps. -/
structure Counted (rule : AnchoredRule α) (utility : RuleUtility α) (account : Account) : Prop where
  recalls : Recalls rule utility account.requests
  cachedSize : utility.cachedSize = account.distinctRequests
  matchings : account.matchings = account.distinctRequests

/-- A plain utility that matched its rule at every request. -/
structure Uncounted (rule : AnchoredRule α) (utility : RuleUtility α) (account : Account) :
    Prop where
  sameRule : utility.rule = rule
  plain : utility.cache = .disabled
  matchings : account.matchings = account.requests.length

/-- A request adds to the distinct ones if nothing equal was asked for before. -/
theorem distinctRequests_ask (utility : RuleUtility α) (full : Assignment) (account : Account) :
    (account.ask utility full).distinctRequests =
      account.distinctRequests +
        if (account.requests.find? fun request => request == full).isSome then 0 else 1 := by
  have earlier : account.requests.any (· == full) =
      (account.requests.find? fun request => request == full).isSome := by
    rw [Bool.eq_iff_iff, List.any_eq_true, List.find?_isSome]
  show ((account.requests ++ [full]).eraseDups).length = account.requests.eraseDups.length + _
  rw [eraseDups_append_singleton, earlier]
  split
  · rfl
  · rw [List.length_append, List.length_singleton]

theorem counted_evaluate (counted : Counted rule utility account) (full : Assignment) :
    Counted rule (utility.evaluate full).2 (account.ask utility full) := by
  obtain ⟨recalls, cachedSize, matchings⟩ := counted
  have next := recalls_evaluate recalls full
  have distinct := distinctRequests_ask utility full account
  -- The cache finds a utility exactly when something equal was asked for before.
  have cached := recalls.found full
  rw [← recalls.sameRule] at cached
  cases earlier : account.requests.find? fun request => request == full with
  | some first =>
      rw [earlier, Option.map_some] at cached
      rw [earlier, Option.isSome_some, if_pos rfl, Nat.add_zero] at distinct
      have unchanged : (utility.evaluate full).2 = utility := by rw [evaluate_eq, cached]
      refine ⟨next, ?_, ?_⟩
      · rw [unchanged, distinct, cachedSize]
      · show account.matchings + ((utility.evaluate full).2.matchings - utility.matchings) = _
        rw [unchanged, distinct, matchings, Nat.sub_self, Nat.add_zero]
  | none =>
      rw [earlier, Option.map_none] at cached
      rw [earlier, Option.isSome_none, if_neg Bool.false_ne_true] at distinct
      refine ⟨next, ?_, ?_⟩
      · rw [distinct, ← cachedSize, evaluate_eq, cached]
        obtain ⟨own, cache, made⟩ := utility
        cases cache with
        | disabled => cases recalls.cached
        | enabled tables =>
            show ((UtilityCache.enabled tables).store _ _ _).size = _
            rw [UtilityCache.size_store, cached]
            rfl
      · show account.matchings + ((utility.evaluate full).2.matchings - utility.matchings) = _
        rw [distinct, matchings, matchings_evaluate, cached, Option.isSome_none,
          if_neg Bool.false_ne_true, Nat.add_sub_cancel_left]

theorem counted_clear (counted : Counted rule utility account) :
    Counted rule utility.clear .empty := by
  obtain ⟨own, cache, made⟩ := utility
  obtain ⟨recalls, _, _⟩ := counted
  refine ⟨recalls_clear recalls, ?_, rfl⟩
  cases cache <;> rfl

theorem uncounted_evaluate (uncounted : Uncounted rule utility account) (full : Assignment) :
    Uncounted rule (utility.evaluate full).2 (account.ask utility full) := by
  obtain ⟨sameRule, plain, matchings⟩ := uncounted
  have notFound : utility.cache.get? (inputOf utility.rule full) (actionsOf utility.rule full) =
      none := by
    rw [plain]
    rfl
  refine ⟨?_, ?_, ?_⟩
  · rw [evaluate_eq, notFound]
    exact sameRule
  · rw [evaluate_eq, notFound, plain]
    rfl
  · show account.matchings + ((utility.evaluate full).2.matchings - utility.matchings) =
      (account.requests ++ [full]).length
    rw [matchings_evaluate, notFound, Option.isSome_none, if_neg Bool.false_ne_true,
      Nat.add_sub_cancel_left, matchings, List.length_append, List.length_singleton]

omit [Scalar α] in
theorem uncounted_clear (uncounted : Uncounted rule utility account) :
    Uncounted rule utility.clear .empty := by
  obtain ⟨own, cache, made⟩ := utility
  obtain ⟨sameRule, plain, _⟩ := uncounted
  cases plain
  exact ⟨sameRule, rfl, rfl⟩

/-- The invariant of a cached utility or of a plain one. -/
def Accounted (rule : AnchoredRule α) : Bool → RuleUtility α → Account → Prop
  | true => Counted rule
  | false => Uncounted rule

namespace Accounted

variable {enabled : Bool}

theorem evaluate (accounted : Accounted rule enabled utility account) (full : Assignment) :
    Accounted rule enabled (utility.evaluate full).2 (account.ask utility full) := by
  cases enabled with
  | true => exact counted_evaluate accounted full
  | false => exact uncounted_evaluate accounted full

theorem clear (accounted : Accounted rule enabled utility account) :
    Accounted rule enabled utility.clear .empty := by
  cases enabled with
  | true => exact counted_clear accounted
  | false => exact uncounted_clear accounted

theorem sameRule (accounted : Accounted rule enabled utility account) : utility.rule = rule := by
  cases enabled with
  | true => exact Counted.recalls accounted |>.sameRule
  | false => exact Uncounted.sameRule accounted

theorem isCached (accounted : Accounted rule enabled utility account) :
    utility.isCached = enabled := by
  cases enabled with
  | true => exact Counted.recalls accounted |>.cached
  | false =>
      show utility.cache.isEnabled = false
      rw [Uncounted.plain accounted]
      rfl

/-- A utility is found when it is cached and something equal was asked for before. -/
theorem isSome_get? (accounted : Accounted rule enabled utility account) (full : Assignment) :
    (utility.cache.get? (inputOf rule full) (actionsOf rule full)).isSome =
      (enabled && account.requests.any (· == full)) := by
  cases enabled with
  | true =>
      rw [Bool.true_and, Counted.recalls accounted |>.found full, Option.isSome_map,
        Bool.eq_iff_iff, List.find?_isSome, List.any_eq_true]
  | false =>
      rw [Uncounted.plain accounted]
      rfl

/-- Without requests nothing is kept. -/
theorem cachedSize_of_empty (accounted : Accounted rule enabled utility .empty) :
    utility.cachedSize = 0 := by
  cases enabled with
  | true => exact Counted.cachedSize accounted
  | false =>
      show utility.cache.size = 0
      rw [Uncounted.plain accounted]
      rfl

/-- Whoever follows the rule serves a request as the rule does, and is asked about the input once,
unless the utility is cached and something equal was asked for before. -/
theorem evaluateBy (accounted : Accounted rule enabled utility account) {σ : Type}
    {matcher : Matcher α σ} (follows : Follows matcher rule) (full : Assignment) (state : σ) :
    utility.evaluateBy matcher full state =
      ((utility.evaluate full).1, (utility.evaluate full).2.cache,
        if enabled && account.requests.any (· == full) then state
        else (matcher (inputOf rule full) state).2) := by
  rw [← accounted.isSome_get? full]
  obtain rfl := accounted.sameRule
  rw [evaluateBy_of_follows follows, evaluate_eq]
  cases utility.cache.get? (inputOf utility.rule full) (actionsOf utility.rule full) <;> rfl

end Accounted

/-! ## Runs of a rule utility and of its copies -/

section Runs

variable {settings : Settings} {fresh : RuleUtility α}

theorem accounted_of_make (made : make rule settings = .ok fresh) :
    Accounted rule fresh.isCached fresh .empty := by
  unfold make at made
  split at made
  next =>
      cases made
      cases settings.cacheUtilities && rule.parameters.isEmpty with
      | true => exact ⟨⟨rfl, rfl, fun _ => rfl⟩, rfl, rfl⟩
      | false => exact ⟨rfl, rfl, rfl⟩
  next => cases made

theorem accounted_run {enabled : Bool} (accounted : Accounted rule enabled fresh .empty)
    (operations : List Operation) :
    List.Forall₂ (Accounted rule enabled) ((RuleLibrary.mk [fresh]).run operations).utilities
      ((RuleLibrary.mk [fresh]).accounts operations) :=
  @run_noted α Account .empty Account.ask _ (Accounted rule enabled)
    (fun _ _ full kept => kept.evaluate full) (fun _ _ kept => kept.clear)
    (fun _ _ kept => kept.clear) operations _ _ (List.Forall₂.cons accounted List.Forall₂.nil)

/-- A rule utility in use, in every run of requests, of forgetting and of copying. There is an
account for each utility. A cached one has matched its rule, since it last forgot, once for each of
the distinct assignments asked for, and keeps that many utilities; a plain one keeps none and
matches the rule once at every request. Whoever yields the same as the rule, in whatever state, is
asked at a request for exactly these matches and about nothing but the input. A copy starts with
nothing kept and is cached if the other is; and no operation on other utilities changes one, nor
does copying it. -/
theorem matchings_eq_distinct_requests (rule : AnchoredRule α) (settings : Settings)
    (made : make rule settings = .ok fresh) (operations : List Operation) :
    let library := (RuleLibrary.mk [fresh]).run operations
    let accounts := (RuleLibrary.mk [fresh]).accounts operations
    accounts.length = library.utilities.length ∧
      ∀ handle utility account,
        library.get? handle = some utility → accounts[handle]? = some account →
        utility.rule = rule ∧ utility.isCached = fresh.isCached ∧
        (fresh.isCached = true →
          account.matchings = account.distinctRequests ∧
            utility.cachedSize = account.distinctRequests) ∧
        (fresh.isCached = false →
          account.matchings = account.requests.length ∧ utility.cachedSize = 0 ∧
            ∀ full, (utility.evaluate full).2.matchings = utility.matchings + 1) ∧
        (∀ {σ : Type} (matcher : Matcher α σ), Follows matcher rule → ∀ full state,
          utility.evaluateBy matcher full state =
            ((utility.evaluate full).1, (utility.evaluate full).2.cache,
              if fresh.isCached && account.requests.any (· == full) then state
              else (matcher (inputOf rule full) state).2)) ∧
        (∃ copy, (library.perform (.clone handle)).utilities = library.utilities ++ [copy] ∧
          copy.rule = rule ∧ copy.isCached = fresh.isCached ∧ copy.cachedSize = 0) ∧
        ∀ later, (∀ operation ∈ later, operation.handle ≠ handle ∨ operation = .clone handle) →
          (library.run later).get? handle = some utility := by
  intro library accounts
  have related : List.Forall₂ (Accounted rule fresh.isCached) library.utilities accounts :=
    accounted_run (accounted_of_make made) operations
  refine ⟨related.length_eq.symm, fun handle utility account found kept => ?_⟩
  have own := forall₂_getElem? related found kept
  have copied : Accounted rule fresh.isCached utility.clone .empty := own.clear
  refine ⟨own.sameRule, own.isCached, fun enabled => ?_, fun plain => ?_,
    fun _ follows => own.evaluateBy follows, ?_, fun later apart => ?_⟩
  · rw [enabled] at own
    exact ⟨own.matchings, own.cachedSize⟩
  · rw [plain] at own
    have uncounted : Uncounted rule utility account := own
    refine ⟨uncounted.matchings, ?_, fun full => ?_⟩
    · show utility.cache.size = 0
      rw [uncounted.plain]
      rfl
    · rw [matchings_evaluate, own.sameRule, own.isSome_get? full, Bool.false_and,
        if_neg Bool.false_ne_true]
  · exact ⟨utility.clone, utilities_copy found, copied.sameRule, copied.isCached,
      copied.cachedSize_of_empty⟩
  · exact get?_run_of_apart found later apart

/-- The rule together with the inputs that it was asked about. -/
def noting (rule : AnchoredRule α) : Matcher α (List Assignment) :=
  fun input inputs => (rule.matchingOutput input, inputs ++ [input])

/-- A run in which two of three requests are equal, beside a copy. -/
def namingRun : List Operation :=
  [.evaluate 0 (namingZero (.withSign true 0)), .clone 0, .evaluate 0 (namingZero .zero),
    .evaluate 0 (namingZero .one), .evaluate 1 (namingZero .zero)]

theorem matchings_eq_distinct_requests_namingRun :
    make namingRule.anchor {} = .ok ⟨namingRule.anchor, .enabled .empty, 0⟩ ∧
      ∃ utility account,
        ((RuleLibrary.mk [⟨namingRule.anchor, .enabled .empty, 0⟩]).run namingRun).get? 0 =
          some utility ∧
        ((RuleLibrary.mk [⟨namingRule.anchor, .enabled .empty, 0⟩]).accounts namingRun)[0]? =
          some account ∧
        account.requests.length = 3 ∧ account.matchings = 2 ∧ utility.cachedSize = 2 ∧
        (utility.evaluateBy (noting namingRule.anchor) (namingZero .one) []).2.2 = [] ∧
        (utility.evaluateBy (noting namingRule.anchor) (namingZero .infinity) []).2.2 =
          [inputOf namingRule.anchor (namingZero .infinity)] := by
  let fresh : RuleUtility Binary64 := ⟨namingRule.anchor, .enabled .empty, 0⟩
  have made : make namingRule.anchor {} = .ok fresh := rfl
  obtain ⟨sameLength, counts⟩ :=
    matchings_eq_distinct_requests namingRule.anchor {} made namingRun
  have asked : ((RuleLibrary.mk [fresh]).accounts namingRun)[0]?.map Account.requests =
      some [namingZero (.withSign true 0), namingZero .zero, namingZero .one] := rfl
  obtain ⟨account, kept, requests⟩ := Option.map_eq_some_iff.1 asked
  obtain ⟨within, _⟩ := List.getElem?_eq_some_iff.1 kept
  have found := List.getElem?_eq_getElem (sameLength ▸ within)
  obtain ⟨_, _, cached, _, served, _⟩ := counts 0 _ account found kept
  have follows : Follows (noting namingRule.anchor) namingRule.anchor := fun _ _ => rfl
  obtain ⟨matchings, size⟩ := cached rfl
  have distinct : account.distinctRequests = 2 := by
    rw [Account.distinctRequests, requests]
    decide +kernel
  have length : account.requests.length = 3 := by
    rw [requests]
    rfl
  have old : account.requests.any (· == namingZero .one) = true := by
    rw [requests]
    decide +kernel
  have new : account.requests.any (· == namingZero .infinity) = false := by
    rw [requests]
    decide +kernel
  refine ⟨made, _, account, found, kept, length, matchings.trans distinct, size.trans distinct,
    ?_, ?_⟩
  · rw [served _ follows, old]
    rfl
  · rw [served _ follows, new]
    rfl

end Runs

end RuleUtility

end DecisionNetwork
