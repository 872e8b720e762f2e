import DecisionNetwork.Proofs.RuleUtility.Operation
import DecisionNetwork.Proofs.SortedMap.Listing

/-!
Contract: rule utilities are finite numbers, whatever the rule yields.

Owns:
- `UtilityCache.numbers`, the numbers that a cache holds, before and after one was stored;
- `perform_kept`, by which a property of utilities that every operation keeps holds of a library;
- `RuleLibrary.Reaches`, the libraries that operations lead to while the rules may change what they
  yield at any time;
- `isFinite_scoreOrZero`, the one check of a total, and `finite_of_reaches`, its guarantee for every
  answer and for everything kept.
-/

namespace DecisionNetwork

variable {α : Type}

namespace UtilityCache

/-- The numbers held. -/
def numbers : UtilityCache α → List α
  | .disabled => []
  | .enabled tables => tables.values.flatMap fun table => table.rows.values

theorem mem_numbers_of_get? {cache : UtilityCache α} {input actions : Assignment} {number : α}
    (found : cache.get? input actions = some number) : number ∈ cache.numbers := by
  cases cache with
  | disabled => cases found
  | enabled tables =>
      obtain ⟨table, tableFound, rowFound⟩ := Option.bind_eq_some_iff.1 found
      obtain ⟨_, tableListed, _⟩ := SortedMap.get?_eq_some_iff_exists.1 tableFound
      obtain ⟨_, rowListed, _⟩ := SortedMap.get?_eq_some_iff_exists.1 rowFound
      exact List.mem_flatMap.2
        ⟨table, List.mem_map_of_mem tableListed, List.mem_map_of_mem rowListed⟩

/-- Storing a number adds no other. -/
theorem mem_numbers_store {cache : UtilityCache α} {input actions : Assignment}
    {utility number : α} (member : number ∈ (cache.store input actions utility).numbers) :
    number = utility ∨ number ∈ cache.numbers := by
  cases cache with
  | disabled => cases member
  | enabled tables =>
      obtain ⟨table, tableListed, rowListed⟩ := List.mem_flatMap.1 member
      obtain ⟨entry, inserted, rfl⟩ := List.mem_map.1 tableListed
      rcases SortedMap.eq_or_mem_of_mem_insertEntry inserted with isChanged | earlier
      · rw [isChanged] at rowListed
        obtain ⟨row, rowInserted, rfl⟩ := List.mem_map.1 rowListed
        rcases SortedMap.eq_or_mem_of_mem_insertEntry rowInserted with isNew | inOld
        · exact Or.inl isNew
        · right
          -- The table that was changed is empty unless it was there before.
          cases found : tables.get? input with
          | none =>
              rw [found] at inOld
              cases inOld
          | some old =>
              rw [found] at inOld
              obtain ⟨_, oldListed, _⟩ := SortedMap.get?_eq_some_iff_exists.1 found
              exact List.mem_flatMap.2
                ⟨old, List.mem_map_of_mem oldListed, List.mem_map_of_mem inOld⟩
      · exact Or.inr (List.mem_flatMap.2 ⟨_, List.mem_map_of_mem earlier, rowListed⟩)

theorem numbers_make (enabled : Bool) : (make enabled : UtilityCache α).numbers = [] := by
  cases enabled <;> rfl

end UtilityCache

section Kept

variable [Scalar α] {kept : RuleUtility α → Prop}
  (evaluated : ∀ utility full, kept utility → kept (utility.evaluate full).2)
  (cleared : ∀ utility, kept utility → kept utility.clear)
  (cloned : ∀ utility, kept utility → kept utility.clone)
include evaluated cleared cloned

/-- A property that every operation keeps of the utility it is about holds of all utilities after
one. -/
theorem perform_kept (operation : Operation) {library : RuleLibrary α}
    (holds : ∀ utility ∈ library.utilities, kept utility) :
    ∀ utility ∈ (library.perform operation).utilities, kept utility := by
  let notes : List Unit := library.utilities.map fun _ => ()
  have related : List.Forall₂ (fun utility _ => kept utility) library.utilities notes := by
    rw [List.forall₂_map_right_iff, List.forall₂_same]
    exact holds
  have after := @perform_noted α Unit () (fun _ _ _ => ()) _ (fun utility _ => kept utility)
    (fun utility _ full => evaluated utility full) (fun utility _ => cleared utility)
    (fun utility _ => cloned utility) operation _ _ related
  intro utility member
  obtain ⟨place, within, rfl⟩ := List.getElem_of_mem member
  exact after.get within (after.length_eq ▸ within)

end Kept

/-- What a rule yields for each input. -/
abbrev Matching (α : Type) := Assignment → Except (RuleError α) (RuleOutput α)

namespace RuleLibrary

/-- The library with all rules yielding something else from now on. -/
def withMatching (library : RuleLibrary α) (matching : Matching α) : RuleLibrary α :=
  ⟨library.utilities.map fun utility =>
    { utility with rule := { utility.rule with matchingOutput := matching } }⟩

variable [Scalar α]

/-- The libraries that operations lead to. Between any two of them the rules may change what they
yield. -/
inductive Reaches (start : RuleLibrary α) : RuleLibrary α → Prop
  | start : Reaches start start
  | perform {library : RuleLibrary α} (reached : Reaches start library) (operation : Operation) :
      Reaches start (library.perform operation)
  | withMatching {library : RuleLibrary α} (reached : Reaches start library)
      (matching : Matching α) : Reaches start (library.withMatching matching)

theorem reaches_run {start library : RuleLibrary α} (reached : start.Reaches library)
    (operations : List Operation) : start.Reaches (library.run operations) := by
  induction operations generalizing library with
  | nil => exact reached
  | cons operation rest inductionHypothesis => exact inductionHypothesis (reached.perform operation)

end RuleLibrary

namespace RuleUtility

section Finite

variable [Scalar α] (zero : Scalar.isFinite (Scalar.zero : α) = true)

/-- Whether every number held is finite. -/
def HoldsFinite (utility : RuleUtility α) : Prop :=
  ∀ number ∈ utility.cache.numbers, Scalar.isFinite number = true

theorem holdsFinite_of_cache_make {utility : RuleUtility α} {enabled : Bool}
    (new : utility.cache = .make enabled) : utility.HoldsFinite := by
  intro number member
  rw [new, UtilityCache.numbers_make] at member
  cases member

/-- A total is checked before it is a utility. -/
theorem isFinite_of_score_eq_ok {result : Except (RuleError α) (RuleOutput α)}
    {input actions : Assignment} {utility : α} (scored : score result input actions = .ok utility) :
    Scalar.isFinite utility = true := by
  cases result with
  | error failure => cases scored
  | ok output =>
      simp only [score, scoreOutput] at scored
      split at scored
      next total _ =>
          split at scored
          next finite =>
              cases scored
              exact finite
          next => cases scored
      next => cases scored

include zero

theorem isFinite_scoreOrZero (result : Except (RuleError α) (RuleOutput α))
    (input actions : Assignment) : Scalar.isFinite (scoreOrZero result input actions) = true := by
  unfold scoreOrZero
  split
  next scored => exact isFinite_of_score_eq_ok scored
  next => exact zero

/-- An answer is finite and so is what is held after it. -/
theorem HoldsFinite.evaluate {utility : RuleUtility α} (holds : utility.HoldsFinite)
    (full : Assignment) :
    Scalar.isFinite (utility.evaluate full).1 = true ∧ (utility.evaluate full).2.HoldsFinite := by
  unfold RuleUtility.evaluate evaluateBy
  dsimp only
  split
  next number found => exact ⟨holds number (UtilityCache.mem_numbers_of_get? found), holds⟩
  next =>
      have finite := isFinite_scoreOrZero zero
        (utility.rule.matchingOutput (inputOf utility.rule full)) (inputOf utility.rule full)
        (actionsOf utility.rule full)
      refine ⟨finite, fun number member => ?_⟩
      rcases UtilityCache.mem_numbers_store member with rfl | earlier
      · exact finite
      · exact holds number earlier

theorem holdsFinite_of_reaches {start library : RuleLibrary α}
    (holds : ∀ utility ∈ start.utilities, utility.HoldsFinite) (reached : start.Reaches library) :
    ∀ utility ∈ library.utilities, utility.HoldsFinite := by
  induction reached with
  | start => exact holds
  | perform _ operation inductionHypothesis =>
      exact perform_kept (fun utility full kept => (kept.evaluate zero full).2)
        (fun _ _ => holdsFinite_of_cache_make rfl) (fun _ _ => holdsFinite_of_cache_make rfl)
        operation inductionHypothesis
  | withMatching _ matching inductionHypothesis =>
      -- What a rule yields from now on does not change what is held.
      intro utility member
      obtain ⟨before, listed, rfl⟩ := List.mem_map.1 member
      exact inductionHypothesis before listed

theorem isFinite_library_evaluate {library : RuleLibrary α}
    (holds : ∀ utility ∈ library.utilities, utility.HoldsFinite) (handle : Nat)
    (full : Assignment) : Scalar.isFinite (library.evaluate handle full).1 = true := by
  unfold RuleLibrary.evaluate
  cases found : library.get? handle with
  | none => exact zero
  | some utility => exact ((holds utility (List.mem_of_getElem? found)).evaluate zero full).1

end Finite

/-- A utility rule can be put to use, and then every answer is a finite number, whichever operations
came before and whatever the rule yields: failures, weights that are not finite or have no value, or
something else at every request. So is everything that is kept at any time. -/
theorem finite_of_reaches (rule : AnchoredRule Binary64) (settings : Settings)
    (isUtility : rule.kind = .utility) :
    ∃ fresh, make rule settings = .ok fresh ∧
      ∀ library, (RuleLibrary.mk [fresh]).Reaches library →
        (∀ handle full, (library.evaluate handle full).1.isFinite = true) ∧
        ∀ utility ∈ library.utilities, ∀ number ∈ utility.cache.numbers,
          number.isFinite = true := by
  have zero : Scalar.isFinite (Scalar.zero : Binary64) = true := by decide
  refine ⟨_, if_pos isUtility, fun library reached => ?_⟩
  have holds := holdsFinite_of_reaches zero (fun utility member => by
    cases List.mem_singleton.1 member
    exact holdsFinite_of_cache_make rfl) reached
  exact ⟨isFinite_library_evaluate zero holds, holds⟩

/-- A rule that fails to match, gives two infinite weights that cancel, or asks for a weight. -/
def wildRule : AnchoredRule Binary64 where
  label := "wild"
  kind := .utility
  outputs := .ofList ["a"]
  parameters := .empty
  matchingOutput := fun input =>
    match input.value? "x" with
    | some (.boolean true) => .error (.matching "out of order")
    | some _ => .ok ⟨[(⟨[]⟩, .fixed .infinity), (⟨[]⟩, .fixed .negativeInfinity)]⟩
    | none => .ok ⟨[(⟨[]⟩, .bound "y")]⟩

/-- Requests that match the rule in each of the three ways, beside a copy and a change of names. -/
def wildRun : List Operation :=
  [.evaluate 0 .empty, .evaluate 0 (.single "x" .absent), .clone 0, .rename 0 "x" "z",
    .evaluate 1 (.single "x" (.boolean true)), .evaluate 1 (.single "y" (.number .one))]

theorem finite_of_reaches_wildRun :
    wildRule.kind = .utility ∧
      ∃ fresh, make wildRule {} = .ok fresh ∧
        (∀ handle full,
          (((RuleLibrary.mk [fresh]).run wildRun).evaluate handle full).1.isFinite = true) ∧
        ∀ utility ∈ ((RuleLibrary.mk [fresh]).run wildRun).utilities,
          ∀ number ∈ utility.cache.numbers, number.isFinite = true := by
  obtain ⟨fresh, made, finite⟩ := finite_of_reaches wildRule {} rfl
  exact ⟨rfl, fresh, made, finite _ (RuleLibrary.reaches_run .start wildRun)⟩

end RuleUtility

end DecisionNetwork
