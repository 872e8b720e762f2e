import DecisionNetwork.Proofs.RuleUtility.Counting
import DecisionNetwork.Proofs.RuleUtility.Steady
import Mathlib.Data.Finset.Card

/-!
Contract: what a cached utility of a library was asked for since it was made.

Owns:
- `Served`, a library with a cached utility that matched its rule once for each distinct assignment
  of a list, with a step for one request and for one node;
- `Served.thread`, requests made one after the other;
- `Recalls.get?_of_mem`, the utilities that are held for combinations asked for;
- `length_eraseDups_congr` and `length_eraseDups_le`, the distinct assignments of a list of
  combinations.
-/

namespace DecisionNetwork

namespace RuleUtility

variable {α : Type} [Scalar α]

theorem matchings_le_evaluate (utility : RuleUtility α) (full : Assignment) :
    utility.matchings ≤ (utility.evaluate full).2.matchings := by
  rw [matchings_evaluate]
  exact Nat.le_add_right _ _

/-- What a utility was asked for since it was made, with all its matchings. -/
def sinceMade (utility : RuleUtility α) (requests : List Assignment) : Account where
  requests := requests
  matchings := utility.matchings

theorem ask_sinceMade (utility : RuleUtility α) (requests : List Assignment) (full : Assignment) :
    (utility.sinceMade requests).ask utility full =
      (utility.evaluate full).2.sinceMade (requests ++ [full]) := by
  have more := matchings_le_evaluate utility full
  unfold Account.ask sinceMade
  rw [Account.mk.injEq]
  exact ⟨rfl, by dsimp only; omega⟩

theorem counted_of_make {rule : AnchoredRule α} {settings : Settings} {fresh : RuleUtility α}
    (made : make rule settings = .ok fresh) (cached : fresh.isCached = true) :
    Counted rule fresh (fresh.sinceMade []) := by
  have accounted := accounted_of_make made
  have noMatching : fresh.matchings = 0 := by
    unfold make at made
    split at made
    next =>
        cases made
        rfl
    next => cases made
  rw [cached] at accounted
  unfold sinceMade
  rw [noMatching]
  exact accounted

/-- Among combinations of the same domains the cache holds the utility of every request. -/
theorem Recalls.get?_of_mem {rule : AnchoredRule α} {utility : RuleUtility α} {domains : Domains}
    {requests : List Assignment} {request : Assignment} (recalls : Recalls rule utility requests)
    (combinations : ∀ request ∈ requests, request ∈ domains.combinations)
    (member : request ∈ requests) :
    utility.cache.get? (inputOf rule request) (actionsOf rule request) =
      some (plainUtility rule request) := by
  rw [recalls.found]
  cases first : requests.find? fun earlier => earlier == request with
  | none =>
      have differ := List.find?_eq_none.1 first request member
      exact absurd (Assignment.beq_iff_compare_eq.2 Std.ReflCmp.compare_self) differ
  | some earlier =>
      have equal := List.find?_some first
      have same : earlier = request := Domains.eq_of_compare_eq_of_mem
        (combinations earlier (List.mem_of_find?_eq_some first)) (combinations request member)
        (Assignment.beq_iff_compare_eq.1 equal)
      rw [same]
      rfl

end RuleUtility

namespace RuleLibrary

open RuleUtility

variable {α : Type} [Scalar α] {rule : AnchoredRule α} {handle : Nat}
  {requests : List Assignment} {library : RuleLibrary α}

/-- A library with a cached utility that was asked for the assignments of a list since it was made,
and matched its rule once for each of the distinct ones. -/
def Served (rule : AnchoredRule α) (handle : Nat) (requests : List Assignment)
    (library : RuleLibrary α) : Prop :=
  ∃ utility, library.get? handle = some utility ∧
    Counted rule utility (utility.sinceMade requests)

theorem Served.evaluate (served : Served rule handle requests library) (full : Assignment) :
    Served rule handle (requests ++ [full]) (library.evaluate handle full).2 := by
  obtain ⟨utility, found, counted⟩ := served
  have next := counted_evaluate counted full
  rw [ask_sinceMade] at next
  refine ⟨(utility.evaluate full).2, ?_, next⟩
  simp only [RuleLibrary.evaluate, found, get?_modify_self, Option.map_some]

/-- A node asks its rule utility for the values of its inputs. -/
theorem Served.node {node : UtilityNode α} (ruled : node.function = .rule handle)
    (served : Served rule handle requests library) (full : Assignment) :
    Served rule handle (requests ++ [full.restrict node.inputs.toList])
      (node.evaluate full library).2 := by
  unfold UtilityNode.evaluate
  rw [ruled]
  exact served.evaluate _

/-- Requests made one after the other add up. -/
theorem Served.thread {β ι σ : Type} {ask : ι → RuleLibrary α → β × RuleLibrary α}
    (put : σ → ι → β → σ) {asked : ι → List Assignment}
    (step : ∀ item requests library, Served rule handle requests library →
      Served rule handle (requests ++ asked item) (ask item library).2)
    (items : List ι) (start : σ) (served : Served rule handle requests library) :
    Served rule handle (requests ++ items.flatMap asked)
      (RuleLibrary.thread ask put items start library).2 := by
  induction items generalizing start requests library with
  | nil =>
      rw [List.flatMap_nil, List.append_nil]
      exact served
  | cons item rest inductionHypothesis =>
      rw [List.flatMap_cons, ← List.append_assoc]
      exact inductionHypothesis _ (step item requests library served)

end RuleLibrary

section Distinct

variable {domains : Domains} {requests others : List Assignment}

/-- Combinations of the same domains are distinct ones as soon as they differ. -/
private theorem length_eraseDups_eq_card [DecidableEq Assignment]
    (combinations : ∀ request ∈ requests, request ∈ domains.combinations) :
    requests.eraseDups.length = requests.toFinset.card := by
  induction requests using List.reverseRecOn with
  | nil => rfl
  | append_singleton earlier last inductionHypothesis =>
      have earlierCombinations : ∀ request ∈ earlier, request ∈ domains.combinations :=
        fun request member => combinations request (List.mem_append_left _ member)
      have lastCombination : last ∈ domains.combinations :=
        combinations last (List.mem_append_right _ (List.mem_singleton_self last))
      have repeated : earlier.any (· == last) = true ↔ last ∈ earlier := by
        rw [List.any_eq_true]
        constructor
        · rintro ⟨request, member, equal⟩
          have same := Domains.eq_of_compare_eq_of_mem (earlierCombinations request member)
            lastCombination (Assignment.beq_iff_compare_eq.1 equal)
          exact same ▸ member
        · intro member
          exact ⟨last, member, Assignment.beq_iff_compare_eq.2 Std.ReflCmp.compare_self⟩
      rw [eraseDups_append_singleton, List.toFinset_append, List.toFinset_cons, List.toFinset_nil,
        Finset.union_insert, Finset.union_empty]
      by_cases old : last ∈ earlier
      · rw [if_pos (repeated.2 old), inductionHypothesis earlierCombinations,
          Finset.insert_eq_of_mem (List.mem_toFinset.2 old)]
      · rw [if_neg (mt repeated.1 old), List.length_append, List.length_singleton,
          inductionHypothesis earlierCombinations,
          Finset.card_insert_of_notMem (mt List.mem_toFinset.1 old)]

/-- Lists of the same combinations have as many distinct ones. -/
theorem length_eraseDups_congr
    (combinations : ∀ request ∈ requests, request ∈ domains.combinations)
    (same : ∀ request, request ∈ requests ↔ request ∈ others) :
    requests.eraseDups.length = others.eraseDups.length := by
  classical
  have otherCombinations : ∀ request ∈ others, request ∈ domains.combinations :=
    fun request member => combinations request ((same request).2 member)
  rw [length_eraseDups_eq_card combinations, length_eraseDups_eq_card otherCombinations]
  refine congrArg Finset.card (Finset.ext fun request => ?_)
  rw [List.mem_toFinset, List.mem_toFinset, same]

/-- There are no more distinct combinations in a list than there are combinations. -/
theorem length_eraseDups_le
    (combinations : ∀ request ∈ requests, request ∈ domains.combinations) :
    requests.eraseDups.length ≤ domains.combinations.length := by
  classical
  rw [length_eraseDups_eq_card combinations]
  refine Nat.le_trans (Finset.card_le_card fun request member => ?_)
    (List.toFinset_card_le domains.combinations)
  exact List.mem_toFinset.2 (combinations request (List.mem_toFinset.1 member))

end Distinct

end DecisionNetwork
