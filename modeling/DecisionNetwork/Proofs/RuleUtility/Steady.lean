import DecisionNetwork.Network.Node
import DecisionNetwork.Proofs.Assignment.Combinations
import DecisionNetwork.Proofs.RuleUtility.Recall

/-!
Contract: requests that are answered alike whatever was asked before.

Owns:
- `AnswersAlike`, libraries that answer every request over given domains alike;
- `Steady`, requests that keep all answers over the domains and are answered alike themselves;
- `steady_evaluate`: a request over the domains is steady, since equal assignments over the same
  domains are the same and an answer kept for one is the answer for the other;
- `thread`, requests made one after the other, of which `fst_thread` says that each is answered as
  if it were the first.
-/

namespace DecisionNetwork.RuleLibrary

variable {α : Type} [Scalar α] {domains : Domains}

/-- Libraries that answer all requests over the domains alike. -/
def AnswersAlike (domains : Domains) (left right : RuleLibrary α) : Prop :=
  ∀ handle full, domains.Admits full →
    (left.evaluate handle full).1 = (right.evaluate handle full).1

theorem AnswersAlike.refl (library : RuleLibrary α) : AnswersAlike domains library library :=
  fun _ _ _ => rfl

theorem AnswersAlike.trans {first second third : RuleLibrary α}
    (left : AnswersAlike domains first second) (right : AnswersAlike domains second third) :
    AnswersAlike domains first third :=
  fun handle full admitted => (left handle full admitted).trans (right handle full admitted)

/-- A request over the domains does not change the answer to another one. -/
theorem fst_evaluate_evaluate (utility : RuleUtility α) {full other : Assignment}
    (admitted : domains.Admits full) (otherAdmitted : domains.Admits other) :
    ((utility.evaluate full).2.evaluate other).1 = (utility.evaluate other).1 := by
  obtain ⟨rule, cache, matchings⟩ := utility
  cases cache with
  | disabled => rfl
  | enabled tables =>
      rw [RuleUtility.evaluate_eq _ full]
      cases found : (UtilityCache.enabled tables).get? (RuleUtility.inputOf rule full)
          (RuleUtility.actionsOf rule full) with
      | some kept => rfl
      | none =>
          by_cases equal : compare other full = .eq
          · have same : other = full := otherAdmitted.eq_of_compare_eq admitted equal
            have parts := (RuleUtility.beq_iff_parts rule).1 (Assignment.beq_iff_compare_eq.2 equal)
            subst same
            simp only [RuleUtility.evaluate_eq, found, UtilityCache.get?_store, if_pos parts]
          · have apart := mt (RuleUtility.beq_iff_parts rule).2
              (mt Assignment.beq_iff_compare_eq.1 equal)
            simp only [RuleUtility.evaluate_eq, UtilityCache.get?_store, if_neg apart]
            split <;> rfl

theorem fst_evaluate_of_get?_eq {left right : RuleLibrary α} {handle : Nat}
    (same : left.get? handle = right.get? handle) (full : Assignment) :
    (left.evaluate handle full).1 = (right.evaluate handle full).1 := by
  unfold evaluate
  rw [same]
  cases right.get? handle <;> rfl

/-- A request over the domains changes no answer over them. -/
theorem answersAlike_evaluate (library : RuleLibrary α) (handle : Nat) {full : Assignment}
    (admitted : domains.Admits full) :
    AnswersAlike domains library (library.evaluate handle full).2 := by
  intro asked other otherAdmitted
  cases found : library.get? handle with
  | none => simp only [evaluate, found]
  | some utility =>
      let asOf := library.modify handle fun _ => (utility.evaluate full).2
      have after : (library.evaluate handle full).2 = asOf := by
        simp only [evaluate, found, asOf]
      rw [after]
      by_cases same : handle = asked
      · subst same
        have here : asOf.get? handle = some (utility.evaluate full).2 := by
          rw [get?_modify_self, found, Option.map_some]
        simp only [evaluate, found, here]
        exact (fst_evaluate_evaluate utility admitted otherAdmitted).symm
      · exact fst_evaluate_of_get?_eq (get?_modify_of_ne library same _).symm other

/-- Requests that keep the answers over the domains and are answered alike wherever these are. -/
structure Steady {β : Type} (domains : Domains) (ask : RuleLibrary α → β × RuleLibrary α) :
    Prop where
  kept : ∀ library, AnswersAlike domains library (ask library).2
  answer : ∀ left right, AnswersAlike domains left right → (ask left).1 = (ask right).1

/-- A node is asked steadily about assignments over the domains. -/
theorem steady_evaluate (node : UtilityNode α) {full : Assignment}
    (admitted : domains.Admits full) : Steady domains (node.evaluate full) := by
  have inputs := admitted.restrict node.inputs.toList
  constructor
  · intro library
    unfold UtilityNode.evaluate UtilityFunction.evaluate
    cases node.function with
    | table rows => exact AnswersAlike.refl library
    | rule handle => exact answersAlike_evaluate library handle inputs
  · intro left right alike
    unfold UtilityNode.evaluate UtilityFunction.evaluate
    cases node.function with
    | table rows => rfl
    | rule handle => exact alike handle _ inputs

section Thread

variable {β ι σ : Type} (ask : ι → RuleLibrary α → β × RuleLibrary α) (put : σ → ι → β → σ)

/-- Requests made one after the other, their answers being gathered. -/
def thread (items : List ι) (start : σ) (library : RuleLibrary α) : σ × RuleLibrary α :=
  items.foldl (fun state item => (put state.1 item (ask item state.2).1, (ask item state.2).2))
    (start, library)

variable {ask} {items : List ι} (steady : ∀ item ∈ items, Steady domains (ask item))
include steady

/-- Steady requests keep all answers, and each is answered as if it were the first. -/
theorem thread_answers (start : σ) {asked library : RuleLibrary α}
    (alike : AnswersAlike domains library asked) :
    (thread ask put items start asked).1 =
        items.foldl (fun gathered item => put gathered item (ask item library).1) start ∧
      AnswersAlike domains library (thread ask put items start asked).2 := by
  induction items generalizing start asked with
  | nil => exact ⟨rfl, alike⟩
  | cons item rest inductionHypothesis =>
      have first := steady item List.mem_cons_self
      have sameAnswer := first.answer library asked alike
      have later := inductionHypothesis
        (fun other member => steady other (List.mem_cons_of_mem item member))
        (put start item (ask item asked).1) (alike.trans (first.kept asked))
      rw [List.foldl_cons, sameAnswer]
      exact later

theorem fst_thread (start : σ) (library : RuleLibrary α) :
    (thread ask put items start library).1 =
      items.foldl (fun gathered item => put gathered item (ask item library).1) start :=
  (thread_answers put steady start (AnswersAlike.refl library)).1

theorem steady_thread (start : σ) : Steady domains (thread ask put items start) := by
  constructor
  · intro library
    exact (thread_answers put steady start (AnswersAlike.refl library)).2
  · intro left right alike
    rw [(thread_answers put steady start alike).1, fst_thread put steady]

end Thread

end DecisionNetwork.RuleLibrary
