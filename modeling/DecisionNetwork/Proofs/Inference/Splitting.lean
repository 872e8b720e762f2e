import DecisionNetwork.Proofs.Inference.Mass
import Mathlib.Algebra.BigOperators.Group.Finset.Piecewise

/-!
Contract: sums over the combinations of domains, split by some of the variables.

Owns:
- `Domains.without`, the domains of all variables but some;
- `sum_split`: a sum over all combinations as a double sum over those of some variables and those of
  the others, and `sum_filter_contains`, where the former are given;
- `combinations_among_singleton` and `sum_bind`, for a single variable;
- `length_split` and `combinations_ne_nil`, the number of combinations.
-/

namespace DecisionNetwork

namespace Domains

variable {domains : Domains} {names : List String} {row rest part : Assignment}

/-- The domains of all variables but the given ones. -/
def without (domains : Domains) (names : List String) : Domains :=
  domains.filterKeys fun name => !names.contains name

theorem get?_without (domains : Domains) (names : List String) (name : String) :
    (domains.without names).get? name = if name ∈ names then none else domains.get? name := by
  rw [without, SortedMap.get?_filterKeys]
  by_cases listed : name ∈ names <;> simp [listed]

theorem among_without (domains : Domains) (names others : List String) :
    (domains.among names).without others = (domains.without others).among names := by
  refine SortedMap.ext_get? fun name => ?_
  rw [get?_without, get?_among, get?_among, get?_without]
  by_cases listed : name ∈ names <;> simp [listed]

theorem without_without {names others : List String} (domains : Domains) (part : others ⊆ names) :
    (domains.without others).without names = domains.without names := by
  refine SortedMap.ext_get? fun name => ?_
  rw [get?_without, get?_without, get?_without]
  split
  next => rfl
  next unlisted => rw [if_neg (mt (@part name) unlisted)]

theorem value?_eq_none_of_mem (member : rest ∈ (domains.without names).combinations)
    {name : String} (listed : name ∈ names) : rest.value? name = none := by
  apply (mem_combinations_iff.1 member).2 name
  rw [get?_without, if_pos listed]

theorem without_mem_combinations (member : row ∈ domains.combinations) :
    row.without names ∈ (domains.without names).combinations := by
  obtain ⟨picks, unbound⟩ := mem_combinations_iff.1 member
  refine mem_combinations_iff.2 ⟨fun name domain found => ?_, fun name absent => ?_⟩
  · rw [get?_without] at found
    rw [Assignment.value?_without]
    split at found
    next => cases found
    next unlisted =>
        rw [if_neg unlisted]
        exact picks name domain found
  · rw [get?_without] at absent
    rw [Assignment.value?_without]
    split
    next => rfl
    next unlisted =>
        rw [if_neg unlisted] at absent
        exact unbound name absent

section Parts

variable (restMember : rest ∈ (domains.without names).combinations)
  (partMember : part ∈ (domains.among names).combinations)
include restMember partMember

theorem value?_compose_parts (name : String) :
    (rest.compose part).value? name =
      if name ∈ names then part.value? name else rest.value? name := by
  rw [Assignment.value?_compose]
  split
  next listed => rw [value?_eq_none_of_mem restMember listed, Option.or_none]
  next unlisted => rw [value?_eq_none_of_not_mem partMember unlisted, Option.none_or]

theorem compose_parts_mem : rest.compose part ∈ domains.combinations := by
  obtain ⟨restPicks, restUnbound⟩ := mem_combinations_iff.1 restMember
  obtain ⟨partPicks, partUnbound⟩ := mem_combinations_iff.1 partMember
  refine mem_combinations_iff.2 ⟨fun name domain found => ?_, fun name absent => ?_⟩
  · rw [value?_compose_parts restMember partMember]
    split
    next listed => exact partPicks name domain (by rw [get?_among, if_pos listed, found])
    next unlisted => exact restPicks name domain (by rw [get?_without, if_neg unlisted, found])
  · rw [value?_compose_parts restMember partMember]
    split
    next listed => exact partUnbound name (by rw [get?_among, if_pos listed, absent])
    next unlisted => exact restUnbound name (by rw [get?_without, if_neg unlisted, absent])

theorem restrict_compose_parts : (rest.compose part).restrict names = part := by
  ext1 name
  rw [Assignment.value?_restrict, value?_compose_parts restMember partMember]
  split
  next => rfl
  next unlisted => rw [value?_eq_none_of_not_mem partMember unlisted]

theorem without_compose_parts : (rest.compose part).without names = rest := by
  ext1 name
  rw [Assignment.value?_without, value?_compose_parts restMember partMember]
  split
  next listed => rw [value?_eq_none_of_mem restMember listed]
  next => rfl

end Parts

/-- Values of the same variables are overridden altogether. -/
theorem compose_compose_of_mem {other : Assignment}
    (partMember : part ∈ (domains.among names).combinations)
    (otherMember : other ∈ (domains.among names).combinations) (base : Assignment) :
    (base.compose part).compose other = base.compose other := by
  ext1 name
  rw [Assignment.value?_compose, Assignment.value?_compose, Assignment.value?_compose]
  cases found : (domains.among names).get? name with
  | none => rw [(mem_combinations_iff.1 partMember).2 name found, Option.none_or]
  | some domain =>
      obtain ⟨value, _, bound⟩ := (mem_combinations_iff.1 otherMember).1 name domain found
      rw [bound, Option.some_or, Option.some_or]

section Sums

variable {M : Type} [AddCommMonoid M]

/-- Every combination is one of some variables together with one of the others. -/
theorem sum_split (domains : Domains) (names : List String) (weigh : Assignment → M) :
    ∑ row ∈ domains.combinationSet, weigh row =
      ∑ rest ∈ (domains.without names).combinationSet,
        ∑ part ∈ (domains.among names).combinationSet, weigh (rest.compose part) := by
  rw [← Finset.sum_product']
  apply Finset.sum_nbij' (fun row => (row.without names, row.restrict names))
    (fun parts => parts.1.compose parts.2)
  · intro row member
    exact Finset.mem_product.2 ⟨without_mem_combinations member, restrict_mem_combinations member⟩
  · intro parts member
    obtain ⟨restMember, partMember⟩ := Finset.mem_product.1 member
    exact compose_parts_mem restMember partMember
  · intro row _
    exact Assignment.without_compose_restrict row names
  · intro parts member
    obtain ⟨restMember, partMember⟩ := Finset.mem_product.1 member
    exact Prod.ext (without_compose_parts restMember partMember)
      (restrict_compose_parts restMember partMember)
  · intro row _
    rw [Assignment.without_compose_restrict]

/-- The rows that contain a combination of some variables differ in the others alone. -/
theorem sum_filter_contains (partMember : part ∈ (domains.among names).combinations)
    (weigh : Assignment → M) :
    ∑ row ∈ domains.combinationSet with row.contains part = true, weigh row =
      ∑ rest ∈ (domains.without names).combinationSet, weigh (rest.compose part) := by
  classical
  rw [Finset.sum_filter, sum_split domains names]
  refine Finset.sum_congr rfl fun rest restMember => ?_
  have contained : ∀ other ∈ (domains.among names).combinationSet,
      (if (rest.compose other).contains part = true then weigh (rest.compose other) else 0) =
        if other = part then weigh (rest.compose other) else 0 := by
    intro other otherMember
    have sameParts := contains_iff_restrict_eq (compose_parts_mem restMember otherMember) partMember
    rw [restrict_compose_parts restMember otherMember] at sameParts
    simp only [sameParts]
  have listed : part ∈ (domains.among names).combinationSet := partMember
  rw [Finset.sum_congr rfl contained, Finset.sum_ite_eq', if_pos listed]

theorem sum_combinationSet (domains : Domains) (weigh : Assignment → M) :
    ∑ row ∈ domains.combinationSet, weigh row = (domains.combinations.map weigh).sum := by
  show (Multiset.map weigh (domains.combinations : Multiset _)).sum = _
  rw [Multiset.map_coe, Multiset.sum_coe]

/-- The combinations of one variable are its values. -/
theorem combinations_among_singleton {name : String} {domain : List Value}
    (found : domains.get? name = some domain) :
    (domains.among [name]).combinations = (Value.distinct domain).map (Assignment.single name) := by
  have only : domains.among [name] = SortedMap.empty.insert name domain := by
    refine SortedMap.ext_get? fun other => ?_
    rw [get?_among, SortedMap.get?_insert]
    by_cases same : other = name
    · rw [if_pos (List.mem_singleton.2 same), same, found, if_pos Std.ReflCmp.compare_self]
    · rw [if_neg (mt List.mem_singleton.1 same), if_neg fun equal =>
        same (Std.LawfulEqOrd.eq_of_compare equal)]
      rfl
  rw [only]
  show extend [Assignment.empty] name domain = _
  rw [extend, List.flatMap_singleton]
  rfl

/-- A sum over all combinations, one variable being bound last. -/
theorem sum_bind {name : String} {domain : List Value}
    (found : domains.get? name = some domain) (weigh : Assignment → M) :
    ∑ row ∈ domains.combinationSet, weigh row =
      ∑ rest ∈ (domains.without [name]).combinationSet,
        ((Value.distinct domain).map fun value => weigh (rest.bind name value)).sum := by
  rw [sum_split domains [name]]
  refine Finset.sum_congr rfl fun rest _ => ?_
  rw [sum_combinationSet, combinations_among_singleton found, List.map_map]
  simp only [Function.comp_def, Assignment.compose_single]

end Sums

theorem card_combinationSet (domains : Domains) :
    domains.combinationSet.card = domains.combinations.length := rfl

/-- There are as many combinations as pairs of one of some variables and one of the others. -/
theorem length_split (domains : Domains) (names : List String) :
    domains.combinations.length =
      (domains.without names).combinations.length * (domains.among names).combinations.length := by
  have split := sum_split domains names fun _ => 1
  simpa only [Finset.sum_const, card_combinationSet, nsmul_eq_mul, Nat.cast_id, mul_one] using split

/-- Domains with values have combinations. -/
theorem combinations_ne_nil
    (inhabited : ∀ name domain, domains.get? name = some domain → domain ≠ []) :
    domains.combinations ≠ [] := by
  suffices some : ∀ entries : List (String × List Value),
      (∀ entry ∈ entries, entry.2 ≠ []) → rowsOver entries ≠ [] by
    apply some domains.toList
    intro entry member
    exact inhabited entry.1 entry.2 (SortedMap.get?_of_mem member)
  intro entries
  induction entries using List.reverseRecOn with
  | nil => exact fun _ => List.cons_ne_nil _ _
  | append_singleton entries last inductionHypothesis =>
      intro inhabited
      have earlier := inductionHypothesis fun entry member =>
        inhabited entry (List.mem_append_left _ member)
      have valued := inhabited last (List.mem_append_right _ (List.mem_singleton_self _))
      obtain ⟨base, baseMember⟩ := List.exists_mem_of_ne_nil _ earlier
      obtain ⟨value, valueMember⟩ := List.exists_mem_of_ne_nil _ valued
      obtain ⟨found, listed, _⟩ := Value.exists_mem_distinct valueMember
      rw [rowsOver_append_singleton]
      apply List.ne_nil_of_mem
      exact mem_extend_iff.2 ⟨base, baseMember, found, listed, rfl⟩

end Domains

end DecisionNetwork
