import DecisionNetwork.Proofs.Assignment.Bindings

/-!
Contract: the laws between merging, comparing and splitting assignments.

Owns:
- `contains_iff_compose_beq` and `consistentWith_iff_compose_beq`, the comparisons as equations
  about merged assignments;
- `beq_iff_contains`, by which containment is an order up to equality;
- `restrict_compose_without` and `restrict_compose`, how parts are put together and taken apart;
- `MergeLaws`, what is asked of merging, comparing and splitting, and `mergeLaws`, by which it holds
  of all assignments.

Laws that only move bindings about hold of the very same values. The others hold up to `==`, since
values that compare equal may differ in the sign of a zero.
-/

namespace DecisionNetwork.Assignment

section Comparing

variable {first second third : Assignment}

/-- Assignments are equal when the values that they find are. -/
theorem beq_iff_value? :
    (first == second) = true ↔
      ∀ name, Option.Rel (fun left right => (left == right) = true)
        (first.value? name) (second.value? name) := by
  rw [beq_iff_compare_eq, compare_eq_iff]

/-- A part is contained exactly when merging it in changes nothing. -/
theorem contains_iff_compose_beq :
    first.contains second = true ↔ (first.compose second == first) = true := by
  rw [contains_iff, beq_iff_value?]
  refine forall_congr' fun name => ?_
  rw [value?_compose]
  cases second.value? name with
  | none => cases first.value? name <;> simp
  | some value =>
      cases first.value? name with
      | none => simp
      | some own => simp [BEq.comm]

/-- Assignments are equal exactly when each contains the other. -/
theorem beq_iff_contains :
    (first == second) = true ↔ first.contains second = true ∧ second.contains first = true := by
  rw [beq_iff_value?, contains_iff, contains_iff, ← forall_and]
  refine forall_congr' fun name => ?_
  cases first.value? name with
  | none => cases second.value? name <;> simp
  | some own =>
      cases second.value? name with
      | none => simp
      | some value => simpa using fun same => Value.beq_symm same

theorem contains_self (assignment : Assignment) : assignment.contains assignment = true :=
  contains_iff.2 fun _ value bound => ⟨value, bound, Value.beq_self value⟩

theorem contains_trans (left : first.contains second = true)
    (right : second.contains third = true) : first.contains third = true := by
  rw [contains_iff]
  intro name value bound
  obtain ⟨middle, inSecond, sameAsMiddle⟩ := contains_iff.1 right name value bound
  obtain ⟨found, inFirst, sameAsFound⟩ := contains_iff.1 left name middle inSecond
  exact ⟨found, inFirst, Value.beq_trans sameAsFound sameAsMiddle⟩

/-- Assignments agree exactly when it makes no difference which of them wins. -/
theorem consistentWith_iff_compose_beq :
    first.consistentWith second = true ↔
      (first.compose second == second.compose first) = true := by
  rw [consistentWith_iff, beq_iff_value?]
  refine forall_congr' fun name => ?_
  rw [value?_compose, value?_compose]
  cases first.value? name with
  | none => cases second.value? name <;> simp
  | some own =>
      cases second.value? name with
      | none => simp
      | some value => simp [BEq.comm]

theorem consistentWith_comm : first.consistentWith second = second.consistentWith first := by
  rw [Bool.eq_iff_iff, consistentWith_iff_compose_beq, consistentWith_iff_compose_beq]
  exact ⟨beq_symm, beq_symm⟩

end Comparing

section Parts

theorem compose_empty (assignment : Assignment) : assignment.compose empty = assignment := by
  ext1 name
  rw [value?_compose, value?_empty, Option.none_or]

theorem empty_compose (assignment : Assignment) : empty.compose assignment = assignment := by
  ext1 name
  rw [value?_compose, value?_empty, Option.or_none]

/-- The two parts of an assignment may be put together either way round. -/
theorem restrict_compose_without (assignment : Assignment) (names : List String) :
    (assignment.restrict names).compose (assignment.without names) = assignment := by
  ext1 name
  rw [value?_compose, value?_restrict, value?_without]
  by_cases listed : name ∈ names
  · rw [if_pos listed, if_pos listed, Option.none_or]
  · rw [if_neg listed, if_neg listed, Option.or_none]

/-- No variable is in both parts of an assignment. -/
theorem disjoint_names_parts (assignment : Assignment) (names : List String) :
    (assignment.restrict names).names.Disjoint (assignment.without names).names :=
  fun _ inPart inOthers => not_mem_of_mem_names_without inOthers (mem_names_restrict inPart)

theorem restrict_compose (base overrides : Assignment) (names : List String) :
    (base.compose overrides).restrict names =
      (base.restrict names).compose (overrides.restrict names) := by
  ext1 name
  simp only [value?_restrict, value?_compose]
  split
  next => rfl
  next => rfl

end Parts

/-- The laws by which assignments are merged, compared and split at a set of variables. -/
structure MergeLaws (first second third : Assignment) (names : List String) : Prop where
  assoc : (first.compose second).compose third = first.compose (second.compose third)
  rightUnit : first.compose empty = first
  leftUnit : empty.compose first = first
  secondWins : ∀ name,
    (first.compose second).value? name = (second.value? name).or (first.value? name)
  containsIff : first.contains second = true ↔ (first.compose second == first) = true
  containsRefl : first.contains first = true
  containsTrans : first.contains second = true → second.contains third = true →
    first.contains third = true
  containsAntisymm : first.contains second = true → second.contains first = true →
    (first == second) = true
  consistentIff : first.consistentWith second = true ↔
    (first.compose second == second.compose first) = true
  consistentSymm : first.consistentWith second = second.consistentWith first
  partsDisjoint : (first.restrict names).names.Disjoint (first.without names).names
  partsMerge : (first.restrict names).compose (first.without names) = first
  partsMergeReversed : (first.without names).compose (first.restrict names) = first
  restrictDistributes : (first.compose second).restrict names =
    (first.restrict names).compose (second.restrict names)

/-- Merging is associative with the empty assignment as unit, and the second assignment wins. An
assignment contains what can be merged into it without a change, which is an order up to equality,
and agrees with what it can be merged with either way round. A set of variables splits it into
disjoint parts that merge to it again, and splits merged assignments one by one. -/
theorem mergeLaws (first second third : Assignment) (names : List String) :
    MergeLaws first second third names where
  assoc := (compose_assoc first second third).symm
  rightUnit := compose_empty first
  leftUnit := empty_compose first
  secondWins := value?_compose first second
  containsIff := contains_iff_compose_beq
  containsRefl := contains_self first
  containsTrans := contains_trans
  containsAntisymm inFirst inSecond := beq_iff_contains.2 ⟨inFirst, inSecond⟩
  consistentIff := consistentWith_iff_compose_beq
  consistentSymm := consistentWith_comm
  partsDisjoint := disjoint_names_parts first names
  partsMerge := restrict_compose_without first names
  partsMergeReversed := without_compose_restrict first names
  restrictDistributes := restrict_compose first second names

end DecisionNetwork.Assignment
