import DecisionNetwork.Proofs.Assignment.Bindings

/-!
Contract: assignments whose variables are given new names.

Owns:
- `Assignment.value?_relabelled_eq_some_iff`: of several variables that come to share a name the
  last one in order hands over its value;
- `value?_renamed_new`, `value?_renamed_old` and `value?_renamed_of_ne`, what a renaming does to
  every variable;
- `value?_renamed_of_bound`, with the condition under which the value goes along with the name.

A name that is taken gives way only to a variable whose old name comes after it.
-/

namespace DecisionNetwork.Assignment

/-- The bindings of an assignment, each under a new name for its variable. -/
def relabelled (assignment : Assignment) (relabel : String → String) : Assignment :=
  ofList (assignment.toList.map fun binding => (relabel binding.1, binding.2))

theorem value?_relabelled (assignment : Assignment) (relabel : String → String) (name : String) :
    (assignment.relabelled relabel).value? name =
      (assignment.toList.reverse.find? fun binding => relabel binding.1 == name).map Prod.snd := by
  show (SortedMap.ofList _).get? name = _
  rw [SortedMap.get?_ofList, ← List.map_reverse, List.find?_map, Option.map_map]
  have sameTest : ((fun binding : String × Value => compare name binding.1 == .eq) ∘
      fun binding => (relabel binding.1, binding.2)) =
      fun binding : String × Value => relabel binding.1 == name := by
    funext binding
    rw [Function.comp_apply, Bool.eq_iff_iff, beq_iff_eq, beq_iff_eq,
      Std.LawfulEqOrd.compare_eq_iff_eq, eq_comm]
  rw [sameTest]
  rfl

/-- Of the variables that come to share a name the last one in order hands over its value. -/
theorem value?_relabelled_eq_some_iff {assignment : Assignment} {relabel : String → String}
    {name : String} {value : Value} :
    (assignment.relabelled relabel).value? name = some value ↔
      ∃ source, relabel source = name ∧ assignment.value? source = some value ∧
        ∀ other, relabel other = name → (assignment.value? other).isSome →
          other = source ∨ compare other source = .lt := by
  have asymmetric {left right : String × Value} (above : compare right.1 left.1 = .lt) :
      compare left.1 right.1 ≠ .lt := fun below => by
    rw [Std.OrientedCmp.gt_of_lt above] at below
    cases below
  have descending : assignment.toList.reverse.Pairwise
      fun left right => compare right.1 left.1 = .lt :=
    List.pairwise_reverse.2 assignment.bindings.ascending
  rw [value?_relabelled, Option.map_eq_some_iff]
  simp only [find?_eq_some_iff_of_pairwise asymmetric descending, List.mem_reverse, Prod.exists,
    Prod.forall, mem_toList_iff, beq_iff_eq]
  constructor
  · rintro ⟨source, _, ⟨bound, named, last⟩, rfl⟩
    refine ⟨source, named, bound, fun other otherNamed isBound => ?_⟩
    obtain ⟨own, otherBound⟩ := Option.isSome_iff_exists.1 isBound
    exact (last other own otherBound otherNamed).imp_left (congrArg Prod.fst)
  · rintro ⟨source, named, bound, last⟩
    refine ⟨source, value, ⟨bound, named, fun other own otherBound otherNamed => ?_⟩, rfl⟩
    rcases last other otherNamed (Option.isSome_of_eq_some otherBound) with rfl | below
    · exact Or.inl (by rw [Option.some.inj (bound.symm.trans otherBound)])
    · exact Or.inr below

section Renamed

variable {assignment : Assignment} {old new : String}

theorem value?_renamed_eq_some_iff {name : String} {value : Value} :
    (assignment.renamed old new).value? name = some value ↔
      ∃ source, (if source = old then new else source) = name ∧
        assignment.value? source = some value ∧
        ∀ other, (if other = old then new else other) = name → (assignment.value? other).isSome →
          other = source ∨ compare other source = .lt :=
  @value?_relabelled_eq_some_iff assignment (fun name => if name = old then new else name) name
    value

/-- Variables other than the two names stay as they are. -/
theorem value?_renamed_of_ne {name : String} (notOld : name ≠ old) (notNew : name ≠ new) :
    (assignment.renamed old new).value? name = assignment.value? name := by
  have named {source : String} : (if source = old then new else source) = name ↔ source = name := by
    split
    next isOld =>
        constructor
        · intro same
          exact absurd same.symm notNew
        · intro same
          exact absurd (same ▸ isOld) notOld
    next => exact Iff.rfl
  apply Option.ext
  intro value
  simp [value?_renamed_eq_some_iff, named]

/-- The old name is not bound any more. -/
theorem value?_renamed_old (differ : old ≠ new) :
    (assignment.renamed old new).value? old = none := by
  rw [Option.eq_none_iff_forall_ne_some]
  intro value found
  obtain ⟨source, named, -, -⟩ := value?_renamed_eq_some_iff.1 found
  split at named
  · exact differ named.symm
  · contradiction

/-- If both names are bound the new name has the value of the later one. -/
theorem value?_renamed_new (differ : old ≠ new) :
    (assignment.renamed old new).value? new =
      if compare old new = .lt then (assignment.value? new).or (assignment.value? old)
      else (assignment.value? old).or (assignment.value? new) := by
  have named {source : String} :
      (if source = old then new else source) = new ↔ source = old ∨ source = new := by
    split
    next isOld => simp [isOld]
    next notOld => simp [notOld]
  have swap : compare new old = .lt ↔ compare old new ≠ .lt := by
    rw [← Std.OrientedCmp.gt_iff_lt]
    have apart : compare old new ≠ .eq := fun same => differ (Std.LawfulEqOrd.eq_of_compare same)
    cases order : compare old new with
    | lt => simp
    | eq => exact absurd order apart
    | gt => simp
  apply Option.ext
  intro value
  simp only [value?_renamed_eq_some_iff, named, or_and_right, exists_or, exists_eq_left,
    forall_eq_or_imp, forall_eq, swap, true_or, implies_true, true_and, and_true, differ,
    differ.symm, false_or]
  split
  next below => cases assignment.value? new <;> simp [below]
  next above => cases assignment.value? old <;> simp [above]

/-- A renaming of a bound variable frees its old name and leaves the others as they are. The new
name gets the value, unless it was bound to another one and comes after the old name: then it keeps
what it had. -/
theorem value?_renamed_of_bound {value : Value} (differ : old ≠ new)
    (bound : assignment.value? old = some value) :
    let result := assignment.renamed old new
    result.value? old = none ∧
      (∀ name, name ≠ old → name ≠ new → result.value? name = assignment.value? name) ∧
      result.value? new =
        some (if compare old new = .lt then (assignment.value? new).getD value else value) ∧
      (result.value? new = some value ↔
        compare old new = .lt → ∀ own, assignment.value? new = some own → own = value) := by
  intro result
  have newValue : result.value? new =
      some (if compare old new = .lt then (assignment.value? new).getD value else value) := by
    rw [value?_renamed_new differ, bound, Option.some_or]
    split
    · cases assignment.value? new <;> rfl
    · rfl
  refine ⟨value?_renamed_old differ, fun name => value?_renamed_of_ne, newValue, ?_⟩
  rw [newValue, Option.some.injEq]
  split
  next below => cases assignment.value? new <;> simp [below]
  next above => simp [above]

/-- Two answers under names in the order of the alphabet. -/
def answers : Assignment := .ofList [("a", .boolean true), ("b", .boolean false)]

/-- Under a name that comes first the value is kept, whatever the name was bound to. -/
theorem value?_renamed_of_bound_answers :
    "b" ≠ "a" ∧ answers.value? "b" = some (.boolean false) ∧
      (answers.renamed "b" "a").value? "a" = some (.boolean false) ∧
      (answers.renamed "b" "a").value? "b" = none := by
  obtain ⟨freed, -, newValue, -⟩ :=
    @value?_renamed_of_bound answers "b" "a" (.boolean false) (by decide) rfl
  exact ⟨by decide, rfl, newValue.trans (by rfl), freed⟩

/-- Under a name that is taken and comes later the value is lost. -/
theorem answers_renamed_to_later_name :
    "a" ≠ "b" ∧ answers.value? "a" = some (.boolean true) ∧
      (answers.renamed "a" "b").value? "b" = some (.boolean false) ∧
      (answers.renamed "a" "b").value? "b" ≠ answers.value? "a" := by
  have kept : (answers.renamed "a" "b").value? "b" = some (.boolean false) := rfl
  refine ⟨by decide, rfl, kept, ?_⟩
  rw [kept]
  intro same
  cases same

end Renamed

end DecisionNetwork.Assignment
