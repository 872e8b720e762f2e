import DecisionNetwork.Proofs.Assignment.Bindings
import DecisionNetwork.Proofs.Value.Canonical

/-!
Contract: the order, the equality and the hash of assignments, and of values and assignments
together.

Owns:
- `canonical`, an assignment with every zero in its values positive, with
  `compare_eq_iff_canonical` and `hashFeed_canonical`;
- `beq_iff_bindings`: equal assignments bind the same variables, one by one, to equal values;
- `lawfullyOrdered_values_and_assignments`, by which both are keys of sorted and of hashed
  collections.
-/

namespace DecisionNetwork.Assignment

/-- The assignment with every zero in its values positive. -/
def canonical (assignment : Assignment) : Assignment :=
  ⟨assignment.bindings.mapValues Value.canonical⟩

theorem value?_canonical (assignment : Assignment) (name : String) :
    assignment.canonical.value? name = (assignment.value? name).map Value.canonical :=
  SortedMap.get?_mapValues assignment.bindings Value.canonical name

/-- The order finds no difference exactly between assignments with the same canonical form. -/
theorem compare_eq_iff_canonical (left right : Assignment) :
    compare left right = .eq ↔ left.canonical = right.canonical := by
  have lookups : left.canonical = right.canonical ↔
      ∀ name, (left.value? name).map Value.canonical = (right.value? name).map Value.canonical := by
    simp only [← value?_canonical]
    exact ⟨fun same name => by rw [same], ext_value?⟩
  rw [compare_eq_iff, lookups]
  refine forall_congr' fun name => ?_
  cases left.value? name <;> cases right.value? name <;>
    simp [Value.lawfullyOrdered.equal_iff_canonical]

theorem hashFeed_canonical (assignment : Assignment) :
    assignment.canonical.hashFeed = assignment.hashFeed := by
  have sameSize : assignment.canonical.size = assignment.size := List.length_map _
  have entries : assignment.canonical.toList =
      assignment.toList.map fun binding => (binding.1, binding.2.canonical) := rfl
  rw [hashFeed, hashFeed, sameSize, entries, List.flatMap_map]
  simp only [Value.hashFeed_canonical]

/-- Equal assignments bind the same variables to equal values, one after the other. -/
theorem beq_iff_bindings (left right : Assignment) :
    (left == right) = true ↔
      List.Forall₂ (fun first second => first.1 = second.1 ∧ (first.2 == second.2) = true)
        left.toList right.toList := by
  rw [beq_iff_compare_eq, compare_eq_iff]
  exact (SortedMap.forall₂_entries_iff (fun first second => (first == second) = true)
    left.bindings right.bindings).symm

/-- Values, at any depth, and assignments are told apart lawfully: their orders are total and find
no difference exactly between equal ones, which are those that become identical once every zero in
them is positive, and equal ones feed the same sequence to the hash. Vectors compare as their first
difference does, or else by their lengths, and assignments are equal if their bindings are, one
after the other. -/
theorem lawfullyOrdered_values_and_assignments :
    LawfullyOrdered Value.canonical Value.hashFeed ∧
      LawfullyOrdered canonical hashFeed ∧
      (∀ lefts rights : List Binary64, compare (Value.vector lefts) (.vector rights) =
        ((List.zipWith compare lefts rights).find? (· ≠ .eq)).getD
          (compare lefts.length rights.length)) ∧
      ∀ left right : Assignment, (left == right) = true ↔
        List.Forall₂ (fun first second => first.1 = second.1 ∧ (first.2 == second.2) = true)
          left.toList right.toList := by
  refine ⟨Value.lawfullyOrdered, ?_, fun lefts rights => ?_, beq_iff_bindings⟩
  · exact .of_canonical (fun _ _ => beq_iff_compare_eq) compare_eq_iff_canonical hashFeed_canonical
  · have sameKind : compare (Value.vector lefts) (.vector rights) = compare lefts rights := by
      show Value.order _ _ = _
      rw [Value.order]
    rw [sameKind, compare_eq_firstDifference]

end DecisionNetwork.Assignment
