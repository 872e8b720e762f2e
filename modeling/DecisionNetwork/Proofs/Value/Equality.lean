import DecisionNetwork.Proofs.SortedMap.Listing
import DecisionNetwork.Value.Sequence
import Mathlib.Data.List.Forall2
import Mathlib.Data.List.Induction
import Mathlib.Data.List.Nodup

/-!
Contract: the equality of values, which does not see the sign of a zero.

Owns:
- `beq_self`, `beq_symm` and `beq_trans`, by which it is an equivalence;
- `beq_list_map_of_mem`, lists that differ in an item, and `beq_list_iff`, lists that are equal;
- `kind_eq_of_beq`, by which equal values are of one kind;
- `mem_of_mem_distinct` and `exists_mem_distinct`, the distinct values of a list;
- `firstPlace` and `distinct_pairwise_firstPlace`, the order in which these are listed;
- `distinct_eq_self`, for a list without equal values.
-/

namespace DecisionNetwork.Value

theorem beq_self (value : Value) : (value == value) = true :=
  beq_iff_compare_eq.2 Std.ReflCmp.compare_self

theorem beq_symm {left right : Value} (same : (left == right) = true) : (right == left) = true :=
  beq_iff_compare_eq.2 (Std.OrientedCmp.eq_symm (beq_iff_compare_eq.1 same))

theorem beq_trans {first second third : Value} (left : (first == second) = true)
    (right : (second == third) = true) : (first == third) = true :=
  beq_iff_compare_eq.2
    (Std.TransCmp.eq_trans (beq_iff_compare_eq.1 left) (beq_iff_compare_eq.1 right))

/-- Lists differ if items at the same place do. -/
theorem beq_list_map_of_mem {items : List Value} {change : Value → Value} {item : Value}
    (member : item ∈ items) (changed : (change item == item) = false) :
    (Value.list (items.map change) == .list items) = false := by
  show (orderItems (items.map change) items).isEq = false
  rw [Ordering.isEq_eq_false]
  have differs : order (change item) item ≠ .eq := Ordering.isEq_eq_false.1 changed
  induction items with
  | nil => cases member
  | cons first rest inductionHypothesis =>
      rw [List.map_cons, orderItems, Ordering.then_eq_eq, not_and_or]
      rcases List.mem_cons.1 member with rfl | later
      · exact Or.inl differs
      · exact Or.inr (inductionHypothesis later)

/-- Lists are equal if and only if they have as many items and equal ones at each place. -/
theorem beq_list_iff {lefts rights : List Value} :
    (Value.list lefts == .list rights) = true ↔
      List.Forall₂ (fun left right => (left == right) = true) lefts rights := by
  show (orderItems lefts rights).isEq = true ↔ _
  rw [Ordering.isEq_iff_eq_eq]
  induction lefts generalizing rights with
  | nil =>
      cases rights with
      | nil => exact iff_of_true rfl .nil
      | cons right rights => exact iff_of_false (by simp [orderItems]) (by simp)
  | cons left lefts inductionHypothesis =>
      cases rights with
      | nil => exact iff_of_false (by simp [orderItems]) (by simp)
      | cons right rights =>
          rw [orderItems, Ordering.then_eq_eq, List.forall₂_cons, beq_iff_compare_eq,
            inductionHypothesis]
          rfl

/-- Equal values are of one kind. -/
theorem kind_eq_of_beq {left right : Value} (same : (left == right) = true) :
    left.kind = right.kind := by
  by_contra differ
  have isEq : order left right = .eq := beq_iff_compare_eq.1 same
  rw [order_of_kind_ne differ, Nat.compare_eq_eq] at isEq
  exact differ isEq

section Distinct

private theorem contains_iff {values : List Value} {value : Value} :
    values.contains value = true ↔ ∃ other ∈ values, (value == other) = true := by
  rw [List.contains_eq_any_beq, List.any_eq_true]

private theorem distinct_append_singleton (values : List Value) (value : Value) :
    distinct (values ++ [value]) =
      if (distinct values).contains value then distinct values else distinct values ++ [value] := by
  rw [distinct, List.foldl_append]
  rfl

theorem mem_of_mem_distinct {values : List Value} {value : Value}
    (member : value ∈ distinct values) : value ∈ values := by
  induction values using List.reverseRecOn with
  | nil => exact member
  | append_singleton values last inductionHypothesis =>
      rw [distinct_append_singleton] at member
      split at member
      · exact List.mem_append_left _ (inductionHypothesis member)
      · rcases List.mem_append.1 member with earlier | isLast
        · exact List.mem_append_left _ (inductionHypothesis earlier)
        · exact List.mem_append_right _ isLast

/-- Every value of a list equals one of the distinct ones. -/
theorem exists_mem_distinct {values : List Value} {value : Value} (member : value ∈ values) :
    ∃ found ∈ distinct values, (value == found) = true := by
  induction values using List.reverseRecOn with
  | nil => cases member
  | append_singleton values last inductionHypothesis =>
      rw [distinct_append_singleton]
      rcases List.mem_append.1 member with earlier | isLast
      · obtain ⟨found, listed, same⟩ := inductionHypothesis earlier
        split
        · exact ⟨found, listed, same⟩
        · exact ⟨found, List.mem_append_left _ listed, same⟩
      · cases List.mem_singleton.1 isLast
        split
        next old => exact contains_iff.1 old
        next => exact ⟨value, List.mem_append_right _ (List.mem_singleton_self _), beq_self value⟩

theorem distinct_nodup (values : List Value) : (distinct values).Nodup :=
  (distinct_pairwise values).imp fun differ same => by
    subst same
    exact differ Std.ReflCmp.compare_self

/-- Of the distinct values those that are equal are the same. -/
theorem eq_of_mem_distinct {values : List Value} {left right : Value}
    (leftMember : left ∈ distinct values) (rightMember : right ∈ distinct values)
    (equal : (left == right) = true) : left = right :=
  eq_of_mem_of_compare_eq (distinct_pairwise values) leftMember rightMember
    (beq_iff_compare_eq.1 equal)

/-- A list in ascending order holds no equal values. -/
theorem mem_distinct_iff_of_ascending {values : List Value} {value : Value}
    (ascending : values.Pairwise fun left right => compare left right = .lt) :
    value ∈ distinct values ↔ value ∈ values := by
  constructor
  · exact mem_of_mem_distinct
  · intro member
    obtain ⟨found, listed, same⟩ := exists_mem_distinct member
    have apart : values.Pairwise fun left right => compare left right ≠ .eq :=
      ascending.imp fun below => by simp [below]
    have isFound := eq_of_mem_of_compare_eq apart member (mem_of_mem_distinct listed)
      (beq_iff_compare_eq.1 same)
    exact isFound ▸ listed

/-- A list without equal values is its own list of distinct ones. -/
theorem distinct_eq_self {values : List Value}
    (apart : values.Pairwise fun left right => compare left right ≠ .eq) :
    distinct values = values := by
  induction values using List.reverseRecOn with
  | nil => rfl
  | append_singleton values last inductionHypothesis =>
      obtain ⟨earlierApart, _, lastApart⟩ := List.pairwise_append.1 apart
      rw [distinct_append_singleton, inductionHypothesis earlierApart, if_neg]
      intro repeated
      obtain ⟨earlier, member, same⟩ := contains_iff.1 repeated
      exact lastApart earlier member last (List.mem_singleton_self _)
        (Std.OrientedCmp.eq_symm (beq_iff_compare_eq.1 same))

/-- The first place in a list of a value that equals the given one. -/
def firstPlace (values : List Value) (value : Value) : Nat := values.findIdx (· == value)

private theorem firstPlace_append_of_mem {values : List Value} {value : Value}
    (member : value ∈ values) (later : List Value) :
    firstPlace (values ++ later) value = firstPlace values value := by
  unfold firstPlace
  rw [List.findIdx_append, if_pos]
  exact List.findIdx_lt_length_of_exists ⟨value, member, beq_self value⟩

private theorem firstPlace_lt_of_mem {values : List Value} {value : Value}
    (member : value ∈ values) : firstPlace values value < values.length :=
  List.findIdx_lt_length_of_exists ⟨value, member, beq_self value⟩

/-- The distinct values are listed by the first places at which they occur. -/
theorem distinct_pairwise_firstPlace (values : List Value) :
    (distinct values).Pairwise fun left right =>
      firstPlace values left < firstPlace values right := by
  induction values using List.reverseRecOn with
  | nil => exact List.Pairwise.nil
  | append_singleton values last inductionHypothesis =>
      have earlier : (distinct values).Pairwise fun left right =>
          firstPlace (values ++ [last]) left < firstPlace (values ++ [last]) right := by
        refine inductionHypothesis.imp_of_mem fun leftMember rightMember below => ?_
        rw [firstPlace_append_of_mem (mem_of_mem_distinct leftMember),
          firstPlace_append_of_mem (mem_of_mem_distinct rightMember)]
        exact below
      rw [distinct_append_singleton]
      split
      next => exact earlier
      next new =>
          refine List.pairwise_append.2 ⟨earlier, List.pairwise_singleton _ _, ?_⟩
          intro left leftMember right isLast
          cases List.mem_singleton.1 isLast
          have notBefore : ¬ firstPlace values last < values.length := by
            intro before
            obtain ⟨other, member, same⟩ := List.findIdx_lt_length.1 before
            obtain ⟨found, listed, equal⟩ := exists_mem_distinct member
            exact new (contains_iff.2 ⟨found, listed, beq_trans (beq_symm same) equal⟩)
          have atEnd : values.length ≤ firstPlace (values ++ [last]) last := by
            unfold firstPlace at notBefore ⊢
            rw [List.findIdx_append, if_neg notBefore]
            omega
          have below := firstPlace_lt_of_mem (mem_of_mem_distinct leftMember)
          rw [firstPlace_append_of_mem (mem_of_mem_distinct leftMember)]
          omega

end Distinct

end DecisionNetwork.Value
