import DecisionNetwork.Assignment.Basic
import DecisionNetwork.Proofs.SortedMap.Listing
import DecisionNetwork.Proofs.Value.Equality

/-!
Contract: assignments through the values they find.

Owns:
- what each operation does to the value of a variable, and from this the laws of `compose`,
  `bind`, `without` and `restrict`;
- `Assignment.ext_value?`, by which assignments that find the same values are the same;
- `contains_iff` and `consistentWith_iff`, the comparisons binding by binding, with
  `contains_compose` and `contains_eq_restrict_and_without` for parts put together;
- `compare_eq_iff`, the equality of assignments as equality of the values found.

Values are compared by `==` throughout, which does not see the sign of a zero.
-/

namespace DecisionNetwork

namespace SortedMap

universe u v

variable {κ : Type u} {ν : Type v} [Ord κ] [Std.TransOrd κ]

/-- Of two maps bound one after the other the second one wins. -/
theorem get?_insertMany_toList (map other : SortedMap κ ν) (key : κ) :
    (map.insertMany other.toList).get? key = (other.get? key).or (map.get? key) := by
  obtain ⟨entries, ascending⟩ := other
  show (map.insertMany entries).get? key = (lookupEntry key entries).or (map.get? key)
  induction entries generalizing map with
  | nil => rfl
  | cons head tail inductionHypothesis =>
      obtain ⟨headBelow, tailAscending⟩ := List.pairwise_cons.1 ascending
      show ((map.insert head.1 head.2).insertMany tail).get? key = _
      rw [inductionHypothesis (map.insert head.1 head.2) tailAscending, get?_insert]
      simp only [lookupEntry]
      cases order : compare key head.1 with
      | lt =>
          have absent : lookupEntry key tail = none := lookupEntry_eq_none fun entry member =>
            Std.TransCmp.lt_trans order (headBelow entry member)
          simp [absent]
      | eq =>
          have absent : lookupEntry key tail = none := lookupEntry_eq_none fun entry member =>
            Std.TransCmp.lt_of_eq_of_lt order (headBelow entry member)
          simp [absent]
      | gt => simp

end SortedMap

namespace Assignment

@[ext] theorem ext_value? {left right : Assignment}
    (same : ∀ name, left.value? name = right.value? name) : left = right := by
  obtain ⟨left⟩ := left
  obtain ⟨right⟩ := right
  exact congrArg Assignment.mk (SortedMap.ext_get? same)

@[simp] theorem value?_empty (name : String) : empty.value? name = none := rfl

@[simp] theorem value?_bind_self (assignment : Assignment) (name : String) (value : Value) :
    (assignment.bind name value).value? name = some value :=
  SortedMap.get?_insert_self assignment.bindings name value

theorem value?_bind_of_ne (assignment : Assignment) {name other : String} (value : Value)
    (differ : other ≠ name) : (assignment.bind name value).value? other = assignment.value? other :=
  SortedMap.get?_insert_of_ne assignment.bindings value differ

theorem value?_bind (assignment : Assignment) (name other : String) (value : Value) :
    (assignment.bind name value).value? other =
      if other = name then some value else assignment.value? other := by
  split
  next same => rw [same, value?_bind_self]
  next differ => exact value?_bind_of_ne assignment value differ

theorem value?_single (name other : String) (value : Value) :
    (single name value).value? other = if other = name then some value else none :=
  value?_bind empty name other value

@[simp] theorem value?_compose (base overrides : Assignment) (name : String) :
    (base.compose overrides).value? name = (overrides.value? name).or (base.value? name) :=
  SortedMap.get?_insertMany_toList base.bindings overrides.bindings name

theorem value?_restrict (assignment : Assignment) (names : List String) (name : String) :
    (assignment.restrict names).value? name =
      if name ∈ names then assignment.value? name else none := by
  show (assignment.bindings.filterKeys names.contains).get? name = _
  rw [SortedMap.get?_filterKeys]
  simp [value?]

theorem value?_without (assignment : Assignment) (names : List String) (name : String) :
    (assignment.without names).value? name =
      if name ∈ names then none else assignment.value? name := by
  show (assignment.bindings.filterKeys fun name => !names.contains name).get? name = _
  rw [SortedMap.get?_filterKeys]
  by_cases member : name ∈ names <;> simp [value?, member]

theorem mem_names_iff {assignment : Assignment} {name : String} :
    name ∈ assignment.names ↔ (assignment.value? name).isSome :=
  SortedMap.mem_keys_iff

theorem mem_toList_iff {assignment : Assignment} {name : String} {value : Value} :
    (name, value) ∈ assignment.toList ↔ assignment.value? name = some value :=
  SortedMap.get?_eq_some_iff.symm

theorem contains_iff {whole part : Assignment} :
    whole.contains part = true ↔
      ∀ name value, part.value? name = some value →
        ∃ found, whole.value? name = some found ∧ (found == value) = true := by
  simp only [contains, List.all_eq_true, Prod.forall, mem_toList_iff]
  refine forall_congr' fun name => forall_congr' fun value => imp_congr_right fun _ => ?_
  cases whole.value? name <;> simp

theorem consistentWith_iff {left right : Assignment} :
    left.consistentWith right = true ↔
      ∀ name first second, left.value? name = some first → right.value? name = some second →
        (first == second) = true := by
  simp only [consistentWith, List.all_eq_true, Prod.forall, mem_toList_iff]
  constructor
  · intro agree name first second inLeft inRight
    have found := agree name second inRight
    rw [inLeft] at found
    exact found
  · intro agree name second inRight
    cases inLeft : left.value? name with
    | none => rfl
    | some first => exact agree name first second inLeft inRight

/-- Whether a part is contained depends on the values of its variables alone. -/
theorem contains_congr {left right part : Assignment}
    (same : ∀ name ∈ part.names, left.value? name = right.value? name) :
    left.contains part = right.contains part := by
  rw [Bool.eq_iff_iff, contains_iff, contains_iff]
  refine forall_congr' fun name => forall_congr' fun value => imp_congr_right fun bound => ?_
  have member : name ∈ part.names := mem_names_iff.2 (Option.isSome_of_eq_some bound)
  rw [same name member]

theorem contains_restrict {whole part : Assignment} {names : List String}
    (inside : ∀ name ∈ part.names, name ∈ names) :
    (whole.restrict names).contains part = whole.contains part :=
  contains_congr fun name bound => by rw [value?_restrict, if_pos (inside name bound)]

theorem contains_empty (whole : Assignment) : whole.contains empty = true := rfl

/-- A part is contained when what it says of some variables is, and what it says of the others. -/
theorem contains_eq_restrict_and_without (whole part : Assignment) (names : List String) :
    whole.contains part =
      (whole.contains (part.restrict names) && whole.contains (part.without names)) := by
  rw [Bool.eq_iff_iff, Bool.and_eq_true]
  simp only [contains_iff, value?_restrict, value?_without]
  constructor
  · intro found
    constructor
    · intro name value bound
      split at bound
      · exact found name value bound
      · cases bound
    · intro name value bound
      split at bound
      · cases bound
      · exact found name value bound
  · rintro ⟨inside, outside⟩ name value bound
    by_cases listed : name ∈ names
    · exact inside name value (by rw [if_pos listed, bound])
    · exact outside name value (by rw [if_neg listed, bound])

theorem contains_restrict_of_subset {whole row : Assignment} {first second : List String}
    (part : first ⊆ second) (contained : whole.contains (row.restrict second) = true) :
    whole.contains (row.restrict first) = true := by
  rw [contains_iff] at contained ⊢
  simp only [value?_restrict] at contained ⊢
  intro name value bound
  split at bound
  next listed => exact contained name value (by rw [if_pos (part listed), bound])
  next => cases bound

/-- The values of several variables are contained when those of the first and those of the others
are. -/
theorem contains_restrict_append (whole row : Assignment) (first second : List String) :
    whole.contains (row.restrict (first ++ second)) =
      (whole.contains (row.restrict first) && whole.contains (row.restrict second)) := by
  rw [Bool.eq_iff_iff, Bool.and_eq_true]
  simp only [contains_iff, value?_restrict, List.mem_append]
  constructor
  · intro found
    constructor
    · intro name value bound
      split at bound
      next listed => exact found name value (by rw [if_pos (Or.inl listed), bound])
      next => cases bound
    · intro name value bound
      split at bound
      next listed => exact found name value (by rw [if_pos (Or.inr listed), bound])
      next => cases bound
  · rintro ⟨inFirst, inSecond⟩ name value bound
    split at bound
    next listed =>
        rcases listed with first | second
        · exact inFirst name value (by rw [if_pos first, bound])
        · exact inSecond name value (by rw [if_pos second, bound])
    next => cases bound

/-- Parts that agree are both contained when their composition is. -/
theorem contains_compose {base overrides : Assignment}
    (agree : base.consistentWith overrides = true) (whole : Assignment) :
    whole.contains (base.compose overrides) =
      (whole.contains base && whole.contains overrides) := by
  rw [Bool.eq_iff_iff, Bool.and_eq_true]
  simp only [contains_iff, value?_compose]
  constructor
  · intro found
    constructor
    · intro name value bound
      cases overridden : overrides.value? name with
      | none => exact found name value (by rw [overridden, Option.none_or, bound])
      | some other =>
          obtain ⟨own, ownBound, equal⟩ :=
            found name other (by rw [overridden, Option.some_or])
          have same := consistentWith_iff.1 agree name value other bound overridden
          exact ⟨own, ownBound, Value.beq_trans equal (Value.beq_symm same)⟩
    · intro name value bound
      exact found name value (by rw [bound, Option.some_or])
  · rintro ⟨inBase, inOverrides⟩ name value bound
    cases overridden : overrides.value? name with
    | none =>
        rw [overridden, Option.none_or] at bound
        exact inBase name value bound
    | some other =>
        rw [overridden, Option.some_or] at bound
        exact inOverrides name value (overridden.trans bound)

/-- What one assignment contains agrees. -/
theorem consistentWith_of_contains {whole left right : Assignment}
    (inLeft : whole.contains left = true) (inRight : whole.contains right = true) :
    left.consistentWith right = true := by
  rw [consistentWith_iff]
  intro name first second leftBound rightBound
  obtain ⟨own, ownBound, sameAsFirst⟩ := contains_iff.1 inLeft name first leftBound
  obtain ⟨other, otherBound, sameAsSecond⟩ := contains_iff.1 inRight name second rightBound
  rw [ownBound, Option.some.injEq] at otherBound
  subst otherBound
  exact Value.beq_trans (Value.beq_symm sameAsFirst) sameAsSecond

theorem mem_names_restrict {assignment : Assignment} {names : List String} {name : String}
    (member : name ∈ (assignment.restrict names).names) : name ∈ names := by
  rw [mem_names_iff, value?_restrict] at member
  by_contra absent
  rw [if_neg absent] at member
  cases member

theorem not_mem_of_mem_names_without {assignment : Assignment} {names : List String}
    {name : String} (member : name ∈ (assignment.without names).names) : name ∉ names := by
  rw [mem_names_iff, value?_without] at member
  intro listed
  rw [if_pos listed] at member
  cases member

theorem orderBinding_eq_iff {left right : String × Value} :
    orderBinding left right = .eq ↔ left.1 = right.1 ∧ (left.2 == right.2) = true := by
  show compareLex (compareOn Prod.fst) (compareOn Prod.snd) left right = .eq ↔ _
  rw [compareLex_eq_eq, Value.beq_iff_compare_eq]
  exact and_congr_left fun _ => Std.LawfulEqOrd.compare_eq_iff_eq

private theorem compareLex_eq_iff (left right : List (String × Value)) :
    List.compareLex orderBinding left right = .eq ↔
      List.Forall₂ (fun first second => first.1 = second.1 ∧ (first.2 == second.2) = true)
        left right := by
  induction left generalizing right with
  | nil => cases right <;> simp [List.compareLex]
  | cons head tail inductionHypothesis =>
      cases right with
      | nil => simp [List.compareLex]
      | cons other others =>
          rw [List.compareLex_cons_cons, Ordering.then_eq_eq, orderBinding_eq_iff,
            inductionHypothesis, List.forall₂_cons]

/-- Assignments are equal when they find equal values. -/
theorem compare_eq_iff {left right : Assignment} :
    compare left right = .eq ↔
      ∀ name, Option.Rel (fun first second => (first == second) = true)
        (left.value? name) (right.value? name) := by
  show List.compareLex orderBinding left.toList right.toList = .eq ↔ _
  rw [compareLex_eq_iff]
  exact SortedMap.forall₂_entries_iff (fun first second => (first == second) = true)
    left.bindings right.bindings

theorem beq_iff_compare_eq {left right : Assignment} :
    (left == right) = true ↔ compare left right = .eq :=
  Ordering.isEq_iff_eq_eq

theorem beq_symm {left right : Assignment} (same : (left == right) = true) :
    (right == left) = true :=
  beq_iff_compare_eq.2 (Std.OrientedCmp.eq_symm (beq_iff_compare_eq.1 same))

theorem beq_trans {first second third : Assignment} (left : (first == second) = true)
    (right : (second == third) = true) : (first == third) = true :=
  beq_iff_compare_eq.2
    (Std.TransCmp.eq_trans (beq_iff_compare_eq.1 left) (beq_iff_compare_eq.1 right))

instance : PartialEquivBEq Assignment where
  symm := beq_symm
  trans := beq_trans

theorem compose_single (assignment : Assignment) (name : String) (value : Value) :
    assignment.compose (single name value) = assignment.bind name value := by
  ext1 other
  rw [value?_compose, value?_single, value?_bind]
  split
  next => rfl
  next => rw [Option.none_or]

theorem compose_assoc (first second third : Assignment) :
    first.compose (second.compose third) = (first.compose second).compose third := by
  ext1 name
  simp only [value?_compose, Option.or_assoc]

theorem without_singleton_of_unbound {assignment : Assignment} {name : String}
    (unbound : assignment.value? name = none) : assignment.without [name] = assignment := by
  ext1 other
  rw [value?_without]
  split
  next listed => rw [List.mem_singleton.1 listed, unbound]
  next => rfl

theorem bind_compose_without {base part : Assignment} {name : String} {value : Value}
    (bound : part.value? name = some value) :
    (base.compose (part.without [name])).bind name value = base.compose part := by
  ext1 other
  rw [value?_bind, value?_compose, value?_compose, value?_without]
  by_cases same : other = name
  · rw [if_pos same, same, bound, Option.some_or]
  · rw [if_neg same, if_neg (mt List.mem_singleton.1 same)]

theorem without_compose_restrict (assignment : Assignment) (names : List String) :
    (assignment.without names).compose (assignment.restrict names) = assignment := by
  ext1 name
  rw [value?_compose, value?_restrict, value?_without]
  by_cases listed : name ∈ names
  · rw [if_pos listed, if_pos listed, Option.or_none]
  · rw [if_neg listed, if_neg listed, Option.none_or]

end Assignment

end DecisionNetwork
