import DecisionNetwork.Proofs.Assignment.Combinations

/-!
Contract: the combinations of domains as an enumeration, whatever the lists of values are.

Owns:
- `Chooses`, an assignment of the variables of the domains, each to a value equal to a listed one;
- `rowOf`, the row of the values that are picked, and `Chooses.exists_combination`, by which every
  choice equals a combination;
- `places`, the first places of its values, by which the combinations are in order;
- `combinations_enumerate`: every choice is listed once up to equality, in order, and counted.

A choice need not be a combination, since equal values may differ in the sign of a zero.
-/

namespace DecisionNetwork.Domains

section Choices

variable {domains : Domains} {row : Assignment}

/-- An assignment of the variables of the domains alone, each to a value equal to a listed one. -/
structure Chooses (domains : Domains) (row : Assignment) : Prop where
  mapped : ∀ name domain, domains.get? name = some domain →
    ∃ value, row.value? name = some value ∧ ∃ listed ∈ domain, (value == listed) = true
  unmapped : ∀ name, domains.get? name = none → row.value? name = none

theorem chooses_of_mem (member : row ∈ domains.combinations) : domains.Chooses row := by
  obtain ⟨picks, unbound⟩ := mem_combinations_iff.1 member
  refine ⟨fun name domain found => ?_, unbound⟩
  obtain ⟨value, picked, bound⟩ := picks name domain found
  exact ⟨value, bound, value, Value.mem_of_mem_distinct picked, Value.beq_self value⟩

/-- The row that gives the variables of the domains the values picked for them. -/
def rowOf (domains : Domains) (pick : String → Value) : Assignment :=
  ⟨SortedMap.empty.insertMany (domains.keys.map fun name => (name, pick name))⟩

theorem value?_rowOf (domains : Domains) (pick : String → Value) (name : String) :
    (domains.rowOf pick).value? name = (domains.get? name).map fun _ => pick name := by
  have found : (domains.rowOf pick).value? name =
      if name ∈ domains.keys then some (pick name) else none :=
    SortedMap.get?_insertMany_map .empty domains.keys pick name
  rw [found]
  cases atName : domains.get? name with
  | none => rw [if_neg (SortedMap.get?_eq_none_iff.1 atName), Option.map_none]
  | some domain => rw [if_pos (SortedMap.mem_keys_iff.2 (by rw [atName]; rfl)), Option.map_some]

theorem rowOf_mem {pick : String → Value}
    (picks : ∀ name domain, domains.get? name = some domain →
      pick name ∈ Value.distinct domain) :
    domains.rowOf pick ∈ domains.combinations := by
  refine mem_combinations_iff.2 ⟨fun name domain found => ?_, fun name absent => ?_⟩
  · refine ⟨pick name, picks name domain found, ?_⟩
    rw [value?_rowOf, found, Option.map_some]
  · rw [value?_rowOf, absent, Option.map_none]

/-- The value that a choice has for a variable equals the first of those listed that do. -/
theorem Chooses.exists_first (choice : domains.Chooses row) (name : String) :
    ∃ first, ∀ domain, domains.get? name = some domain →
      first ∈ Value.distinct domain ∧
        ∃ value, row.value? name = some value ∧ (first == value) = true := by
  cases found : domains.get? name with
  | none => exact ⟨.absent, by simp⟩
  | some domain =>
      obtain ⟨value, bound, listed, isListed, equal⟩ := choice.mapped name domain found
      obtain ⟨first, isFirst, sameAsFirst⟩ := Value.exists_mem_distinct isListed
      refine ⟨first, fun other isDomain => ?_⟩
      cases isDomain
      exact ⟨isFirst, value, bound, Value.beq_symm (Value.beq_trans equal sameAsFirst)⟩

/-- A choice equals a combination, in which every value is the first of the equal ones. -/
theorem Chooses.exists_combination (choice : domains.Chooses row) :
    ∃ combination ∈ domains.combinations, (combination == row) = true := by
  choose pick picks using choice.exists_first
  refine ⟨domains.rowOf pick, rowOf_mem fun name domain found => (picks name domain found).1, ?_⟩
  rw [Assignment.beq_iff_compare_eq, Assignment.compare_eq_iff]
  intro name
  rw [value?_rowOf]
  cases found : domains.get? name with
  | none =>
      rw [choice.unmapped name found]
      exact Option.Rel.none
  | some domain =>
      obtain ⟨-, value, bound, equal⟩ := picks name domain found
      rw [bound, Option.map_some, Option.rel_some_some]
      exact equal

theorem countP_combinations_eq_one (choice : domains.Chooses row) :
    domains.combinations.countP (· == row) = 1 := by
  obtain ⟨combination, listed, equal⟩ := choice.exists_combination
  have alone : (domains.combinations.filter (· == row)).Perm [combination] := by
    refine (List.perm_ext_iff_of_nodup ((combinations_nodup domains).filter _)
      (List.nodup_singleton _)).2 fun other => ?_
    rw [List.mem_filter, List.mem_singleton]
    constructor
    · rintro ⟨otherListed, otherEqual⟩
      apply eq_of_compare_eq_of_mem otherListed listed
      exact Assignment.beq_iff_compare_eq.1
        (Assignment.beq_trans otherEqual (Assignment.beq_symm equal))
    · rintro rfl
      exact ⟨listed, equal⟩
  rw [List.countP_eq_length_filter, alone.length_eq, List.length_singleton]

end Choices

section Order

/-- The first places of the values of a row in the lists of the variables. -/
def placesOver (entries : List (String × List Value)) (row : Assignment) : List Nat :=
  entries.map fun entry => Value.firstPlace entry.2 (row.valueOrAbsent entry.1)

/-- The first places of the values of a row in the domains, variables in order. -/
def places (domains : Domains) (row : Assignment) : List Nat := placesOver domains.toList row

/-- Sequences of one length keep their order, whatever is appended. -/
private theorem append_lt_append {lefts rights : List Nat} (below : lefts < rights)
    (sameLength : lefts.length = rights.length) (left right : List Nat) :
    lefts ++ left < rights ++ right := by
  induction below with
  | nil => cases sameLength
  | rel below => exact List.Lex.rel below
  | cons _ inductionHypothesis =>
      apply List.Lex.cons
      exact inductionHypothesis (by simpa using sameLength)

theorem placesOver_bind {entries : List (String × List Value)} {name : String}
    (new : name ∉ entries.map Prod.fst) (domain : List Value) (base : Assignment) (value : Value) :
    placesOver (entries ++ [(name, domain)]) (base.bind name value) =
      placesOver entries base ++ [Value.firstPlace domain value] := by
  have earlier : placesOver entries (base.bind name value) = placesOver entries base := by
    apply List.map_congr_left
    intro entry member
    have otherName : entry.1 ≠ name := fun same => new (List.mem_map.2 ⟨entry, member, same⟩)
    unfold Assignment.valueOrAbsent
    rw [Assignment.value?_bind_of_ne _ _ otherName]
  unfold placesOver at earlier ⊢
  rw [List.map_append, earlier]
  simp [Assignment.valueOrAbsent]

/-- The rows are in the order of their places, those of the first variables above all. -/
theorem rowsOver_pairwise {entries : List (String × List Value)}
    (distinctNames : (entries.map Prod.fst).Nodup) :
    (rowsOver entries).Pairwise fun left right =>
      placesOver entries left < placesOver entries right := by
  induction entries using List.reverseRecOn with
  | nil => exact List.pairwise_singleton _ _
  | append_singleton entries last inductionHypothesis =>
      obtain ⟨name, domain⟩ := last
      rw [List.map_append, List.nodup_append] at distinctNames
      obtain ⟨earlierDistinct, -, apart⟩ := distinctNames
      have new : name ∉ entries.map Prod.fst := fun member =>
        apart name member name (List.mem_singleton_self name) rfl
      rw [rowsOver_append_singleton, extend, List.pairwise_flatMap]
      constructor
      · intro base _
        rw [List.pairwise_map]
        refine (Value.distinct_pairwise_firstPlace domain).imp fun below => ?_
        rw [placesOver_bind new, placesOver_bind new]
        exact List.append_left_lt (List.Lex.rel below)
      · refine (inductionHypothesis earlierDistinct).imp ?_
        intro left right below leftRow inLeft rightRow inRight
        obtain ⟨leftValue, -, rfl⟩ := List.mem_map.1 inLeft
        obtain ⟨rightValue, -, rfl⟩ := List.mem_map.1 inRight
        rw [placesOver_bind new, placesOver_bind new]
        exact append_lt_append below (by simp [placesOver]) _ _

end Order

/-- Rows are an enumeration of the choices: every row is a choice, every choice is listed once up
to equality, and the places of the values ascend. -/
structure Enumerates (domains : Domains) (rows : List Assignment) : Prop where
  sound : ∀ row ∈ rows, domains.Chooses row
  once : ∀ row, domains.Chooses row → rows.countP (· == row) = 1
  ordered : rows.Pairwise fun left right => domains.places left < domains.places right

/-- The combinations enumerate the choices, and the count is their number held at the limit. -/
theorem combinations_enumerate (domains : Domains) :
    domains.Enumerates domains.combinations ∧
      domains.count = min domains.combinations.length (2 ^ 64 - 1) := by
  refine ⟨⟨?_, ?_, ?_⟩, count_eq_min domains⟩
  · intro row
    exact chooses_of_mem
  · intro row
    exact countP_combinations_eq_one
  · exact rowsOver_pairwise (SortedMap.keys_nodup domains)

end DecisionNetwork.Domains
