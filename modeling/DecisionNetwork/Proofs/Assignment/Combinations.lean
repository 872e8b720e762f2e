import DecisionNetwork.Assignment.Combinations
import DecisionNetwork.Proofs.Assignment.Bindings
import Mathlib.Data.List.Induction
import Mathlib.Data.List.Nodup

/-!
Contract: the combinations of domains as the assignments that pick a value for every variable.

Owns:
- `mem_combinations_iff`, `combinations_nodup` and `combinations_pairwise`: each choice of distinct
  values is listed once, and listed rows are the same as soon as they are equal;
- `Admits`, assignments of which equal ones are the same;
- `among`, the domains of some of the variables, whose combinations are the parts of the others;
- `count_eq_min`, the count as the number of rows held at the limit, and `length_combinations`, that
  number as the product of the sizes.
-/

namespace DecisionNetwork

namespace Domains

/-- The rows over the variables of a list of domains. -/
def rowsOver (entries : List (String × List Value)) : List Assignment :=
  entries.foldl (fun assignments entry => extend assignments entry.1 entry.2) [Assignment.empty]

theorem mem_extend_iff {assignments : List Assignment} {name : String} {domain : List Value}
    {row : Assignment} :
    row ∈ extend assignments name domain ↔
      ∃ base ∈ assignments, ∃ value ∈ Value.distinct domain, base.bind name value = row := by
  simp [extend]

theorem rowsOver_append_singleton (entries : List (String × List Value))
    (entry : String × List Value) :
    rowsOver (entries ++ [entry]) = extend (rowsOver entries) entry.1 entry.2 := by
  simp [rowsOver, List.foldl_append]

/-- A row that binds each variable to one of its values, and no other variable. -/
def IsPick (entries : List (String × List Value)) (row : Assignment) : Prop :=
  (∀ entry ∈ entries, ∃ value ∈ Value.distinct entry.2, row.value? entry.1 = some value) ∧
    ∀ name, name ∉ entries.map Prod.fst → row.value? name = none

section Step

variable {entries : List (String × List Value)} {name : String} {domain : List Value}
  (new : name ∉ entries.map Prod.fst)
include new

private theorem ne_of_mem_entries {entry : String × List Value} (member : entry ∈ entries) :
    entry.1 ≠ name := fun same => new (List.mem_map.2 ⟨entry, member, same⟩)

theorem IsPick.bind {base : Assignment} (pick : IsPick entries base) {value : Value}
    (valueMember : value ∈ Value.distinct domain) :
    IsPick (entries ++ [(name, domain)]) (base.bind name value) := by
  constructor
  · intro entry member
    rcases List.mem_append.1 member with earlier | isLast
    · rw [Assignment.value?_bind_of_ne _ _ (ne_of_mem_entries new earlier)]
      exact pick.1 entry earlier
    · cases List.mem_singleton.1 isLast
      exact ⟨value, valueMember, Assignment.value?_bind_self _ _ _⟩
  · intro other absent
    rw [List.map_append, List.mem_append, not_or] at absent
    have otherThanName : other ≠ name := fun same =>
      absent.2 (same ▸ List.mem_singleton_self name)
    rw [Assignment.value?_bind_of_ne _ _ otherThanName]
    exact pick.2 other absent.1

theorem IsPick.exists_bind {row : Assignment} (pick : IsPick (entries ++ [(name, domain)]) row) :
    ∃ base, IsPick entries base ∧ ∃ value ∈ Value.distinct domain, base.bind name value = row := by
  obtain ⟨value, valueMember, found⟩ :=
    pick.1 (name, domain) (List.mem_append_right _ (List.mem_singleton_self _))
  have without (other : String) : (row.without [name]).value? other =
      if other = name then none else row.value? other := by
    simp [Assignment.value?_without]
  refine ⟨row.without [name], ⟨?_, ?_⟩, value, valueMember, ?_⟩
  · intro entry member
    rw [without, if_neg (ne_of_mem_entries new member)]
    exact pick.1 entry (List.mem_append_left _ member)
  · intro other absent
    rw [without]
    split
    · rfl
    next otherThanName =>
      refine pick.2 other ?_
      simp [absent, otherThanName]
  · ext1 other
    rw [Assignment.value?_bind, without]
    split
    next same => rw [same, found]
    next => rfl

end Step

theorem mem_rowsOver_iff {entries : List (String × List Value)}
    (distinctNames : (entries.map Prod.fst).Nodup) {row : Assignment} :
    row ∈ rowsOver entries ↔ IsPick entries row := by
  induction entries using List.reverseRecOn generalizing row with
  | nil =>
      simp only [IsPick, rowsOver, List.foldl_nil, List.mem_singleton, List.not_mem_nil,
        List.map_nil, not_false_eq_true, forall_true_left, false_implies, implies_true, true_and]
      exact ⟨fun same name => same ▸ rfl, fun unbound => Assignment.ext_value? unbound⟩
  | append_singleton entries last inductionHypothesis =>
      obtain ⟨name, domain⟩ := last
      rw [List.map_append, List.nodup_append] at distinctNames
      obtain ⟨earlierDistinct, _, apart⟩ := distinctNames
      have new : name ∉ entries.map Prod.fst := fun member =>
        apart name member name (List.mem_singleton_self name) rfl
      rw [rowsOver_append_singleton, mem_extend_iff]
      constructor
      · rintro ⟨base, baseMember, value, valueMember, rfl⟩
        exact ((inductionHypothesis earlierDistinct).1 baseMember).bind new valueMember
      · intro pick
        obtain ⟨base, basePick, value, valueMember, isRow⟩ := pick.exists_bind new
        exact ⟨base, (inductionHypothesis earlierDistinct).2 basePick, value, valueMember, isRow⟩

theorem rowsOver_nodup {entries : List (String × List Value)}
    (distinctNames : (entries.map Prod.fst).Nodup) : (rowsOver entries).Nodup := by
  induction entries using List.reverseRecOn with
  | nil => exact List.nodup_singleton _
  | append_singleton entries last inductionHypothesis =>
      obtain ⟨name, domain⟩ := last
      rw [List.map_append, List.nodup_append] at distinctNames
      obtain ⟨earlierDistinct, _, apart⟩ := distinctNames
      have unbound {base : Assignment} (member : base ∈ rowsOver entries) :
          base.value? name = none :=
        ((mem_rowsOver_iff earlierDistinct).1 member).2 name fun inEarlier =>
          apart name inEarlier name (List.mem_singleton_self name) rfl
      rw [rowsOver_append_singleton, extend, List.nodup_flatMap]
      constructor
      · intro base _
        refine (Value.distinct_nodup domain).map fun left right same => ?_
        have atName := congrArg (fun row => Assignment.value? row name) same
        simpa using atName
      · refine (inductionHypothesis earlierDistinct).imp_of_mem fun {left right} leftMember
          rightMember differ row inLeft inRight => ?_
        obtain ⟨leftValue, _, rfl⟩ := List.mem_map.1 inLeft
        obtain ⟨rightValue, _, same⟩ := List.mem_map.1 inRight
        refine differ (Assignment.ext_value? fun other => ?_)
        by_cases isName : other = name
        · rw [isName, unbound leftMember, unbound rightMember]
        · have atOther := congrArg (fun row => Assignment.value? row other) same
          simp only [Assignment.value?_bind_of_ne _ _ isName] at atOther
          exact atOther.symm

/-- The combinations bind the variables of the domains, each to one of its values. -/
theorem mem_combinations_iff {domains : Domains} {row : Assignment} :
    row ∈ domains.combinations ↔
      (∀ name domain, domains.get? name = some domain →
        ∃ value ∈ Value.distinct domain, row.value? name = some value) ∧
      ∀ name, domains.get? name = none → row.value? name = none := by
  refine (mem_rowsOver_iff (SortedMap.keys_nodup domains)).trans (and_congr ?_ ?_)
  · constructor
    · intro picks name domain found
      exact picks (name, domain) (SortedMap.get?_eq_some_iff.1 found)
    · rintro picks ⟨name, domain⟩ listed
      exact picks name domain (SortedMap.get?_eq_some_iff.2 listed)
  · refine forall_congr' fun name => ?_
    rw [SortedMap.get?_eq_none_iff]
    exact Iff.rfl

theorem combinations_nodup (domains : Domains) : domains.combinations.Nodup :=
  rowsOver_nodup (SortedMap.keys_nodup domains)

section Admits

variable {domains : Domains} {row left right : Assignment} {name : String}

/-- Whether every bound variable has one of its distinct values. -/
def Admits (domains : Domains) (row : Assignment) : Prop :=
  ∀ name value, row.value? name = some value →
    ∃ domain, domains.get? name = some domain ∧ value ∈ Value.distinct domain

theorem admits_of_mem (member : row ∈ domains.combinations) : domains.Admits row := by
  intro name value bound
  obtain ⟨picks, unbound⟩ := mem_combinations_iff.1 member
  cases found : domains.get? name with
  | none =>
      rw [unbound name found] at bound
      cases bound
  | some domain =>
      obtain ⟨picked, listed, same⟩ := picks name domain found
      rw [bound, Option.some.injEq] at same
      exact ⟨domain, rfl, same ▸ listed⟩

theorem Admits.restrict (admitted : domains.Admits row) (names : List String) :
    domains.Admits (row.restrict names) := by
  intro name value bound
  rw [Assignment.value?_restrict] at bound
  split at bound
  · exact admitted name value bound
  · cases bound

theorem Admits.compose (leftAdmitted : domains.Admits left) (rightAdmitted : domains.Admits right) :
    domains.Admits (left.compose right) := by
  intro name value bound
  rw [Assignment.value?_compose, Option.or_eq_some_iff] at bound
  rcases bound with inRight | ⟨_, inLeft⟩
  · exact rightAdmitted name value inRight
  · exact leftAdmitted name value inLeft

/-- Domains admit what some of them admit. -/
theorem Admits.mono {others : Domains} (admitted : others.Admits row)
    (part : ∀ name domain, others.get? name = some domain → domains.get? name = some domain) :
    domains.Admits row := by
  intro name value bound
  obtain ⟨domain, found, listed⟩ := admitted name value bound
  exact ⟨domain, part name domain found, listed⟩

/-- Equal values of a variable that are admitted are the same. -/
theorem Admits.value_eq_of_beq {leftValue rightValue : Value} (leftAdmitted : domains.Admits left)
    (rightAdmitted : domains.Admits right) (leftBound : left.value? name = some leftValue)
    (rightBound : right.value? name = some rightValue)
    (equal : (leftValue == rightValue) = true) : leftValue = rightValue := by
  obtain ⟨domain, found, leftListed⟩ := leftAdmitted name leftValue leftBound
  obtain ⟨other, otherFound, rightListed⟩ := rightAdmitted name rightValue rightBound
  rw [found, Option.some.injEq] at otherFound
  subst otherFound
  exact Value.eq_of_mem_distinct leftListed rightListed equal

/-- Equal assignments that are admitted are the same. -/
theorem Admits.eq_of_compare_eq (leftAdmitted : domains.Admits left)
    (rightAdmitted : domains.Admits right) (equal : compare left right = .eq) : left = right := by
  ext1 name
  have atName := Assignment.compare_eq_iff.1 equal name
  cases leftBound : left.value? name with
  | none =>
      rw [leftBound] at atName
      cases rightBound : right.value? name with
      | none => rfl
      | some rightValue =>
          rw [rightBound] at atName
          cases atName
  | some leftValue =>
      rw [leftBound] at atName
      cases rightBound : right.value? name with
      | none =>
          rw [rightBound] at atName
          cases atName
      | some rightValue =>
          rw [rightBound, Option.rel_some_some] at atName
          rw [leftAdmitted.value_eq_of_beq rightAdmitted leftBound rightBound atName]

/-- Combinations of the same domains are the same as soon as they are equal. -/
theorem eq_of_compare_eq_of_mem (leftMember : left ∈ domains.combinations)
    (rightMember : right ∈ domains.combinations) (equal : compare left right = .eq) :
    left = right :=
  (admits_of_mem leftMember).eq_of_compare_eq (admits_of_mem rightMember) equal

end Admits

theorem combinations_pairwise (domains : Domains) :
    domains.combinations.Pairwise fun left right => compare left right ≠ .eq :=
  (combinations_nodup domains).imp_of_mem fun leftMember rightMember differ equal =>
    differ (eq_of_compare_eq_of_mem leftMember rightMember equal)

section Tables

variable {ν : Type} (domains : Domains) (entry : Assignment → ν)

/-- A map over the combinations has one entry for each of them. -/
theorem toList_ofList_combinations_perm :
    (SortedMap.ofList (domains.combinations.map fun row => (row, entry row))).toList.Perm
      (domains.combinations.map fun row => (row, entry row)) :=
  SortedMap.toList_ofList_perm (List.pairwise_map.2 (combinations_pairwise domains))

theorem keys_ofList_combinations_perm :
    (SortedMap.ofList (domains.combinations.map fun row => (row, entry row))).keys.Perm
      domains.combinations := by
  have listed := (toList_ofList_combinations_perm domains entry).map Prod.fst
  rw [List.map_map] at listed
  exact listed.trans (List.Perm.of_eq (List.map_id _))

theorem values_ofList_combinations_perm :
    (SortedMap.ofList (domains.combinations.map fun row => (row, entry row))).values.Perm
      (domains.combinations.map entry) := by
  have listed := (toList_ofList_combinations_perm domains entry).map Prod.snd
  rwa [List.map_map] at listed

theorem get?_ofList_combinations {row : Assignment} (member : row ∈ domains.combinations) :
    (SortedMap.ofList (domains.combinations.map fun row => (row, entry row))).get? row =
      some (entry row) := by
  refine SortedMap.get?_of_mem ?_
  rw [(toList_ofList_combinations_perm domains entry).mem_iff]
  exact List.mem_map.2 ⟨row, member, rfl⟩

end Tables

section Parts

variable {domains : Domains} {names : List String} {row part : Assignment}

/-- The domains of some of the variables. -/
def among (domains : Domains) (names : List String) : Domains := domains.filterKeys names.contains

theorem get?_among (domains : Domains) (names : List String) (name : String) :
    (domains.among names).get? name = if name ∈ names then domains.get? name else none := by
  rw [among, SortedMap.get?_filterKeys]
  simp

theorem restrict_mem_combinations (member : row ∈ domains.combinations) :
    row.restrict names ∈ (domains.among names).combinations := by
  obtain ⟨picks, unbound⟩ := mem_combinations_iff.1 member
  refine mem_combinations_iff.2 ⟨?_, ?_⟩
  · intro name domain found
    rw [get?_among] at found
    split at found
    next listed =>
        obtain ⟨value, valueMember, bound⟩ := picks name domain found
        exact ⟨value, valueMember, by rw [Assignment.value?_restrict, if_pos listed, bound]⟩
    next => cases found
  · intro name absent
    rw [get?_among] at absent
    rw [Assignment.value?_restrict]
    split
    next listed =>
        rw [if_pos listed] at absent
        exact unbound name absent
    next => rfl

theorem single_mem_combinations {name : String} {domain : List Value} {value : Value}
    (found : domains.get? name = some domain) (picked : value ∈ Value.distinct domain) :
    .single name value ∈ (domains.among [name]).combinations := by
  refine mem_combinations_iff.2 ⟨fun other otherDomain otherFound => ?_, fun other absent => ?_⟩
  · rw [get?_among] at otherFound
    split at otherFound
    next isName =>
        cases List.mem_singleton.1 isName
        rw [found, Option.some.injEq] at otherFound
        exact ⟨value, otherFound ▸ picked, Assignment.value?_bind_self _ _ _⟩
    next => cases otherFound
  · rw [Assignment.value?_single, if_neg]
    rintro rfl
    rw [get?_among, if_pos (List.mem_singleton_self other), found] at absent
    cases absent

theorem value?_eq_none_of_not_mem (member : part ∈ (domains.among names).combinations)
    {name : String} (absent : name ∉ names) : part.value? name = none := by
  refine (mem_combinations_iff.1 member).2 name ?_
  rw [get?_among, if_neg absent]

theorem mem_of_mem_names (member : part ∈ (domains.among names).combinations) :
    ∀ name ∈ part.names, name ∈ names := by
  intro name bound
  by_contra absent
  rw [Assignment.mem_names_iff, value?_eq_none_of_not_mem member absent] at bound
  cases bound

/-- Values for some of the variables may replace those of a combination. -/
theorem compose_mem_combinations (member : row ∈ domains.combinations)
    (partMember : part ∈ (domains.among names).combinations) :
    row.compose part ∈ domains.combinations := by
  obtain ⟨picks, unbound⟩ := mem_combinations_iff.1 member
  refine mem_combinations_iff.2 ⟨?_, ?_⟩
  · intro name domain found
    rw [Assignment.value?_compose]
    by_cases listed : name ∈ names
    · have inPart : (domains.among names).get? name = some domain := by
        rw [get?_among, if_pos listed, found]
      obtain ⟨value, valueMember, bound⟩ := (mem_combinations_iff.1 partMember).1 _ _ inPart
      exact ⟨value, valueMember, by rw [bound, Option.some_or]⟩
    · obtain ⟨value, valueMember, bound⟩ := picks name domain found
      exact ⟨value, valueMember, by
        rw [value?_eq_none_of_not_mem partMember listed, Option.none_or, bound]⟩
  · intro name absent
    have absentInPart : (domains.among names).get? name = none := by
      rw [get?_among, absent, ite_self]
    rw [Assignment.value?_compose, (mem_combinations_iff.1 partMember).2 name absentInPart,
      unbound name absent, Option.none_or]

/-- A combination is its values of the variables that it ranges over. -/
theorem restrict_eq_self (member : part ∈ (domains.among names).combinations) :
    part.restrict names = part := by
  ext1 name
  rw [Assignment.value?_restrict]
  split
  · rfl
  next absent => rw [value?_eq_none_of_not_mem member absent]

theorem restrict_compose (member : row ∈ domains.combinations)
    (partMember : part ∈ (domains.among names).combinations) :
    (row.compose part).restrict names = part := by
  ext1 name
  rw [Assignment.value?_restrict]
  split
  next listed =>
      rw [Assignment.value?_compose]
      cases found : domains.get? name with
      | none =>
          have absentInPart : (domains.among names).get? name = none := by
            rw [get?_among, found, ite_self]
          rw [(mem_combinations_iff.1 partMember).2 name absentInPart,
            (mem_combinations_iff.1 member).2 name found, Option.none_or]
      | some domain =>
          have inPart : (domains.among names).get? name = some domain := by
            rw [get?_among, if_pos listed, found]
          obtain ⟨value, _, bound⟩ := (mem_combinations_iff.1 partMember).1 _ _ inPart
          rw [bound, Option.some_or]
  next absent => rw [value?_eq_none_of_not_mem partMember absent]

/-- A combination contains values of some of its variables when they are its own. -/
theorem contains_iff_restrict_eq (member : row ∈ domains.combinations)
    (partMember : part ∈ (domains.among names).combinations) :
    row.contains part = true ↔ row.restrict names = part := by
  have restricted := @restrict_mem_combinations _ names _ member
  rw [Assignment.contains_iff]
  constructor
  · intro found
    ext1 name
    cases bound : part.value? name with
    | none =>
        cases restrictedBound : (row.restrict names).value? name with
        | none => rfl
        | some value =>
            obtain ⟨domain, inDomains, _⟩ := admits_of_mem restricted name value restrictedBound
            obtain ⟨other, _, otherBound⟩ := (mem_combinations_iff.1 partMember).1 _ _ inDomains
            rw [bound] at otherBound
            cases otherBound
    | some value =>
        have listed : name ∈ names := by
          by_contra absent
          rw [value?_eq_none_of_not_mem partMember absent] at bound
          cases bound
        obtain ⟨own, ownBound, equal⟩ := found name value bound
        have restrictedBound : (row.restrict names).value? name = some own := by
          rw [Assignment.value?_restrict, if_pos listed, ownBound]
        rw [restrictedBound, (admits_of_mem restricted).value_eq_of_beq (admits_of_mem partMember)
          restrictedBound bound equal]
  · rintro rfl name value bound
    rw [Assignment.value?_restrict] at bound
    split at bound
    · exact ⟨value, bound, Value.beq_self value⟩
    · cases bound

end Parts

section Size

private theorem length_extend (assignments : List Assignment) (name : String)
    (domain : List Value) :
    (extend assignments name domain).length =
      assignments.length * (Value.distinct domain).length := by
  simp [extend, List.length_flatMap]

private theorem min_mul_min (count factor limit : Nat) :
    min (min count limit * factor) limit = min (count * factor) limit := by
  rcases Nat.le_total count limit with below | above
  · rw [Nat.min_eq_left below]
  · rw [Nat.min_eq_right above]
    cases factor with
    | zero => simp
    | succ factor =>
        have atLimit : limit ≤ limit * (factor + 1) := Nat.le_mul_of_pos_right limit (by omega)
        have atCount : limit ≤ count * (factor + 1) :=
          Nat.le_trans above (Nat.le_mul_of_pos_right count (by omega))
        rw [Nat.min_eq_right atLimit, Nat.min_eq_right atCount]

private theorem foldl_count (entries : List (String × List Value)) :
    (entries.map Prod.snd).foldl
        (fun count domain => min (count * (Value.distinct domain).length) countLimit) 1 =
      min (rowsOver entries).length countLimit := by
  induction entries using List.reverseRecOn with
  | nil => rfl
  | append_singleton entries last inductionHypothesis =>
      rw [List.map_append, List.foldl_append, inductionHypothesis, rowsOver_append_singleton,
        length_extend]
      exact min_mul_min _ _ _

/-- The count is the number of combinations, held at the limit. -/
theorem count_eq_min (domains : Domains) :
    domains.count = min domains.combinations.length countLimit :=
  foldl_count domains.toList

/-- There are as many combinations as the product of the sizes of the domains. -/
theorem length_combinations (domains : Domains) :
    domains.combinations.length =
      (domains.toList.map fun entry => (Value.distinct entry.2).length).prod := by
  show (rowsOver domains.toList).length = _
  induction domains.toList using List.reverseRecOn with
  | nil => rfl
  | append_singleton entries last inductionHypothesis =>
      rw [rowsOver_append_singleton, length_extend, inductionHypothesis, List.map_append,
        List.prod_append, List.map_singleton, List.prod_singleton]

theorem count_le_of_subset {domains others : Domains}
    (part : domains.combinations ⊆ others.combinations) : domains.count ≤ others.count := by
  have fewer := (List.subperm_of_subset (combinations_nodup domains) part).length_le
  rw [count_eq_min, count_eq_min]
  omega

/-- Some of the variables have no more combinations than all of them, if those have any. -/
theorem count_among_le {domains : Domains} {row : Assignment} (names : List String)
    (member : row ∈ domains.combinations) : (domains.among names).count ≤ domains.count := by
  have parts : (domains.among names).combinations ⊆
      domains.combinations.map fun row => row.restrict names := by
    intro part partMember
    refine List.mem_map.2 ⟨row.compose part, compose_mem_combinations member partMember, ?_⟩
    exact restrict_compose member partMember
  have fewer := (List.subperm_of_subset (combinations_nodup (domains.among names)) parts).length_le
  rw [List.length_map] at fewer
  rw [count_eq_min, count_eq_min]
  omega

end Size

theorem among_congr {domains : Domains} {names others : List String}
    (same : ∀ name, name ∈ names ↔ name ∈ others) : domains.among names = domains.among others := by
  refine SortedMap.ext_get? fun name => ?_
  rw [get?_among, get?_among]
  by_cases listed : name ∈ names
  · rw [if_pos listed, if_pos ((same name).1 listed)]
  · rw [if_neg listed, if_neg (mt (same name).2 listed)]

theorem among_among {domains : Domains} {names others : List String} (part : others ⊆ names) :
    (domains.among names).among others = domains.among others := by
  refine SortedMap.ext_get? fun name => ?_
  rw [get?_among, get?_among, get?_among]
  by_cases listed : name ∈ others
  · rw [if_pos listed, if_pos (part listed), if_pos listed]
  · rw [if_neg listed, if_neg listed]

end Domains

end DecisionNetwork
