import DecisionNetwork.SortedMap.Basic

/-!
Contract: what each operation on a sorted map does to the values found under its keys.

Owns:
- `get?_insert`, `get?_insertIfNew` and `get?_filterKeys`;
- `get?_eq_some_iff`, which ties lookup to the bindings listed;
- `ext_get?`, by which maps that give the same answers are equal.

The last three ask that keys which compare equal are the same.
-/

namespace DecisionNetwork.SortedMap

universe u v

variable {κ : Type u} {ν : Type v} [Ord κ]

theorem lookupEntry_insertEntry [Std.TransOrd κ] (key other : κ) (value : ν)
    (entries : List (κ × ν)) :
    lookupEntry other (insertEntry key value entries) =
      if compare other key = .eq then some value else lookupEntry other entries := by
  induction entries with
  | nil => cases order : compare other key <;> simp [insertEntry, lookupEntry, order]
  | cons head tail inductionHypothesis =>
      unfold insertEntry
      cases placed : compare key head.1 with
      | lt =>
          cases order : compare other key with
          | lt =>
              have below : compare other head.1 = .lt := Std.TransCmp.lt_trans order placed
              simp [lookupEntry, order, below]
          | eq => simp [lookupEntry, order]
          | gt => simp [lookupEntry, order]
      | eq =>
          have same : compare other key = compare other head.1 :=
            Std.TransCmp.congr_right placed
          cases order : compare other head.1 <;> simp [lookupEntry, same, order]
      | gt =>
          have below : compare head.1 key = .lt := Std.OrientedCmp.lt_of_gt placed
          cases order : compare other head.1 with
          | lt =>
              have less : compare other key = .lt := Std.TransCmp.lt_trans order below
              simp [lookupEntry, order, less]
          | eq =>
              have less : compare other key = .lt := Std.TransCmp.lt_of_eq_of_lt order below
              simp [lookupEntry, order, less]
          | gt => simpa [lookupEntry, order] using inductionHypothesis

theorem lookupEntry_addEntry [Std.TransOrd κ] (key other : κ) (value : ν)
    (entries : List (κ × ν)) :
    lookupEntry other (addEntry key value entries) =
      if compare other key = .eq then some ((lookupEntry other entries).getD value)
      else lookupEntry other entries := by
  induction entries with
  | nil => cases order : compare other key <;> simp [addEntry, lookupEntry, order]
  | cons head tail inductionHypothesis =>
      unfold addEntry
      cases placed : compare key head.1 with
      | lt =>
          cases order : compare other key with
          | lt =>
              have below : compare other head.1 = .lt := Std.TransCmp.lt_trans order placed
              simp [lookupEntry, order, below]
          | eq =>
              have below : compare other head.1 = .lt :=
                Std.TransCmp.lt_of_eq_of_lt order placed
              simp [lookupEntry, order, below]
          | gt => simp [lookupEntry, order]
      | eq =>
          have same : compare other key = compare other head.1 :=
            Std.TransCmp.congr_right placed
          cases order : compare other head.1 <;> simp [lookupEntry, same, order]
      | gt =>
          have below : compare head.1 key = .lt := Std.OrientedCmp.lt_of_gt placed
          cases order : compare other head.1 with
          | lt =>
              have less : compare other key = .lt := Std.TransCmp.lt_trans order below
              simp [lookupEntry, order, less]
          | eq =>
              have less : compare other key = .lt := Std.TransCmp.lt_of_eq_of_lt order below
              simp [lookupEntry, order, less]
          | gt => simpa [lookupEntry, order] using inductionHypothesis

theorem get?_insert [Std.TransOrd κ] (map : SortedMap κ ν) (key other : κ) (value : ν) :
    (map.insert key value).get? other =
      if compare other key = .eq then some value else map.get? other :=
  lookupEntry_insertEntry key other value map.entries

theorem get?_insertIfNew [Std.TransOrd κ] (map : SortedMap κ ν) (key other : κ) (value : ν) :
    (map.insertIfNew key value).get? other =
      if compare other key = .eq then some ((map.get? other).getD value) else map.get? other :=
  lookupEntry_addEntry key other value map.entries

/-- A key below all others is not found. -/
theorem lookupEntry_eq_none {key : κ} {entries : List (κ × ν)}
    (below : ∀ entry ∈ entries, compare key entry.1 = .lt) : lookupEntry key entries = none := by
  cases entries with
  | nil => rfl
  | cons head tail => simp [lookupEntry, below head List.mem_cons_self]

theorem lookupEntry_eq_some_iff [Std.TransOrd κ] [Std.LawfulEqOrd κ] {key : κ} {value : ν}
    {entries : List (κ × ν)}
    (ascending : entries.Pairwise fun left right => compare left.1 right.1 = .lt) :
    lookupEntry key entries = some value ↔ (key, value) ∈ entries := by
  induction entries with
  | nil => simp [lookupEntry]
  | cons head tail inductionHypothesis =>
      obtain ⟨headBelow, tailAscending⟩ := List.pairwise_cons.1 ascending
      have absent : compare key head.1 ≠ .gt → (key, value) ∉ tail := fun notGreater member => by
        have greater := Std.OrientedCmp.gt_of_lt (headBelow _ member)
        exact notGreater greater
      unfold lookupEntry
      cases order : compare key head.1 with
      | lt =>
          have apart : (key, value) ≠ head := fun same => by
            subst same
            simp at order
          simp [apart, absent (by simp [order])]
      | eq =>
          have sameKey : key = head.1 := Std.LawfulEqOrd.eq_of_compare order
          simp only [List.mem_cons, absent (by simp [order]), or_false, Option.some.injEq]
          constructor
          · rintro rfl
            exact Prod.ext sameKey rfl
          · intro same
            exact (congrArg Prod.snd same).symm
      | gt =>
          have apart : (key, value) ≠ head := fun same => by
            subst same
            simp at order
          simp [apart, inductionHypothesis tailAscending]

/-- A key has the value with which it is listed. -/
theorem get?_eq_some_iff [Std.TransOrd κ] [Std.LawfulEqOrd κ] {map : SortedMap κ ν} {key : κ}
    {value : ν} : map.get? key = some value ↔ (key, value) ∈ map.toList :=
  lookupEntry_eq_some_iff map.ascending

theorem get?_filterKeys [Std.TransOrd κ] [Std.LawfulEqOrd κ] (map : SortedMap κ ν)
    (keep : κ → Bool) (key : κ) :
    (map.filterKeys keep).get? key = if keep key then map.get? key else none := by
  apply Option.ext
  intro value
  split
  next kept => simp [get?_eq_some_iff, filterKeys, toList, kept]
  next dropped => simp [get?_eq_some_iff, filterKeys, toList, dropped]

/-- Maps that list the same bindings are equal. -/
theorem ext_mem [Std.TransOrd κ] {left right : SortedMap κ ν}
    (same : ∀ entry, entry ∈ left.toList ↔ entry ∈ right.toList) : left = right := by
  have irreflexive (entry : κ × ν) : compare entry.1 entry.1 ≠ .lt := by simp
  have distinct (map : SortedMap κ ν) : map.toList.Nodup := by
    refine map.ascending.imp fun {first second} below => ?_
    rintro rfl
    exact irreflexive first below
  apply ext
  refine List.Perm.eq_of_pairwise (fun first second _ _ below above => ?_)
    left.ascending right.ascending
    ((List.perm_ext_iff_of_nodup (distinct left) (distinct right)).2 same)
  exact absurd (Std.TransCmp.lt_trans below above) (irreflexive first)

/-- Maps that find the same values are equal. -/
theorem ext_get? [Std.TransOrd κ] [Std.LawfulEqOrd κ] {left right : SortedMap κ ν}
    (same : ∀ key, left.get? key = right.get? key) : left = right :=
  ext_mem fun entry => by
    rw [← get?_eq_some_iff, ← get?_eq_some_iff, same]

end DecisionNetwork.SortedMap
