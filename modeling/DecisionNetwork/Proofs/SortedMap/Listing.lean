import DecisionNetwork.SortedMap.Lemmas
import Mathlib.Algebra.GroupWithZero.Nat
import Mathlib.Data.List.Forall2
import Mathlib.Data.List.Induction
import Mathlib.Data.List.Pairwise
import Mathlib.Data.List.Perm.Basic

/-!
Contract: lookup, listing and building of sorted maps whose keys may compare equal without being
the same.

Owns:
- `get?_eq_some_iff_exists`, lookup as membership of a key that compares equal;
- `toList_insert_perm`, `toList_ofList_perm` and `toList_insertMany_perm`, by which new keys are
  listed beside the others, and `toList_ofList_of_ascending` for bindings that are sorted already;
- `find?_eq_some_iff_of_pairwise`, the first item of a sorted list that passes a test;
- `get?_ofList`, by which the last of several bindings of a key is found;
- `get?_insertMany_map`, maps that list a function of their keys;
- `sum_values_insert` and `size_insert`, totals over the values after a key was bound;
- `forall₂_entries_iff`, by which maps are related entry by entry when their lookups are;
- `mapM_congr`, by which steps that agree on all items agree in sequence;
- `SortedSet.mem_toList_ofList` and `SortedSet.toList_ofList_eq`.
-/

namespace DecisionNetwork

universe u v w

/-- Steps that agree on all items agree in sequence. -/
theorem mapM_congr {m : Type u → Type v} [Monad m] [LawfulMonad m] {ι : Type w} {κ : Type u}
    {left right : ι → m κ} {items : List ι} (same : ∀ item ∈ items, left item = right item) :
    items.mapM left = items.mapM right := by
  induction items with
  | nil => rfl
  | cons head tail inductionHypothesis =>
      rw [List.mapM_cons, List.mapM_cons, same head List.mem_cons_self,
        inductionHypothesis fun item member => same item (List.mem_cons_of_mem head member)]

/-- Keys of a list without equal keys are the same as soon as they compare equal. -/
theorem eq_of_mem_of_compare_eq {κ : Type u} [Ord κ] [Std.TransOrd κ] {keys : List κ}
    (apart : keys.Pairwise fun left right => compare left right ≠ .eq) {left right : κ}
    (leftMember : left ∈ keys) (rightMember : right ∈ keys) (equal : compare left right = .eq) :
    left = right := by
  have symmetric : Std.Symm fun first second : κ => compare first second ≠ .eq :=
    ⟨fun _ _ notEqual reversed => notEqual (Std.OrientedCmp.eq_symm reversed)⟩
  by_contra differ
  exact apart.forall leftMember rightMember differ equal

/-- The first item of a sorted list that passes a test comes before all others that do. -/
theorem find?_eq_some_iff_of_pairwise {ι : Type u} {comesBefore : ι → ι → Prop}
    (asymmetric : ∀ {left right}, comesBefore left right → ¬ comesBefore right left)
    {items : List ι} (sorted : items.Pairwise comesBefore) {test : ι → Bool} {item : ι} :
    items.find? test = some item ↔
      item ∈ items ∧ test item = true ∧
        ∀ other ∈ items, test other = true → other = item ∨ comesBefore item other := by
  have first {found : ι} (isFound : items.find? test = some found) :
      ∀ other ∈ items, test other = true → other = found ∨ comesBefore found other := by
    obtain ⟨_, before, after, rfl, fail⟩ := List.find?_eq_some_iff_append.1 isFound
    obtain ⟨_, foundSorted, _⟩ := List.pairwise_append.1 sorted
    intro other member passes
    rcases List.mem_append.1 member with earlier | later
    · have fails := fail other earlier
      rw [passes] at fails
      cases fails
    · rcases List.mem_cons.1 later with rfl | later
      · exact Or.inl rfl
      · exact Or.inr ((List.pairwise_cons.1 foundSorted).1 other later)
  constructor
  · intro isFound
    exact ⟨List.mem_of_find?_eq_some isFound, List.find?_some isFound, first isFound⟩
  · rintro ⟨member, passes, least⟩
    obtain ⟨found, isFound⟩ := Option.isSome_iff_exists.1
      (List.find?_isSome.2 ⟨item, member, passes⟩)
    rcases first isFound item member passes with rfl | foundBefore
    · exact isFound
    · rcases least found (List.mem_of_find?_eq_some isFound) (List.find?_some isFound) with
        rfl | itemBefore
      · exact isFound
      · exact absurd itemBefore (asymmetric foundBefore)

namespace SortedMap

variable {κ : Type u} {ν : Type v} {μ : Type w} [Ord κ]

section Lookup

variable [Std.TransOrd κ]

theorem lookupEntry_eq_some_iff_exists {key : κ} {value : ν} {entries : List (κ × ν)}
    (ascending : entries.Pairwise fun left right => compare left.1 right.1 = .lt) :
    lookupEntry key entries = some value ↔
      ∃ stored, (stored, value) ∈ entries ∧ compare key stored = .eq := by
  induction entries with
  | nil => simp [lookupEntry]
  | cons head tail inductionHypothesis =>
      obtain ⟨headBelow, tailAscending⟩ := List.pairwise_cons.1 ascending
      -- A key that is not above the head equals nothing in the tail, which lies above the head.
      have absent : compare key head.1 ≠ .gt →
          ¬ ∃ stored, (stored, value) ∈ tail ∧ compare key stored = .eq := by
        rintro notAbove ⟨stored, member, same⟩
        have above := Std.OrientedCmp.gt_of_lt (headBelow _ member)
        exact notAbove (Std.TransCmp.gt_of_eq_of_gt same above)
      unfold lookupEntry
      cases order : compare key head.1 with
      | lt =>
          simp only [reduceCtorEq, List.mem_cons, false_iff]
          rintro ⟨stored, rfl | member, same⟩
          · rw [order] at same
            cases same
          · exact absent (by simp [order]) ⟨stored, member, same⟩
      | eq =>
          simp only [Option.some.injEq, List.mem_cons]
          constructor
          · rintro rfl
            exact ⟨head.1, Or.inl rfl, order⟩
          · rintro ⟨stored, same | member, equal⟩
            · exact (congrArg Prod.snd same).symm
            · exact absurd ⟨stored, member, equal⟩ (absent (by simp [order]))
      | gt =>
          simp only [inductionHypothesis tailAscending, List.mem_cons]
          constructor
          · rintro ⟨stored, member, same⟩
            exact ⟨stored, Or.inr member, same⟩
          · rintro ⟨stored, rfl | member, same⟩
            · rw [order] at same
              cases same
            · exact ⟨stored, member, same⟩

/-- A key has the value that is listed with a key equal to it. -/
theorem get?_eq_some_iff_exists {map : SortedMap κ ν} {key : κ} {value : ν} :
    map.get? key = some value ↔
      ∃ stored, (stored, value) ∈ map.toList ∧ compare key stored = .eq :=
  lookupEntry_eq_some_iff_exists map.ascending

theorem get?_of_mem {map : SortedMap κ ν} {key : κ} {value : ν}
    (member : (key, value) ∈ map.toList) : map.get? key = some value :=
  get?_eq_some_iff_exists.2 ⟨key, member, Std.ReflCmp.compare_self⟩

/-- Of several bindings of a key the last one is found. -/
theorem get?_ofList (bindings : List (κ × ν)) (key : κ) :
    (ofList bindings).get? key =
      (bindings.reverse.find? fun binding => compare key binding.1 == .eq).map Prod.snd := by
  induction bindings with
  | nil => rfl
  | cons head rest inductionHypothesis =>
      show ((ofList rest).insertIfNew head.1 head.2).get? key = _
      rw [get?_insertIfNew, inductionHypothesis, List.reverse_cons, List.find?_append]
      cases rest.reverse.find? fun binding => compare key binding.1 == .eq with
      | some last => simp
      | none => cases order : compare key head.1 <;> simp [order]

/-- Equal keys find the same value. -/
theorem get?_congr (map : SortedMap κ ν) {left right : κ} (same : compare left right = .eq) :
    map.get? left = map.get? right := by
  apply Option.ext
  intro value
  simp only [get?_eq_some_iff_exists]
  refine exists_congr fun stored => and_congr_right fun _ => ?_
  rw [Std.TransCmp.congr_left same]

end Lookup

theorem keys_nodup [Std.TransOrd κ] (map : SortedMap κ ν) : map.keys.Nodup :=
  List.pairwise_map.2 (map.ascending.imp fun below same => by
    rw [same] at below
    simp at below)

theorem keys_eq_map (map : SortedMap κ ν) : map.keys = map.toList.map Prod.fst := rfl

theorem values_eq_map (map : SortedMap κ ν) : map.values = map.toList.map Prod.snd := rfl

/-- A key that is not bound yet is added to the bindings. -/
theorem addEntry_perm {key : κ} {value : ν} {entries : List (κ × ν)}
    (new : ∀ entry ∈ entries, compare key entry.1 ≠ .eq) :
    (addEntry key value entries).Perm ((key, value) :: entries) := by
  induction entries with
  | nil => exact List.Perm.refl _
  | cons head tail inductionHypothesis =>
      unfold addEntry
      split
      next => exact List.Perm.refl _
      next same => exact absurd same (new head List.mem_cons_self)
      next =>
          have rest := inductionHypothesis fun entry member =>
            new entry (List.mem_cons_of_mem _ member)
          exact (rest.cons head).trans (List.Perm.swap _ _ _)

theorem insertEntry_perm {key : κ} {value : ν} {entries : List (κ × ν)}
    (new : ∀ entry ∈ entries, compare key entry.1 ≠ .eq) :
    (insertEntry key value entries).Perm ((key, value) :: entries) := by
  induction entries with
  | nil => exact List.Perm.refl _
  | cons head tail inductionHypothesis =>
      unfold insertEntry
      split
      next => exact List.Perm.refl _
      next same => exact absurd same (new head List.mem_cons_self)
      next =>
          have rest := inductionHypothesis fun entry member =>
            new entry (List.mem_cons_of_mem _ member)
          exact (rest.cons head).trans (List.Perm.swap _ _ _)

theorem toList_insert_perm [Std.TransOrd κ] {map : SortedMap κ ν} {key : κ}
    (new : map.get? key = none) (value : ν) :
    (map.insert key value).toList.Perm ((key, value) :: map.toList) := by
  apply insertEntry_perm
  intro entry member same
  have found := get?_eq_some_iff_exists.2 ⟨entry.1, member, same⟩
  rw [new] at found
  cases found

theorem get?_mapValues (map : SortedMap κ ν) (change : ν → μ) (key : κ) :
    (map.mapValues change).get? key = (map.get? key).map change := by
  show lookupEntry key (map.entries.map fun entry => (entry.1, change entry.2)) =
    (lookupEntry key map.entries).map change
  induction map.entries with
  | nil => rfl
  | cons head tail inductionHypothesis =>
      simp only [List.map_cons, lookupEntry]
      cases compare key head.1 with
      | lt => rfl
      | eq => rfl
      | gt => exact inductionHypothesis

theorem values_mapValues (map : SortedMap κ ν) (change : ν → μ) :
    (map.mapValues change).values = map.values.map change := by
  show (map.entries.map fun entry => (entry.1, change entry.2)).map Prod.snd =
    (map.entries.map Prod.snd).map change
  rw [List.map_map, List.map_map]
  rfl

theorem eq_or_mem_of_mem_insertEntry {key : κ} {value : ν} {entries : List (κ × ν)}
    {entry : κ × ν} (member : entry ∈ insertEntry key value entries) :
    entry.2 = value ∨ entry ∈ entries := by
  induction entries with
  | nil =>
      cases List.mem_singleton.1 member
      exact Or.inl rfl
  | cons head tail inductionHypothesis =>
      unfold insertEntry at member
      split at member
      · rcases List.mem_cons.1 member with rfl | inEntries
        · exact Or.inl rfl
        · exact Or.inr inEntries
      · rcases List.mem_cons.1 member with rfl | inTail
        · exact Or.inl rfl
        · exact Or.inr (List.mem_cons_of_mem head inTail)
      · rcases List.mem_cons.1 member with rfl | inTail
        · exact Or.inr List.mem_cons_self
        · exact (inductionHypothesis inTail).imp_right (List.mem_cons_of_mem head)

/-- Binding a key replaces what the old value contributes to a total by what the new one does. -/
theorem sum_values_insert [Std.TransOrd κ] (map : SortedMap κ ν) (key : κ) (value : ν)
    (weigh : ν → Nat) :
    ((map.insert key value).values.map weigh).sum + ((map.get? key).map weigh).getD 0 =
      (map.values.map weigh).sum + weigh value := by
  show (((insertEntry key value map.entries).map Prod.snd).map weigh).sum +
      ((lookupEntry key map.entries).map weigh).getD 0 =
    ((map.entries.map Prod.snd).map weigh).sum + weigh value
  induction map.entries with
  | nil => simp [insertEntry, lookupEntry]
  | cons head tail inductionHypothesis =>
      unfold insertEntry lookupEntry
      cases compare key head.1 with
      | lt =>
          simp only [List.map_cons, List.sum_cons, Option.map_none, Option.getD_none]
          omega
      | eq =>
          simp only [List.map_cons, List.sum_cons, Option.map_some, Option.getD_some]
          omega
      | gt =>
          simp only [List.map_cons, List.sum_cons]
          omega

theorem size_insert [Std.TransOrd κ] (map : SortedMap κ ν) (key : κ) (value : ν) :
    (map.insert key value).size = map.size + if (map.get? key).isSome then 0 else 1 := by
  have total (map : SortedMap κ ν) : (map.values.map fun _ => 1).sum = map.size := by
    simp [values_eq_map, size, toList, Function.comp_def]
  have counted := sum_values_insert map key value fun _ => 1
  rw [total, total] at counted
  cases found : map.get? key with
  | none => simpa [found] using counted
  | some old => simpa [found] using counted

section Building

variable [Std.TransOrd κ]

theorem toList_ofList_perm {bindings : List (κ × ν)}
    (distinct : bindings.Pairwise fun left right => compare left.1 right.1 ≠ .eq) :
    (ofList bindings).toList.Perm bindings := by
  induction bindings with
  | nil => exact List.Perm.refl _
  | cons head tail inductionHypothesis =>
      obtain ⟨headNew, tailDistinct⟩ := List.pairwise_cons.1 distinct
      have listed := inductionHypothesis tailDistinct
      refine (addEntry_perm fun entry member => ?_).trans (listed.cons head)
      exact headNew entry (listed.mem_iff.1 member)

/-- A sorted list of bindings is kept as it is. -/
theorem toList_ofList_of_ascending {bindings : List (κ × ν)}
    (ascending : bindings.Pairwise fun left right => compare left.1 right.1 = .lt) :
    (ofList bindings).toList = bindings := by
  induction bindings with
  | nil => rfl
  | cons head tail inductionHypothesis =>
      obtain ⟨headBelow, tailAscending⟩ := List.pairwise_cons.1 ascending
      show addEntry head.1 head.2 (ofList tail).toList = head :: tail
      rw [inductionHypothesis tailAscending]
      cases tail with
      | nil => rfl
      | cons next rest => rw [addEntry, headBelow next List.mem_cons_self]

theorem mapValues_insertIfNew (map : SortedMap κ ν) (key : κ) (value : ν) (change : ν → μ) :
    (map.insertIfNew key value).mapValues change =
      (map.mapValues change).insertIfNew key (change value) := by
  apply ext
  show (addEntry key value map.entries).map (fun entry => (entry.1, change entry.2)) =
    addEntry key (change value) (map.entries.map fun entry => (entry.1, change entry.2))
  induction map.entries with
  | nil => rfl
  | cons head tail inductionHypothesis =>
      simp only [List.map_cons, addEntry]
      cases compare key head.1 with
      | lt => rfl
      | eq => rfl
      | gt => simp [inductionHypothesis]

theorem mapValues_ofList (bindings : List (κ × ν)) (change : ν → μ) :
    (ofList bindings).mapValues change =
      ofList (bindings.map fun binding => (binding.1, change binding.2)) := by
  induction bindings with
  | nil => rfl
  | cons head tail inductionHypothesis =>
      show ((ofList tail).insertIfNew head.1 head.2).mapValues change = _
      rw [mapValues_insertIfNew, inductionHypothesis]
      rfl

theorem get?_insertMany_of_apart (map : SortedMap κ ν) {bindings : List (κ × ν)} {key : κ}
    (apart : ∀ binding ∈ bindings, compare key binding.1 ≠ .eq) :
    (map.insertMany bindings).get? key = map.get? key := by
  induction bindings generalizing map with
  | nil => rfl
  | cons head tail inductionHypothesis =>
      show ((map.insert head.1 head.2).insertMany tail).get? key = _
      rw [inductionHypothesis _ fun binding member =>
          apart binding (List.mem_cons_of_mem head member),
        get?_insert, if_neg (apart head List.mem_cons_self)]

/-- Bindings without equal keys are all listed. -/
theorem toList_insertMany_perm {bindings : List (κ × ν)}
    (distinct : bindings.Pairwise fun left right => compare left.1 right.1 ≠ .eq) :
    (empty.insertMany bindings).toList.Perm bindings := by
  induction bindings using List.reverseRecOn with
  | nil => exact List.Perm.refl _
  | append_singleton bindings last inductionHypothesis =>
      obtain ⟨earlierDistinct, _, lastApart⟩ := List.pairwise_append.1 distinct
      have new : (empty.insertMany bindings).get? last.1 = none := by
        rw [get?_insertMany_of_apart empty]
        · rfl
        · intro binding member same
          exact lastApart binding member last (List.mem_singleton_self last)
            (Std.OrientedCmp.eq_symm same)
      rw [insertMany, List.foldl_append]
      refine (toList_insert_perm new last.2).trans ?_
      exact ((inductionHypothesis earlierDistinct).cons last).trans
        (List.perm_append_singleton last bindings).symm

/-- Of bindings without equal keys each is found. -/
theorem get?_insertMany_of_mem (map : SortedMap κ ν) {bindings : List (κ × ν)} {key : κ} {value : ν}
    (distinct : bindings.Pairwise fun left right => compare left.1 right.1 ≠ .eq)
    (member : (key, value) ∈ bindings) : (map.insertMany bindings).get? key = some value := by
  induction bindings generalizing map with
  | nil => cases member
  | cons head tail inductionHypothesis =>
      obtain ⟨headApart, tailDistinct⟩ := List.pairwise_cons.1 distinct
      show ((map.insert head.1 head.2).insertMany tail).get? key = _
      rcases List.mem_cons.1 member with rfl | inTail
      · rw [get?_insertMany_of_apart _ headApart, get?_insert, if_pos Std.ReflCmp.compare_self]
      · exact inductionHypothesis _ tailDistinct inTail

theorem mem_values_insertMany {map : SortedMap κ ν} {bindings : List (κ × ν)} {value : ν}
    (member : value ∈ (map.insertMany bindings).values) :
    value ∈ map.values ∨ ∃ key, (key, value) ∈ bindings := by
  induction bindings generalizing map with
  | nil => exact Or.inl member
  | cons head tail inductionHypothesis =>
      rcases inductionHypothesis member with inInserted | ⟨key, inTail⟩
      · obtain ⟨entry, listed, rfl⟩ := List.mem_map.1 inInserted
        rcases eq_or_mem_of_mem_insertEntry listed with isHead | inMap
        · exact Or.inr ⟨head.1, isHead ▸ List.mem_cons_self⟩
        · exact Or.inl (List.mem_map_of_mem inMap)
      · exact Or.inr ⟨key, List.mem_cons_of_mem head inTail⟩

end Building

section Lawful

variable [Std.TransOrd κ] [Std.LawfulEqOrd κ]

theorem get?_insert_self (map : SortedMap κ ν) (key : κ) (value : ν) :
    (map.insert key value).get? key = some value := by
  rw [get?_insert, if_pos Std.ReflCmp.compare_self]

theorem get?_insert_of_ne (map : SortedMap κ ν) {key other : κ} (value : ν)
    (differ : other ≠ key) : (map.insert key value).get? other = map.get? other := by
  rw [get?_insert, if_neg fun same => differ (Std.LawfulEqOrd.eq_of_compare same)]

/-- The bindings of a function of the keys are found under those keys. -/
theorem get?_insertMany_map [DecidableEq κ] (map : SortedMap κ ν) (keys : List κ) (entry : κ → ν)
    (key : κ) :
    (map.insertMany (keys.map fun key => (key, entry key))).get? key =
      if key ∈ keys then some (entry key) else map.get? key := by
  induction keys generalizing map with
  | nil => rfl
  | cons head tail inductionHypothesis =>
      show ((map.insert head (entry head)).insertMany _).get? key = _
      rw [inductionHypothesis]
      by_cases inTail : key ∈ tail
      · simp [inTail]
      · by_cases isHead : key = head
        · subst isHead
          simp [inTail, get?_insert_self]
        · simp [inTail, isHead, get?_insert_of_ne map (entry head) isHead]

theorem mem_keys_iff {map : SortedMap κ ν} {key : κ} : key ∈ map.keys ↔ (map.get? key).isSome := by
  rw [Option.isSome_iff_exists]
  simp [get?_eq_some_iff, keys_eq_map]

theorem get?_eq_none_iff {map : SortedMap κ ν} {key : κ} :
    map.get? key = none ↔ key ∉ map.keys := by
  rw [mem_keys_iff, Option.isSome_iff_ne_none, not_not]

section Entries

variable {related : ν → μ → Prop} {first : κ × ν} {second : κ × μ} {rest : List (κ × ν)}
  {others : List (κ × μ)}
  (found : ∀ key, Option.Rel related (lookupEntry key (first :: rest))
    (lookupEntry key (second :: others)))
include found

/-- Entries with related lookups start with the same key, since the smaller of two keys would be
found on one side alone. -/
private theorem head_eq_of_lookups : first.1 = second.1 ∧ related first.2 second.2 := by
  have sameKey : first.1 = second.1 := by
    cases order : compare first.1 second.1 with
    | lt =>
        have atFirst := found first.1
        simp only [lookupEntry, Std.ReflCmp.compare_self, order] at atFirst
        cases atFirst
    | eq => exact Std.LawfulEqOrd.eq_of_compare order
    | gt =>
        have below : compare second.1 first.1 = .lt := Std.OrientedCmp.lt_of_gt order
        have atSecond := found second.1
        simp only [lookupEntry, Std.ReflCmp.compare_self, below] at atSecond
        cases atSecond
  have atFirst := found first.1
  simp only [lookupEntry, ← sameKey, Std.ReflCmp.compare_self, Option.rel_some_some] at atFirst
  exact ⟨sameKey, atFirst⟩

private theorem tails_related_of_lookups
    (firstBelow : ∀ entry ∈ rest, compare first.1 entry.1 = .lt)
    (secondBelow : ∀ entry ∈ others, compare second.1 entry.1 = .lt) (key : κ) :
    Option.Rel related (lookupEntry key rest) (lookupEntry key others) := by
  obtain ⟨sameKey, -⟩ := head_eq_of_lookups found
  by_cases above : compare key first.1 = .gt
  · have atKey := found key
    simpa only [lookupEntry, ← sameKey, above] using atKey
  · have below : ∀ {entry : κ}, compare first.1 entry = .lt → compare key entry = .lt :=
      Std.TransCmp.lt_of_isLE_of_lt (Ordering.isLE_iff_ne_gt.2 above)
    rw [lookupEntry_eq_none fun entry member => below (firstBelow entry member),
      lookupEntry_eq_none fun entry member => below (sameKey ▸ secondBelow entry member)]
    exact Option.Rel.none

end Entries

omit [Std.TransOrd κ] in
private theorem lookupEntry_cons_self (head : κ × ν) (tail : List (κ × ν)) :
    lookupEntry head.1 (head :: tail) = some head.2 := by
  simp only [lookupEntry, Std.ReflCmp.compare_self]

/-- Maps list related entries in the same places when they find related values. -/
theorem forall₂_entries_iff (related : ν → μ → Prop) (left : SortedMap κ ν)
    (right : SortedMap κ μ) :
    List.Forall₂ (fun first second => first.1 = second.1 ∧ related first.2 second.2)
        left.toList right.toList ↔
      ∀ key, Option.Rel related (left.get? key) (right.get? key) := by
  obtain ⟨left, leftAscending⟩ := left
  obtain ⟨right, rightAscending⟩ := right
  show List.Forall₂ _ left right ↔
    ∀ key, Option.Rel related (lookupEntry key left) (lookupEntry key right)
  induction left generalizing right with
  | nil =>
      cases right with
      | nil => simp [lookupEntry, Option.rel_none_none]
      | cons head tail =>
          simp only [List.forall₂_nil_left_iff, reduceCtorEq, false_iff, not_forall]
          refine ⟨head.1, fun found => ?_⟩
          rw [lookupEntry_cons_self] at found
          cases found
  | cons first rest inductionHypothesis =>
      obtain ⟨firstBelow, restAscending⟩ := List.pairwise_cons.1 leftAscending
      cases right with
      | nil =>
          simp only [List.forall₂_nil_right_iff, reduceCtorEq, false_iff, not_forall]
          refine ⟨first.1, fun found => ?_⟩
          rw [lookupEntry_cons_self] at found
          cases found
      | cons second others =>
          obtain ⟨secondBelow, othersAscending⟩ := List.pairwise_cons.1 rightAscending
          rw [List.forall₂_cons, inductionHypothesis restAscending others othersAscending]
          constructor
          · rintro ⟨⟨sameKey, sameValue⟩, restRelated⟩ key
            unfold lookupEntry
            rw [← sameKey]
            cases compare key first.1 with
            | lt => exact Option.Rel.none
            | eq => exact Option.Rel.some sameValue
            | gt => exact restRelated key
          · intro found
            exact ⟨head_eq_of_lookups found,
              tails_related_of_lookups found firstBelow secondBelow⟩

end Lawful

end SortedMap

namespace SortedSet

variable {κ : Type u} [Ord κ]

theorem ascending_toList (set : SortedSet κ) :
    set.toList.Pairwise fun left right => compare left right = .lt :=
  List.pairwise_map.2 set.ascending

theorem mem_of_mem_insertEntry {key : κ} {entries : List (κ × Unit)} {entry : κ × Unit}
    (member : entry ∈ SortedMap.insertEntry key () entries) : entry.1 = key ∨ entry ∈ entries := by
  induction entries with
  | nil =>
      left
      simpa [SortedMap.insertEntry, Prod.ext_iff] using member
  | cons head tail inductionHypothesis =>
      unfold SortedMap.insertEntry at member
      split at member
      · rcases List.mem_cons.1 member with rfl | member
        · exact Or.inl rfl
        · exact Or.inr member
      · exact Or.inr member
      · rcases List.mem_cons.1 member with rfl | member
        · exact Or.inr List.mem_cons_self
        · exact (inductionHypothesis member).imp_right (List.mem_cons_of_mem head)

theorem toList_of_popFirst?_eq_none {set : SortedSet κ} (popped : set.popFirst? = none) :
    set.toList = [] := by
  have noHead : set.entries.head? = none := Option.map_eq_none_iff.1 popped
  show set.entries.map Prod.fst = []
  rw [List.head?_eq_none_iff.1 noHead, List.map_nil]

theorem toList_of_popFirst?_eq_some {set rest : SortedSet κ} {key : κ}
    (popped : set.popFirst? = some (key, rest)) : set.toList = key :: rest.toList := by
  obtain ⟨entry, isHead, same⟩ := Option.map_eq_some_iff.1 popped
  cases same
  exact congrArg (List.map Prod.fst) (List.eq_cons_of_mem_head? isHead)

variable [Std.TransOrd κ]

private theorem key_of_mem_foldl {keys : List κ} {set : SortedSet κ} {key : κ}
    (member :
      key ∈ SortedSet.toList (keys.foldl (fun set key => SortedMap.insert set key ()) set)) :
    key ∈ keys ∨ key ∈ set.toList := by
  induction keys generalizing set with
  | nil => exact Or.inr member
  | cons head tail inductionHypothesis =>
      rcases inductionHypothesis member with inTail | inSet
      · exact Or.inl (List.mem_cons_of_mem head inTail)
      · obtain ⟨entry, listed, rfl⟩ := List.mem_map.1 inSet
        rcases mem_of_mem_insertEntry listed with isHead | earlier
        · exact Or.inl (isHead ▸ List.mem_cons_self)
        · exact Or.inr (List.mem_map.2 ⟨entry, earlier, rfl⟩)

/-- The keys of a set come from the list that it was made of. -/
theorem mem_of_mem_toList_ofList {keys : List κ} {key : κ} (member : key ∈ (ofList keys).toList) :
    key ∈ keys := by
  rcases key_of_mem_foldl member with inKeys | inEmpty
  · exact inKeys
  · cases inEmpty

private theorem isSome_get?_foldl {keys : List κ} {set : SortedSet κ} {key : κ}
    (found : key ∈ keys ∨ (SortedMap.get? set key).isSome) :
    (SortedMap.get? (keys.foldl (fun set key => SortedMap.insert set key ()) set) key).isSome := by
  induction keys generalizing set with
  | nil => simpa using found
  | cons head tail inductionHypothesis =>
      refine inductionHypothesis ?_
      rw [SortedMap.get?_insert]
      rcases found with member | inSet
      · rcases List.mem_cons.1 member with rfl | inTail
        · right
          simp
        · exact Or.inl inTail
      · right
        split
        · rfl
        · exact inSet

/-- Every key of a list equals one of the set made of it. -/
theorem exists_mem_toList_ofList {keys : List κ} {key : κ} (member : key ∈ keys) :
    ∃ stored ∈ (ofList keys).toList, compare key stored = .eq := by
  have found : (SortedMap.get? (ofList keys) key).isSome := isSome_get?_foldl (Or.inl member)
  obtain ⟨_, found⟩ := Option.isSome_iff_exists.1 found
  obtain ⟨stored, listed, same⟩ := SortedMap.get?_eq_some_iff_exists.1 found
  exact ⟨stored, List.mem_map.2 ⟨_, listed, rfl⟩, same⟩

theorem mem_toList_insert [Std.LawfulEqOrd κ] {set : SortedSet κ} {key new : κ} :
    key ∈ SortedSet.toList (SortedMap.insert set new ()) ↔ key = new ∨ key ∈ set.toList := by
  unfold toList
  rw [SortedMap.mem_keys_iff, SortedMap.mem_keys_iff, SortedMap.get?_insert]
  by_cases same : key = new <;> simp [same]

theorem mem_toList_ofList [Std.LawfulEqOrd κ] {keys : List κ} {key : κ} :
    key ∈ (ofList keys).toList ↔ key ∈ keys := by
  constructor
  · exact mem_of_mem_toList_ofList
  · intro member
    obtain ⟨stored, listed, same⟩ := exists_mem_toList_ofList member
    exact Std.LawfulEqOrd.eq_of_compare same ▸ listed

/-- A set is listed by the ascending list that has its keys. -/
theorem toList_ofList_eq {keys sorted : List κ}
    (ascending : sorted.Pairwise fun left right => compare left right = .lt)
    (same : ∀ key, key ∈ keys ↔ key ∈ sorted) : (ofList keys).toList = sorted := by
  have irreflexive (key : κ) : compare key key ≠ .lt := by simp
  have distinct {list : List κ} (ascending : list.Pairwise fun left right =>
      compare left right = .lt) : list.Nodup :=
    ascending.imp fun {first second} below equal => by
      subst equal
      exact irreflexive first below
  have apart : sorted.Pairwise fun left right => compare left right ≠ .eq :=
    ascending.imp fun below => by simp [below]
  have members (key : κ) : key ∈ (ofList keys).toList ↔ key ∈ sorted := by
    constructor
    · exact fun member => (same key).1 (mem_of_mem_toList_ofList member)
    · intro member
      obtain ⟨stored, listed, equal⟩ := exists_mem_toList_ofList ((same key).2 member)
      have inSorted := (same stored).1 (mem_of_mem_toList_ofList listed)
      exact eq_of_mem_of_compare_eq apart member inSorted equal ▸ listed
  have permutation : (ofList keys).toList.Perm sorted :=
    (List.perm_ext_iff_of_nodup (distinct (ascending_toList _)) (distinct ascending)).2 members
  refine permutation.eq_of_pairwise (fun first second _ _ below above => ?_)
    (ascending_toList _) ascending
  exact absurd (Std.TransCmp.lt_trans below above) (irreflexive first)

end SortedSet

end DecisionNetwork
