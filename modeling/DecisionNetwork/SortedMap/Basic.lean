/-!
Contract: finite maps as lists of bindings in strictly ascending key order.

Owns:
- `SortedMap`, whose bindings are ascending by construction;
- `insert`, which keeps the key already stored when an equal one is bound again;
- `ofList`, which keeps the last of several equal keys together with its value;
- `SortedSet`, the maps that bind every key to the unit value.

Keys may compare equal without being the same; the order alone decides.
-/

namespace DecisionNetwork

universe u v w

/-- Bindings in strictly ascending key order. -/
structure SortedMap (κ : Type u) (ν : Type v) [Ord κ] where
  entries : List (κ × ν)
  ascending : entries.Pairwise fun left right => compare left.1 right.1 = .lt

namespace SortedMap

variable {κ : Type u} {ν : Type v} {μ : Type w} [Ord κ]

/-- The entry list after binding a key; an equal key stays and takes the new value. -/
def insertEntry (key : κ) (value : ν) : List (κ × ν) → List (κ × ν)
  | [] => [(key, value)]
  | head :: tail =>
    match compare key head.1 with
    | .lt => (key, value) :: head :: tail
    | .eq => (head.1, value) :: tail
    | .gt => head :: insertEntry key value tail

/-- The entry list after binding a key that is left alone when an equal one is bound. -/
def addEntry (key : κ) (value : ν) : List (κ × ν) → List (κ × ν)
  | [] => [(key, value)]
  | head :: tail =>
    match compare key head.1 with
    | .lt => (key, value) :: head :: tail
    | .eq => head :: tail
    | .gt => head :: addEntry key value tail

/-- The value of a key; the search stops at the first greater key. -/
def lookupEntry (key : κ) : List (κ × ν) → Option ν
  | [] => none
  | head :: tail =>
    match compare key head.1 with
    | .lt => none
    | .eq => some head.2
    | .gt => lookupEntry key tail

/-- Every bound that lies below the new key and below the old ones stays a bound. -/
theorem compare_insertEntry [Std.TransOrd κ] {bound key : κ} {value : ν}
    {entries : List (κ × ν)} (boundBelowKey : compare bound key = .lt)
    (boundBelowEntries : ∀ entry ∈ entries, compare bound entry.1 = .lt) :
    ∀ entry ∈ insertEntry key value entries, compare bound entry.1 = .lt := by
  induction entries with
  | nil => simpa [insertEntry] using boundBelowKey
  | cons head tail inductionHypothesis =>
      have boundBelowHead := boundBelowEntries head List.mem_cons_self
      have boundBelowTail : ∀ entry ∈ tail, compare bound entry.1 = .lt :=
        fun entry member => boundBelowEntries entry (List.mem_cons_of_mem _ member)
      intro entry member
      unfold insertEntry at member
      split at member
      · rcases List.mem_cons.1 member with rfl | member
        · exact boundBelowKey
        · exact boundBelowEntries entry member
      · rcases List.mem_cons.1 member with rfl | member
        · exact boundBelowHead
        · exact boundBelowTail entry member
      · rcases List.mem_cons.1 member with rfl | member
        · exact boundBelowHead
        · exact inductionHypothesis boundBelowTail entry member

theorem compare_addEntry [Std.TransOrd κ] {bound key : κ} {value : ν}
    {entries : List (κ × ν)} (boundBelowKey : compare bound key = .lt)
    (boundBelowEntries : ∀ entry ∈ entries, compare bound entry.1 = .lt) :
    ∀ entry ∈ addEntry key value entries, compare bound entry.1 = .lt := by
  induction entries with
  | nil => simpa [addEntry] using boundBelowKey
  | cons head tail inductionHypothesis =>
      have boundBelowHead := boundBelowEntries head List.mem_cons_self
      have boundBelowTail : ∀ entry ∈ tail, compare bound entry.1 = .lt :=
        fun entry member => boundBelowEntries entry (List.mem_cons_of_mem _ member)
      intro entry member
      unfold addEntry at member
      split at member
      · rcases List.mem_cons.1 member with rfl | member
        · exact boundBelowKey
        · exact boundBelowEntries entry member
      · exact boundBelowEntries entry member
      · rcases List.mem_cons.1 member with rfl | member
        · exact boundBelowHead
        · exact inductionHypothesis boundBelowTail entry member

private theorem lt_of_compare_gt [Std.TransOrd κ] {key other : κ}
    (greater : compare key other = .gt) : compare other key = .lt :=
  Std.OrientedCmp.lt_of_gt greater

theorem insertEntry_ascending [Std.TransOrd κ] {key : κ} {value : ν} {entries : List (κ × ν)}
    (ascending : entries.Pairwise fun left right => compare left.1 right.1 = .lt) :
    (insertEntry key value entries).Pairwise fun left right => compare left.1 right.1 = .lt := by
  induction entries with
  | nil => simp [insertEntry]
  | cons head tail inductionHypothesis =>
      obtain ⟨headBelow, tailAscending⟩ := List.pairwise_cons.1 ascending
      unfold insertEntry
      split
      next less =>
          refine List.pairwise_cons.2 ⟨fun entry member => ?_, ascending⟩
          rcases List.mem_cons.1 member with rfl | member
          · exact less
          · exact Std.TransCmp.lt_trans less (headBelow entry member)
      next => exact List.pairwise_cons.2 ⟨headBelow, tailAscending⟩
      next greater =>
          exact List.pairwise_cons.2
            ⟨compare_insertEntry (lt_of_compare_gt greater) headBelow,
              inductionHypothesis tailAscending⟩

theorem addEntry_ascending [Std.TransOrd κ] {key : κ} {value : ν} {entries : List (κ × ν)}
    (ascending : entries.Pairwise fun left right => compare left.1 right.1 = .lt) :
    (addEntry key value entries).Pairwise fun left right => compare left.1 right.1 = .lt := by
  induction entries with
  | nil => simp [addEntry]
  | cons head tail inductionHypothesis =>
      obtain ⟨headBelow, tailAscending⟩ := List.pairwise_cons.1 ascending
      unfold addEntry
      split
      next less =>
          refine List.pairwise_cons.2 ⟨fun entry member => ?_, ascending⟩
          rcases List.mem_cons.1 member with rfl | member
          · exact less
          · exact Std.TransCmp.lt_trans less (headBelow entry member)
      next => exact ascending
      next greater =>
          exact List.pairwise_cons.2
            ⟨compare_addEntry (lt_of_compare_gt greater) headBelow,
              inductionHypothesis tailAscending⟩

def empty : SortedMap κ ν := ⟨[], List.Pairwise.nil⟩

instance : EmptyCollection (SortedMap κ ν) := ⟨empty⟩

instance : Inhabited (SortedMap κ ν) := ⟨empty⟩

/-- Binds a key. An equal key that is bound already stays and takes the new value. -/
def insert [Std.TransOrd κ] (map : SortedMap κ ν) (key : κ) (value : ν) : SortedMap κ ν :=
  ⟨insertEntry key value map.entries, insertEntry_ascending map.ascending⟩

/-- Binds a key unless an equal one is bound. -/
def insertIfNew [Std.TransOrd κ] (map : SortedMap κ ν) (key : κ) (value : ν) : SortedMap κ ν :=
  ⟨addEntry key value map.entries, addEntry_ascending map.ascending⟩

/-- The bindings of a list; of several equal keys the last one and its value are kept. -/
def ofList [Std.TransOrd κ] (bindings : List (κ × ν)) : SortedMap κ ν :=
  bindings.foldr (fun binding map => map.insertIfNew binding.1 binding.2) empty

/-- The bindings of a list, bound one after the other: the first of several equal keys is kept,
with the last value. -/
def insertMany [Std.TransOrd κ] (map : SortedMap κ ν) (bindings : List (κ × ν)) :
    SortedMap κ ν :=
  bindings.foldl (fun map binding => map.insert binding.1 binding.2) map

def get? (map : SortedMap κ ν) (key : κ) : Option ν := lookupEntry key map.entries

def contains (map : SortedMap κ ν) (key : κ) : Bool := (map.get? key).isSome

/-- The bindings in ascending key order. -/
def toList (map : SortedMap κ ν) : List (κ × ν) := map.entries

def keys (map : SortedMap κ ν) : List κ := map.entries.map Prod.fst

def values (map : SortedMap κ ν) : List ν := map.entries.map Prod.snd

def size (map : SortedMap κ ν) : Nat := map.entries.length

def isEmpty (map : SortedMap κ ν) : Bool := map.entries.isEmpty

/-- Keeps the bindings whose key passes the test. -/
def filterKeys (map : SortedMap κ ν) (keep : κ → Bool) : SortedMap κ ν :=
  ⟨map.entries.filter fun entry => keep entry.1, map.ascending.filter _⟩

theorem mapEntries_ascending {entries : List (κ × ν)} (change : ν → μ)
    (ascending : entries.Pairwise fun left right => compare left.1 right.1 = .lt) :
    (entries.map fun entry => (entry.1, change entry.2)).Pairwise
      fun left right => compare left.1 right.1 = .lt :=
  List.pairwise_map.2 ascending

def mapValues (map : SortedMap κ ν) (change : ν → μ) : SortedMap κ μ :=
  ⟨map.entries.map fun entry => (entry.1, change entry.2),
    mapEntries_ascending change map.ascending⟩

@[ext] theorem ext {left right : SortedMap κ ν} (sameEntries : left.entries = right.entries) :
    left = right := by
  cases left; cases right; cases sameEntries; rfl

instance [DecidableEq κ] [DecidableEq ν] : DecidableEq (SortedMap κ ν) := fun left right =>
  decidable_of_iff (left.entries = right.entries) ⟨ext, congrArg entries⟩

instance [Repr κ] [Repr ν] : Repr (SortedMap κ ν) := ⟨fun map precedence =>
  reprPrec map.entries precedence⟩

end SortedMap

/-- A finite set of keys in strictly ascending order. -/
abbrev SortedSet (κ : Type u) [Ord κ] := SortedMap κ Unit

namespace SortedSet

variable {κ : Type u} [Ord κ]

/-- The keys of a list; the first of several equal keys is kept. -/
def ofList [Std.TransOrd κ] (keys : List κ) : SortedSet κ :=
  keys.foldl (fun set key => SortedMap.insert set key ()) SortedMap.empty

def toList (set : SortedSet κ) : List κ := SortedMap.keys set

/-- The smallest key and the set of the others. -/
def popFirst? (set : SortedSet κ) : Option (κ × SortedSet κ) :=
  set.entries.head?.map fun entry => (entry.1, ⟨set.entries.tail, set.ascending.tail⟩)

end SortedSet

end DecisionNetwork
