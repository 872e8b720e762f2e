import DecisionNetwork.Proofs.Value.Equality

/-!
Contract: values with one zero, in which equality of values is identity.

Owns:
- `Binary64.compare_eq_iff`: numbers that compare equal have the same word but for the sign of a
  zero, NaNs included;
- `compare_eq_firstDifference`, the comparison of sequences as a search for the first difference;
- `Value.canonical`, in which every zero at any depth is positive, with `order_eq_iff_canonical`
  and `hashFeed_canonical`, by which the order and the hash see no more of a value;
- `LawfullyOrdered`, what keys of sorted and of hashed collections have to satisfy, and
  `LawfullyOrdered.of_canonical`, by which it is enough that the order sees canonical forms only;
- `Value.lawfullyOrdered`.
-/

namespace DecisionNetwork

namespace Binary64

/-- Words with a sign are ranked downwards and below those without. -/
theorem toNat_rank (number : Binary64) :
    number.rank.toNat =
      if number.isNegative then 2 ^ 64 - 1 - number.bits.toNat else number.bits.toNat + 2 ^ 63 := by
  have bounded := number.bits.toNat_lt
  unfold rank
  split
  next =>
      rw [UInt64.toNat_sub_of_le _ _ (UInt64.le_iff_toNat_le.2 (Nat.le_of_lt_succ bounded))]
      rfl
  next nonnegative =>
      have below : number.bits.toNat < 2 ^ 63 := by
        simpa [isNegative, signBit, UInt64.le_iff_toNat_le] using nonnegative
      have isSign : signBit.toNat = 2 ^ 63 := rfl
      rw [UInt64.toNat_add, isSign, Nat.mod_eq_of_lt (by omega)]

theorem rank_injective {left right : Binary64} (same : left.rank = right.rank) : left = right := by
  have ranks := congrArg UInt64.toNat same
  have leftBounded := left.bits.toNat_lt
  have rightBounded := right.bits.toNat_lt
  have sign (number : Binary64) : number.isNegative = true ↔ 2 ^ 63 ≤ number.bits.toNat := by
    simp [isNegative, signBit, UInt64.le_iff_toNat_le]
  rw [toNat_rank, toNat_rank] at ranks
  have sameWord : left.bits.toNat = right.bits.toNat := by
    simp only [sign] at ranks
    split at ranks <;> split at ranks <;> omega
  exact congrArg Binary64.mk (UInt64.toNat_inj.1 sameWord)

/-- Numbers compare equal if and only if they are the same once both zeros are. -/
theorem compare_eq_iff {left right : Binary64} :
    compare left right = .eq ↔ left.canonical = right.canonical := by
  show compare left.canonical.rank right.canonical.rank = .eq ↔ _
  rw [Std.LawfulEqOrd.compare_eq_iff_eq]
  exact ⟨rank_injective, congrArg rank⟩

@[simp] theorem canonical_canonical (number : Binary64) :
    number.canonical.canonical = number.canonical := by
  by_cases isZero : number.isZero = true
  · rw [show number.canonical = zero from if_pos isZero]
    rfl
  · rw [show number.canonical = number from if_neg isZero, canonical, if_neg isZero]

theorem compare_list_eq_iff {lefts rights : List Binary64} :
    compare lefts rights = .eq ↔ lefts.map canonical = rights.map canonical := by
  induction lefts generalizing rights with
  | nil => cases rights <;> simp
  | cons left lefts inductionHypothesis =>
      cases rights with
      | nil => simp
      | cons right rights =>
          rw [List.compare_cons_cons, Ordering.then_eq_eq, compare_eq_iff, inductionHypothesis,
            List.map_cons, List.map_cons, List.cons.injEq]

end Binary64

/-- Sequences compare as the first pair of items that differ does, and by their lengths if there is
none. -/
theorem compare_eq_firstDifference {κ : Type} [Ord κ] (lefts rights : List κ) :
    compare lefts rights =
      ((List.zipWith compare lefts rights).find? (· ≠ .eq)).getD
        (compare lefts.length rights.length) := by
  induction lefts generalizing rights with
  | nil =>
      cases rights with
      | nil => rfl
      | cons right rights => exact (Nat.compare_eq_lt.2 (Nat.succ_pos _)).symm
  | cons left lefts inductionHypothesis =>
      cases rights with
      | nil => exact (Nat.compare_eq_gt.2 (Nat.succ_pos _)).symm
      | cons right rights =>
          rw [List.compare_cons_cons, List.zipWith_cons_cons, List.find?_cons]
          cases first : compare left right with
          | eq => simpa [Nat.compare_eq_ite_lt] using inductionHypothesis rights
          | lt => rfl
          | gt => rfl

/-- What keys of sorted and of hashed collections have to satisfy: a total order that finds no
difference exactly between equal keys, which are those with the same canonical form, and the same
input to the hash for these. -/
structure LawfullyOrdered {κ τ : Type} [Ord κ] [BEq κ] (canonical : κ → κ) (feed : κ → List τ) :
    Prop where
  reflexive (key : κ) : compare key key = .eq
  total (left right : κ) : (compare left right).isLE ∨ (compare right left).isLE
  reversed (left right : κ) : compare left right = (compare right left).swap
  antisymmetric {left right : κ} (below : (compare left right).isLE)
    (above : (compare right left).isLE) : (left == right) = true
  transitive {first second third : κ} (left : (compare first second).isLE)
    (right : (compare second third).isLE) : (compare first third).isLE
  equal_iff_compare (left right : κ) : (left == right) = true ↔ compare left right = .eq
  equal_iff_canonical (left right : κ) :
    (left == right) = true ↔ canonical left = canonical right
  feed_eq {left right : κ} (equal : (left == right) = true) : feed left = feed right

/-- An order in which keys are equal when their canonical forms are, and a hash that reads no more
than the canonical form. -/
theorem LawfullyOrdered.of_canonical {κ τ : Type} [Ord κ] [BEq κ] [Std.TransOrd κ]
    {canonical : κ → κ} {feed : κ → List τ}
    (equal_iff_compare : ∀ left right : κ, (left == right) = true ↔ compare left right = .eq)
    (compare_iff_canonical : ∀ left right : κ,
      compare left right = .eq ↔ canonical left = canonical right)
    (feed_canonical : ∀ key, feed (canonical key) = feed key) :
    LawfullyOrdered canonical feed where
  reflexive _ := Std.ReflCmp.compare_self
  total left right := by
    have reversed : compare right left = (compare left right).swap := Std.OrientedCmp.eq_swap
    rw [reversed]
    cases compare left right <;> simp
  reversed _ _ := Std.OrientedCmp.eq_swap
  antisymmetric below above :=
    (equal_iff_compare _ _).2 (Std.OrientedCmp.isLE_antisymm below above)
  transitive := Std.TransCmp.isLE_trans
  equal_iff_compare := equal_iff_compare
  equal_iff_canonical left right :=
    (equal_iff_compare left right).trans (compare_iff_canonical left right)
  feed_eq {left right} equal := by
    have sameForm := (compare_iff_canonical left right).1 ((equal_iff_compare left right).1 equal)
    rw [← feed_canonical left, sameForm, feed_canonical right]

namespace Value

mutual

/-- The value with every zero in it positive. -/
def canonical : Value → Value
  | .number double => .number double.canonical
  | .vector numbers => .vector (numbers.map Binary64.canonical)
  | .list items => .list (canonicalItems items)
  | .absent => .absent
  | .boolean flag => .boolean flag
  | .text characters => .text characters

def canonicalItems : List Value → List Value
  | [] => []
  | item :: items => canonical item :: canonicalItems items

end

theorem kind_canonical (value : Value) : value.canonical.kind = value.kind := by
  cases value <;> rfl

/-- Values of one kind other than lists. -/
theorem order_eq_iff_canonical_of_not_list {left right : Value} (notList : left.kind ≠ 5)
    (sameKind : left.kind = right.kind) :
    order left right = .eq ↔ left.canonical = right.canonical := by
  cases left <;> cases right <;> simp [kind] at notList sameKind
  case absent.absent => simp [order]
  case boolean.boolean => simp [order, canonical]
  case number.number => simp [order, canonical, Binary64.compare_eq_iff]
  case vector.vector => simp [order, canonical, Binary64.compare_list_eq_iff]
  case text.text => simp [order, canonical]

mutual

/-- The order finds no difference exactly between values with the same canonical form. -/
theorem order_eq_iff_canonical (left right : Value) :
    order left right = .eq ↔ left.canonical = right.canonical := by
  by_cases sameKind : left.kind = right.kind
  · match left, right with
    | .list lefts, .list rights =>
        rw [order, canonical, canonical, orderItems_eq_iff_canonical, Value.list.injEq]
    | .absent, _ | .boolean _, _ | .number _, _ | .vector _, _ | .text _, _ =>
        exact order_eq_iff_canonical_of_not_list (by simp [kind]) sameKind
  · rw [order_of_kind_ne sameKind, Nat.compare_eq_eq]
    refine iff_of_false sameKind fun sameForm => sameKind ?_
    rw [← kind_canonical left, sameForm, kind_canonical]

theorem orderItems_eq_iff_canonical : ∀ lefts rights : List Value,
    orderItems lefts rights = .eq ↔ canonicalItems lefts = canonicalItems rights
  | [], [] => by simp [orderItems, canonicalItems]
  | [], _ :: _ => by simp [orderItems, canonicalItems]
  | _ :: _, [] => by simp [orderItems, canonicalItems]
  | left :: lefts, right :: rights => by
      rw [orderItems, Ordering.then_eq_eq, order_eq_iff_canonical left right,
        orderItems_eq_iff_canonical lefts rights, canonicalItems, canonicalItems, List.cons.injEq]

end

theorem hashWord_canonical (number : Binary64) : hashWord number.canonical = hashWord number := by
  rw [hashWord, Binary64.canonical_canonical, hashWord]

theorem length_canonicalItems : ∀ items : List Value, (canonicalItems items).length = items.length
  | [] => rfl
  | _ :: items => congrArg Nat.succ (length_canonicalItems items)

mutual

/-- Hashing reads no more of a value than its canonical form. -/
theorem hashFeed_canonical : ∀ value : Value, value.canonical.hashFeed = value.hashFeed
  | .absent | .boolean _ | .text _ => rfl
  | .number double => by rw [canonical, hashFeed, hashFeed, hashWord_canonical]
  | .vector numbers => by
      rw [canonical, hashFeed, hashFeed, List.length_map, List.map_map]
      simp only [Function.comp_def, hashWord_canonical]
  | .list items => by
      rw [canonical, hashFeed, hashFeed, length_canonicalItems, hashFeedItems_canonical items]

theorem hashFeedItems_canonical : ∀ items : List Value,
    hashFeedItems (canonicalItems items) = hashFeedItems items
  | [] => rfl
  | item :: items => by
      rw [canonicalItems, hashFeedItems, hashFeedItems, hashFeed_canonical item,
        hashFeedItems_canonical items]

end

theorem lawfullyOrdered : LawfullyOrdered canonical hashFeed :=
  .of_canonical (fun _ _ => beq_iff_compare_eq) order_eq_iff_canonical hashFeed_canonical

end Value

end DecisionNetwork
