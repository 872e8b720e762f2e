import DecisionNetwork.Value.Basic

/-!
Contract: the total order of values, the equality it induces and the sequence fed to hashing.

Owns:
- `Value.order`: kinds in the order absent, boolean, number, vector, text, list, and contents
  within a kind, sequences lexicographically with the shorter first;
- `==` on values, which holds where the order finds no difference;
- `Value.hashFeed`, which depends on a value only up to `==`.

Numbers are ordered with both zeros as one, so `==` forgets the sign of a zero at every depth.
-/

namespace DecisionNetwork.Value

/-- The place of a value's kind among the kinds. -/
def kind : Value → Nat
  | .absent => 0
  | .boolean _ => 1
  | .number _ => 2
  | .vector _ => 3
  | .text _ => 4
  | .list _ => 5

mutual

def order : Value → Value → Ordering
  | .boolean left, .boolean right => compare left right
  | .number left, .number right => compare left right
  | .vector left, .vector right => compare left right
  | .text left, .text right => compare left right
  | .list left, .list right => orderItems left right
  | left, right => compare left.kind right.kind

def orderItems : List Value → List Value → Ordering
  | [], [] => .eq
  | [], _ :: _ => .lt
  | _ :: _, [] => .gt
  | left :: lefts, right :: rights => (order left right).then (orderItems lefts rights)

end

instance : Ord Value := ⟨order⟩

instance : BEq Value := ⟨fun left right => (order left right).isEq⟩

theorem order_of_kind_ne {left right : Value} (differ : left.kind ≠ right.kind) :
    order left right = compare left.kind right.kind := by
  cases left <;> cases right <;> simp_all [order, kind]

/-- Values in ascending order have kinds in ascending order. -/
theorem kind_le_of_order_isLE {left right : Value} (ascending : (order left right).isLE) :
    left.kind ≤ right.kind := by
  by_cases same : left.kind = right.kind
  · exact Nat.le_of_eq same
  · rw [order_of_kind_ne same] at ascending
    exact Nat.isLE_compare.1 ascending

/-- The order of two values that are not both lists is reversed with them. -/
theorem order_swap_of_not_list {left right : Value} (notList : left.kind ≠ 5 ∨ right.kind ≠ 5) :
    order left right = (order right left).swap := by
  by_cases same : left.kind = right.kind
  · cases left <;> cases right <;> simp [kind] at same notList <;> simp only [order] <;>
      exact Std.OrientedOrd.eq_swap
  · rw [order_of_kind_ne same, order_of_kind_ne (Ne.symm same)]
    exact Std.OrientedOrd.eq_swap

mutual

theorem order_swap : ∀ left right : Value, order left right = (order right left).swap
  | .list lefts, right => by
      cases right with
      | list rights => simpa [order] using orderItems_swap lefts rights
      | _ => exact order_swap_of_not_list (by simp [kind])
  | .absent, _ => order_swap_of_not_list (by simp [kind])
  | .boolean _, _ => order_swap_of_not_list (by simp [kind])
  | .number _, _ => order_swap_of_not_list (by simp [kind])
  | .vector _, _ => order_swap_of_not_list (by simp [kind])
  | .text _, _ => order_swap_of_not_list (by simp [kind])

theorem orderItems_swap : ∀ left right : List Value,
    orderItems left right = (orderItems right left).swap
  | [], [] => rfl
  | [], _ :: _ => rfl
  | _ :: _, [] => rfl
  | left :: lefts, right :: rights => by
      simp only [orderItems, Ordering.swap_then]
      rw [order_swap left right, orderItems_swap lefts rights]

end

/-- The order of three values of one kind other than lists is transitive. -/
theorem order_trans_of_not_list {first second third : Value}
    (sameLeft : first.kind = second.kind) (sameRight : second.kind = third.kind)
    (notList : first.kind ≠ 5) (left : (order first second).isLE)
    (right : (order second third).isLE) : (order first third).isLE := by
  cases first <;> cases second <;> simp [kind] at sameLeft notList <;>
    cases third <;> simp [kind] at sameRight <;> simp only [order] at left right ⊢ <;>
    exact Std.TransOrd.isLE_trans left right

mutual

theorem order_trans (first second third : Value) (left : (order first second).isLE)
    (right : (order second third).isLE) : (order first third).isLE := by
  have kindsLeft := kind_le_of_order_isLE left
  have kindsRight := kind_le_of_order_isLE right
  by_cases apart : first.kind = third.kind
  · match first, second, third with
    | .list firsts, .list seconds, .list thirds =>
        simp only [order] at left right ⊢
        exact orderItems_trans firsts seconds thirds left right
    | .absent, _, _ | .boolean _, _, _ | .number _, _, _ | .vector _, _, _ | .text _, _, _ =>
        exact order_trans_of_not_list (by omega) (by omega) (by simp [kind]) left right
    | .list _, .absent, _ | .list _, .boolean _, _ | .list _, .number _, _
    | .list _, .vector _, _ | .list _, .text _, _ => simp [kind] at kindsLeft
    | .list _, .list _, .absent | .list _, .list _, .boolean _ | .list _, .list _, .number _
    | .list _, .list _, .vector _ | .list _, .list _, .text _ => simp [kind] at kindsRight
  · rw [order_of_kind_ne apart]
    exact Nat.isLE_compare.2 (by omega)
termination_by sizeOf first + sizeOf second + sizeOf third

theorem orderItems_trans (first second third : List Value)
    (left : (orderItems first second).isLE) (right : (orderItems second third).isLE) :
    (orderItems first third).isLE := by
  match first, second, third with
  | [], _, [] => rfl
  | [], _, _ :: _ => rfl
  | _ :: _, [], _ => simp [orderItems] at left
  | _ :: _, _ :: _, [] => simp [orderItems] at right
  | a :: as, b :: bs, c :: cs =>
      simp only [orderItems, Ordering.isLE_then_iff_and] at left right ⊢
      obtain ⟨headLeft, tailLeft⟩ := left
      obtain ⟨headRight, tailRight⟩ := right
      refine ⟨order_trans a b c headLeft headRight, ?_⟩
      by_cases less : order a c = .lt
      · exact Or.inl less
      · refine Or.inr ?_
        have same : order a c = .eq :=
          (Ordering.isLE_iff_eq_lt_or_eq_eq.1 (order_trans a b c headLeft headRight)).resolve_left
            less
        have back : (order c a).isLE := by rw [order_swap c a, same]; rfl
        have notLeft : order a b ≠ .lt := fun below => by
          have closed := order_trans b c a headRight back
          rw [order_swap b a, below] at closed
          exact absurd closed (by decide)
        have notRight : order b c ≠ .lt := fun below => by
          have closed := order_trans c a b back headLeft
          rw [order_swap c b, below] at closed
          exact absurd closed (by decide)
        exact orderItems_trans as bs cs (tailLeft.resolve_left notLeft)
          (tailRight.resolve_left notRight)
termination_by sizeOf first + sizeOf second + sizeOf third

end

instance : Std.TransOrd Value where
  eq_swap := order_swap _ _
  isLE_trans := order_trans _ _ _

/-- What hashing consumes: kinds, flags, words, sizes and texts. -/
inductive HashToken where
  | kind (place : Nat)
  | flag (flag : Bool)
  | word (bits : UInt64)
  | size (size : Nat)
  | text (characters : String)
deriving DecidableEq, Repr, Hashable

/-- The word of a number with both zeros as one. -/
def hashWord (number : Binary64) : HashToken := .word number.canonical.bits

mutual

/-- The sequence that hashing a value consumes; sequences announce their size. -/
def hashFeed : Value → List HashToken
  | .absent => [.kind 0]
  | .boolean flag => [.kind 1, .flag flag]
  | .number double => [.kind 2, hashWord double]
  | .vector numbers => .kind 3 :: .size numbers.length :: numbers.map hashWord
  | .text characters => [.kind 4, .text characters]
  | .list items => .kind 5 :: .size items.length :: hashFeedItems items

def hashFeedItems : List Value → List HashToken
  | [] => []
  | item :: items => hashFeed item ++ hashFeedItems items

end

instance : Hashable Value := ⟨fun value => hash value.hashFeed⟩

theorem beq_iff_compare_eq {left right : Value} :
    (left == right) = true ↔ compare left right = .eq :=
  Ordering.isEq_iff_eq_eq

end DecisionNetwork.Value
