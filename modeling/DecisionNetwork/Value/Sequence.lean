import DecisionNetwork.Value.Order

/-!
Contract: sequences of values, and what values hold as sequences.

Owns:
- `length` and `subValues`, the views of a value as a sequence;
- `contains`: an item of a list, a number of a vector, or a part of a text;
- `concatenate`, which joins texts with a space; an absent value changes nothing;
- `distinct`, the values of a list up to `==`, with `distinct_pairwise`, and `sorted`.
-/

namespace DecisionNetwork.Value

/-- Characters of a text, items of a vector or list, nothing for `absent` and one otherwise. -/
def length : Value → Nat
  | .absent => 0
  | .boolean _ | .number _ => 1
  | .vector numbers => numbers.length
  | .text characters => characters.length
  | .list items => items.length

/-- The values inside a vector or list. -/
def subValues : Value → List Value
  | .vector numbers => numbers.map .number
  | .list items => items
  | _ => []

/-- Whether a text occurs inside another. -/
def occursIn (part whole : List Char) : Bool :=
  match whole with
  | [] => part.isEmpty
  | _ :: rest => part.isPrefixOf whole || occursIn part rest

def contains : Value → Value → Bool
  | .list items, other => items.contains other
  | .vector numbers, .number double =>
    numbers.any fun number => number.canonical == double.canonical
  | .text whole, .text part => occursIn part.toList whole.toList
  | _, _ => false

/-- Texts joined by a space. Values that are neither texts nor absent have no concatenation. -/
def concatenate : Value → Value → Value
  | .text left, .text right => .text (left ++ " " ++ right)
  | .absent, right => right
  | left, .absent => left
  | _, _ => .absent

/-- The values of a list up to `==`, each where it occurs first. -/
def distinct (values : List Value) : List Value :=
  values.foldl (fun seen value => if seen.contains value then seen else seen ++ [value]) []

/-- No two values of the list of distinct ones are equal. -/
theorem distinct_pairwise (values : List Value) :
    (distinct values).Pairwise fun left right => compare left right ≠ .eq := by
  suffices step : ∀ seen : List Value,
      (seen.Pairwise fun left right => compare left right ≠ .eq) →
      (values.foldl (fun seen value => if seen.contains value then seen else seen ++ [value])
        seen).Pairwise fun left right => compare left right ≠ .eq from
    step [] List.Pairwise.nil
  induction values with
  | nil => exact fun _ apart => apart
  | cons value rest inductionHypothesis =>
      intro seen apart
      refine inductionHypothesis _ ?_
      dsimp only
      split
      next => exact apart
      next new =>
          refine List.pairwise_append.2 ⟨apart, List.pairwise_singleton _ _, ?_⟩
          intro earlier member last isLast same
          cases List.mem_singleton.1 isLast
          rw [List.contains_eq_any_beq, List.any_eq_true] at new
          exact new ⟨earlier, member, beq_iff_compare_eq.2 (Std.OrientedCmp.eq_symm same)⟩

/-- The values in ascending order; values that are `==` stay in the order given. -/
def sorted (values : List Value) : List Value :=
  values.mergeSort fun left right => (order left right).isLE

end DecisionNetwork.Value
