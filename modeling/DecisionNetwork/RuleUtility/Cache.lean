import DecisionNetwork.Table.Utility

/-!
Contract: utilities kept for the inputs of a rule and the actions taken.

Owns:
- `UtilityCache`, disabled or a utility table for each input;
- `get?`, `store`, `clear`, `size` and `fresh`.

A disabled cache stays empty whatever is stored.
-/

namespace DecisionNetwork

inductive UtilityCache (α : Type) where
  | disabled
  | enabled (tables : SortedMap Assignment (UtilityTable α))

namespace UtilityCache

-- The zero that a sum starts with is the numeral, whatever else is imported.
attribute [local instance (high)] Zero.ofOfNat0

variable {α : Type}

/-- An empty cache, enabled or not. -/
def make (enabled : Bool) : UtilityCache α := if enabled then .enabled .empty else .disabled

def isEnabled : UtilityCache α → Bool
  | .disabled => false
  | .enabled _ => true

def get? (cache : UtilityCache α) (input actions : Assignment) : Option α :=
  match cache with
  | .disabled => none
  | .enabled tables => (tables.get? input).bind fun table => table.get? actions

def store (cache : UtilityCache α) (input actions : Assignment) (utility : α) : UtilityCache α :=
  match cache with
  | .disabled => .disabled
  | .enabled tables =>
    .enabled (tables.insert input (((tables.get? input).getD .empty).set actions utility))

/-- An empty cache of the same kind. -/
def fresh (cache : UtilityCache α) : UtilityCache α := make cache.isEnabled

def clear (cache : UtilityCache α) : UtilityCache α := cache.fresh

/-- The number of utilities kept. -/
def size : UtilityCache α → Nat
  | .disabled => 0
  | .enabled tables => (tables.values.map UtilityTable.size).sum

def isEmpty (cache : UtilityCache α) : Bool := cache.size == 0

end UtilityCache

end DecisionNetwork
