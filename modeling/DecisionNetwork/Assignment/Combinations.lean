import DecisionNetwork.Assignment.Basic
import DecisionNetwork.Value.Sequence

/-!
Contract: all assignments over given domains.

Owns:
- `Domains`, the values that each of several variables may take;
- `Domains.combinations`, one assignment for each choice of values, variables in order and the
  last one changing fastest;
- `Domains.count`, the number of combinations, held at the greatest 64-bit number.

A value that is repeated in a domain counts once. Without variables there is one assignment, and
with an empty domain none.
-/

namespace DecisionNetwork

/-- The values that variables may take. -/
abbrev Domains := SortedMap String (List Value)

namespace Domains

-- A power of naturals is the one of the core library, whatever else is imported.
attribute [local instance (high)] instPowNat

/-- The greatest count that is told apart. -/
def countLimit : Nat := 2 ^ (64 : Nat) - 1

/-- The number of combinations, held at the limit after every variable. -/
def count (domains : Domains) : Nat :=
  domains.values.foldl (fun count domain => min (count * (Value.distinct domain).length) countLimit)
    1

/-- Every assignment extended by every value of one more variable. -/
def extend (assignments : List Assignment) (name : String) (domain : List Value) :
    List Assignment :=
  assignments.flatMap fun assignment =>
    (Value.distinct domain).map fun value => assignment.bind name value

/-- Every assignment that picks one value for each variable. -/
def combinations (domains : Domains) : List Assignment :=
  domains.toList.foldl (fun assignments entry => extend assignments entry.1 entry.2)
    [Assignment.empty]

end Domains

end DecisionNetwork
