import DecisionNetwork.Table.Categorical

/-!
Contract: utilities of assignments.

Owns:
- `UtilityTable`, rows in assignment order;
- `utility`, which looks up an assignment restricted to the variables of the table;
- `best?`, the first of the rows with the greatest utility.
-/

namespace DecisionNetwork

/-- A utility for each of several assignments. -/
structure UtilityTable (α : Type) where
  rows : SortedMap Assignment α

namespace UtilityTable

variable {α : Type}

def empty : UtilityTable α := ⟨.empty⟩

/-- Sets the utility of an assignment. -/
def set (table : UtilityTable α) (assignment : Assignment) (utility : α) : UtilityTable α :=
  ⟨table.rows.insert assignment utility⟩

/-- The rows of a list, set one after the other. -/
def ofList (rows : List (Assignment × α)) : UtilityTable α :=
  rows.foldl (fun table row => table.set row.1 row.2) empty

def toList (table : UtilityTable α) : List (Assignment × α) := table.rows.toList

def get? (table : UtilityTable α) (assignment : Assignment) : Option α :=
  table.rows.get? assignment

def hasRow (table : UtilityTable α) (assignment : Assignment) : Bool :=
  table.rows.contains assignment

/-- The variables bound in any row. -/
def names (table : UtilityTable α) : SortedSet String :=
  .ofList (table.rows.keys.flatMap Assignment.names)

def size (table : UtilityTable α) : Nat := table.rows.size

def isEmpty (table : UtilityTable α) : Bool := table.rows.isEmpty

variable [Scalar α]

/-- The utility of an assignment, zero if it has no row. -/
def row (table : UtilityTable α) (assignment : Assignment) : α :=
  (table.get? assignment).getD Scalar.zero

/-- The utility of an assignment of any variables. -/
def utility (table : UtilityTable α) (input : Assignment) : α :=
  table.row (input.restrict table.names.toList)

def best? (table : UtilityTable α) : Option (Assignment × α) := Table.best? table.toList

def display (table : UtilityTable Binary64) : String := Table.display "U" table.toList

end UtilityTable

end DecisionNetwork
