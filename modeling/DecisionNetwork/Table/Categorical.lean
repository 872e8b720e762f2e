import DecisionNetwork.Assignment.Basic
import DecisionNetwork.Number.Notation
import DecisionNetwork.Number.Scalar

/-!
Contract: probabilities of assignments without a condition.

Owns:
- `CategoricalTable`, rows in assignment order, and the probability of a row, zero if absent;
- `best?`, the first of the rows with the greatest probability;
- `isWellFormed`, a total of one within the tolerance;
- `Table.best?`, which `UtilityTable` shares.

A table is generic in its numbers; only the display asks for double precision.
-/

namespace DecisionNetwork

namespace Table

variable {α : Type} [Scalar α]

/-- How far the total of a well-formed distribution may be from one: `1e-6`. -/
def tolerance : α := Scalar.ofBinary64 ⟨0x3eb0c6f7a0b5ed8d⟩

/-- A row that is not beaten: the row found so far stays as long as it is at least as great. -/
def best? (rows : List (Assignment × α)) : Option (Assignment × α) :=
  rows.foldl (fun best row =>
    match best with
    | some found => if Scalar.le row.2 found.2 then some found else some row
    | none => some row) none

/-- The lines of a table, each with a letter, the row in parentheses and its number. -/
def display (letter : String) (rows : List (Assignment × Binary64)) : String :=
  String.join (rows.map fun row =>
    letter ++ "(" ++ row.1.display ++ "):=" ++ row.2.plain ++ "\n")

end Table

/-- A probability for each of several assignments. -/
structure CategoricalTable (α : Type) where
  rows : SortedMap Assignment α

namespace CategoricalTable

variable {α : Type}

def empty : CategoricalTable α := ⟨.empty⟩

/-- The rows of a list; of several equal assignments the last row is kept. -/
def ofList (rows : List (Assignment × α)) : CategoricalTable α := ⟨.ofList rows⟩

def toList (table : CategoricalTable α) : List (Assignment × α) := table.rows.toList

/-- Sets the probability of a row. -/
def add (table : CategoricalTable α) (head : Assignment) (probability : α) :
    CategoricalTable α :=
  ⟨table.rows.insert head probability⟩

def size (table : CategoricalTable α) : Nat := table.rows.size

def isEmpty (table : CategoricalTable α) : Bool := table.rows.isEmpty

/-- The distinct values of a variable in the rows, in order. -/
def values (table : CategoricalTable α) (name : String) : List Value :=
  (SortedSet.ofList (table.rows.keys.filterMap fun head => head.value? name)).toList

variable [Scalar α]

/-- The probability of a row, zero if absent. -/
def probability (table : CategoricalTable α) (head : Assignment) : α :=
  (table.rows.get? head).getD Scalar.zero

def total (table : CategoricalTable α) : α := Scalar.sum table.rows.values

def isWellFormed (table : CategoricalTable α) : Bool :=
  Scalar.isWithin Table.tolerance table.total (Scalar.ofNat 1)

def best? (table : CategoricalTable α) : Option (Assignment × α) := Table.best? table.toList

def display (table : CategoricalTable Binary64) : String := Table.display "P" table.toList

end CategoricalTable

end DecisionNetwork
