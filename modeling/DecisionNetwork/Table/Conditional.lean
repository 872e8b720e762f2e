import DecisionNetwork.Table.Categorical

/-!
Contract: probabilities of assignments under conditions, and local distributions in general.

Owns:
- `ConditionalTable`, one categorical table for each condition; an unknown condition gives
  probability zero;
- `Distribution`, either kind of table, as it belongs to a variable of a network.
-/

namespace DecisionNetwork

/-- A categorical table for each of several conditions. -/
structure ConditionalTable (α : Type) where
  tables : SortedMap Assignment (CategoricalTable α)

namespace ConditionalTable

variable {α : Type}

def empty : ConditionalTable α := ⟨.empty⟩

/-- Sets the table that holds under a condition. -/
def add (conditional : ConditionalTable α) (condition : Assignment)
    (table : CategoricalTable α) : ConditionalTable α :=
  ⟨conditional.tables.insert condition table⟩

/-- The tables of a list, set one after the other. -/
def ofList (tables : List (Assignment × CategoricalTable α)) : ConditionalTable α :=
  tables.foldl (fun conditional entry => conditional.add entry.1 entry.2) empty

def table? (conditional : ConditionalTable α) (condition : Assignment) :
    Option (CategoricalTable α) :=
  conditional.tables.get? condition

def conditions (conditional : ConditionalTable α) : List Assignment := conditional.tables.keys

def size (conditional : ConditionalTable α) : Nat := conditional.tables.size

def isEmpty (conditional : ConditionalTable α) : Bool := conditional.tables.isEmpty

/-- The distinct values of a variable in all tables, in order. -/
def values (conditional : ConditionalTable α) (name : String) : List Value :=
  (SortedSet.ofList (conditional.tables.values.flatMap fun table => table.values name)).toList

variable [Scalar α]

/-- The probability of a row under a condition, zero if either is absent. -/
def probability (conditional : ConditionalTable α) (condition head : Assignment) : α :=
  match conditional.table? condition with
  | some table => table.probability head
  | none => Scalar.zero

/-- Whether the table of every condition is well-formed. -/
def isWellFormed (conditional : ConditionalTable α) : Bool :=
  conditional.tables.values.all CategoricalTable.isWellFormed

end ConditionalTable

/-- The local distribution of a variable. -/
inductive Distribution (α : Type) where
  | categorical (table : CategoricalTable α)
  | conditional (tables : ConditionalTable α)

namespace Distribution

variable {α : Type}

/-- The distinct values of a variable, in order. -/
def values (distribution : Distribution α) (name : String) : List Value :=
  match distribution with
  | .categorical table => table.values name
  | .conditional tables => tables.values name

variable [Scalar α]

/-- The probability of a row under a condition, which a categorical table ignores. -/
def probability (distribution : Distribution α) (condition head : Assignment) : α :=
  match distribution with
  | .categorical table => table.probability head
  | .conditional tables => tables.probability condition head

def isWellFormed (distribution : Distribution α) : Bool :=
  match distribution with
  | .categorical table => table.isWellFormed
  | .conditional tables => tables.isWellFormed

end Distribution

end DecisionNetwork
