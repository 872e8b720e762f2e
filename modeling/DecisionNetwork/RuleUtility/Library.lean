import DecisionNetwork.RuleUtility.Basic

/-!
Contract: rule utilities that several nodes share.

Owns:
- `RuleLibrary`, rule utilities known by their handles, the places where they were added;
- `evaluate`, which returns the library with the utility's new state.

A handle without a utility scores zero.
-/

namespace DecisionNetwork

/-- Rule utilities in the order in which they were added. -/
structure RuleLibrary (α : Type) where
  utilities : List (RuleUtility α)

namespace RuleLibrary

variable {α : Type}

def empty : RuleLibrary α := ⟨[]⟩

/-- The library with one more utility, and its handle. -/
def add (library : RuleLibrary α) (utility : RuleUtility α) : Nat × RuleLibrary α :=
  (library.utilities.length, ⟨library.utilities ++ [utility]⟩)

def get? (library : RuleLibrary α) (handle : Nat) : Option (RuleUtility α) :=
  library.utilities[handle]?

/-- Changes the utility of a handle. -/
def modify (library : RuleLibrary α) (handle : Nat) (change : RuleUtility α → RuleUtility α) :
    RuleLibrary α :=
  ⟨library.utilities.modify handle change⟩

/-- The utility of an assignment under the rule of a handle. -/
def evaluate [Scalar α] (library : RuleLibrary α) (handle : Nat) (full : Assignment) :
    α × RuleLibrary α :=
  match library.get? handle with
  | some utility =>
    let (result, next) := utility.evaluate full
    (result, library.modify handle fun _ => next)
  | none => (Scalar.zero, library)

end RuleLibrary

end DecisionNetwork
