import DecisionNetwork.SortedMap.Basic
import DecisionNetwork.Value.Order

/-!
Contract: bindings of variables to values.

Owns:
- `Assignment` with the operations that bind, merge, restrict and rename;
- `contains` and `consistentWith`, which compare assignments binding by binding;
- the total order of assignments: lexicographic over the bindings in variable order;
- `display`, the bindings joined by ` ^ `.

A trailing prime marks the next-state copy of a variable.
-/

namespace DecisionNetwork

/-- Values bound to variables, in variable order. -/
structure Assignment where
  bindings : SortedMap String Value
deriving Repr, Inhabited

namespace Assignment

def empty : Assignment := ⟨.empty⟩

/-- The bindings of a list; a later one for the same variable wins. -/
def ofList (bindings : List (String × Value)) : Assignment := ⟨.ofList bindings⟩

def toList (assignment : Assignment) : List (String × Value) := assignment.bindings.toList

/-- Binds a variable in place of any earlier binding. -/
def bind (assignment : Assignment) (name : String) (value : Value) : Assignment :=
  ⟨assignment.bindings.insert name value⟩

def single (name : String) (value : Value) : Assignment := empty.bind name value

/-- All bindings of both; those of `overrides` win. -/
def compose (base overrides : Assignment) : Assignment :=
  ⟨base.bindings.insertMany overrides.toList⟩

/-- Keeps the given variables. -/
def restrict (assignment : Assignment) (names : List String) : Assignment :=
  ⟨assignment.bindings.filterKeys names.contains⟩

/-- Drops the given variables. -/
def without (assignment : Assignment) (names : List String) : Assignment :=
  ⟨assignment.bindings.filterKeys fun name => !names.contains name⟩

def value? (assignment : Assignment) (name : String) : Option Value :=
  assignment.bindings.get? name

/-- The bound value, absent where nothing is bound. -/
def valueOrAbsent (assignment : Assignment) (name : String) : Value :=
  (assignment.value? name).getD .absent

def binds (assignment : Assignment) (name : String) : Bool :=
  assignment.bindings.contains name

def names (assignment : Assignment) : List String := assignment.bindings.keys

def size (assignment : Assignment) : Nat := assignment.bindings.size

def isEmpty (assignment : Assignment) : Bool := assignment.bindings.isEmpty

/-- Whether every binding of `part` is present with an equal value. -/
def contains (whole part : Assignment) : Bool :=
  part.toList.all fun binding =>
    match whole.value? binding.1 with
    | some value => value == binding.2
    | none => false

/-- Whether both agree on every variable that both bind. -/
def consistentWith (left right : Assignment) : Bool :=
  right.toList.all fun binding =>
    match left.value? binding.1 with
    | some value => value == binding.2
    | none => true

/-- The mark of a next-state variable. -/
def primeMark : Char := '\x27'

/-- A variable without its trailing prime, if it has one. -/
def stripPrime (name : String) : String :=
  if name.toList.getLast? = some primeMark then String.ofList name.toList.dropLast
  else name

/-- Strips one trailing prime from every variable. Of two variables that become one, the value of
the later, which is the primed one, is kept. -/
def removePrimes (assignment : Assignment) : Assignment :=
  ofList (assignment.toList.map fun binding => (stripPrime binding.1, binding.2))

/-- Binds under `new` what was bound under `old`. -/
def renamed (assignment : Assignment) (old new : String) : Assignment :=
  ofList (assignment.toList.map fun binding =>
    (if binding.1 = old then new else binding.1, binding.2))

/-- A binding is ordered by its variable and then by its value. -/
def orderBinding : String × Value → String × Value → Ordering :=
  compareLex (compareOn Prod.fst) (compareOn Prod.snd)

instance : Std.TransCmp orderBinding :=
  inferInstanceAs (Std.TransCmp (compareLex (compareOn Prod.fst) (compareOn Prod.snd)))

def order (left right : Assignment) : Ordering :=
  List.compareLex orderBinding left.toList right.toList

instance : Ord Assignment := ⟨order⟩

instance : BEq Assignment := ⟨fun left right => (order left right).isEq⟩

theorem order_swap (left right : Assignment) : order left right = (order right left).swap :=
  @Std.OrientedCmp.eq_swap _ (List.compareLex orderBinding) _ left.toList right.toList

theorem order_trans (first second third : Assignment) (left : (order first second).isLE)
    (right : (order second third).isLE) : (order first third).isLE :=
  @Std.TransCmp.isLE_trans _ (List.compareLex orderBinding) _ first.toList second.toList
    third.toList left right

instance : Std.TransOrd Assignment where
  eq_swap := order_swap _ _
  isLE_trans := order_trans _ _ _

/-- What hashing an assignment consumes: the count of bindings, then each of them. -/
def hashFeed (assignment : Assignment) : List Value.HashToken :=
  .size assignment.size ::
    assignment.toList.flatMap fun binding => .text binding.1 :: binding.2.hashFeed

/-- The bindings joined by ` ^ `. -/
def display (assignment : Assignment) : String :=
  " ^ ".intercalate (assignment.toList.map fun binding => binding.1 ++ "=" ++ binding.2.display)

end Assignment

end DecisionNetwork
