import DecisionNetwork.Number.Binary64

/-!
Contract: the arithmetic that tables, rules and queries use.

Owns:
- `Scalar`, the operations on numbers together with those on their logarithms;
- `Scalar.sum`, the sum of a list from left to right;
- `Scalar.productByLogs`, the product of a list formed as the power of a sum of logarithms;
- the instance for double-precision numbers.

The engine is a function of the arithmetic, so it can be read over exact numbers as well.
-/

namespace DecisionNetwork

/-- Arithmetic on numbers of type `α`, and on their decimal logarithms of type `Log`. -/
class Scalar (α : Type) where
  zero : α
  add : α → α → α
  sub : α → α → α
  mul : α → α → α
  div : α → α → α
  ofNat : Nat → α
  ofBinary64 : Binary64 → α
  le : α → α → Bool
  lt : α → α → Bool
  isFinite : α → Bool
  Log : Type
  logOfOne : Log
  addLog : Log → Log → Log
  log10 : α → Log
  exp10 : Log → α

namespace Scalar

variable {α : Type} [Scalar α]

/-- The sum of a list from left to right, starting with zero. -/
def sum (numbers : List α) : α := numbers.foldl add zero

/-- The power of ten of the sum, from left to right, of the logarithms. -/
def productByLogs (numbers : List α) : α :=
  exp10 (numbers.foldl (fun total number => addLog total (log10 number)) logOfOne)

/-- Whether two numbers are less than a bound apart. -/
def isWithin (bound left right : α) : Bool := lt (sub left right) bound && lt (sub right left) bound

end Scalar

instance : Scalar Binary64 where
  zero := .zero
  add := .add
  sub := .sub
  mul := .mul
  div := .div
  ofNat := .ofNat
  ofBinary64 := id
  le := Binary64.le
  lt := Binary64.lt
  isFinite := Binary64.isFinite
  Log := Binary64
  logOfOne := .zero
  addLog := .add
  log10 := .log10
  exp10 := .exp10

end DecisionNetwork
