import DecisionNetwork.Number.Scalar
import Mathlib.Algebra.BigOperators.Group.List.Basic
import Mathlib.Algebra.Order.Field.Rat

/-!
Contract: the arithmetic of the engine over exact rational numbers.

Owns:
- `Binary64.toRat`, the number that a finite word stands for;
- the instance of `Scalar` for `ℚ`, in which a logarithm is kept as the number it is the logarithm
  of, so that the power of a sum of logarithms is the product of the numbers;
- `sum_eq_sum` and `productByLogs_eq_prod`, which turn the folds of the engine into list sums and
  products.
-/

namespace DecisionNetwork

/-- The number of a finite word, zero for any other word. -/
def Binary64.toRat (number : Binary64) : ℚ :=
  if number.isFinite then
    (if number.isNegative then -1 else 1) * number.significand * 2 ^ number.exponent
  else 0

instance : Scalar ℚ where
  zero := 0
  add := (· + ·)
  sub := (· - ·)
  mul := (· * ·)
  div := (· / ·)
  ofNat number := number
  ofBinary64 := Binary64.toRat
  le left right := decide (left ≤ right)
  lt left right := decide (left < right)
  isFinite _ := true
  Log := ℚ
  logOfOne := 1
  addLog := (· * ·)
  log10 number := number
  exp10 power := power

namespace Scalar

theorem sum_eq_sum (numbers : List ℚ) : Scalar.sum numbers = numbers.sum :=
  List.sum_eq_foldl.symm

theorem productByLogs_eq_prod (numbers : List ℚ) : Scalar.productByLogs numbers = numbers.prod :=
  List.prod_eq_foldl.symm

end Scalar

end DecisionNetwork
