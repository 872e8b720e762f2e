import DecisionNetwork.Proofs.Number.Exact
import Mathlib.Algebra.Order.Field.Basic
import Mathlib.Data.List.Induction

/-!
Contract: the arithmetic of the engine over exact rational numbers with infinities and with a mark
for results that are no number.

Owns:
- `Extended`, and the instance of `Scalar` for `Extended ℚ`. Special values follow the rules of
  double precision: opposite infinities have no sum, comparisons with an undefined number are
  false, and the logarithm of a negative number is undefined. There is one zero, taken as positive;
- `divOr`, division that is left open for all but positive finite divisors;
- `sum_finite`, by which finite numbers are added exactly;
- `nonneg_of_productByLogs_eq_finite` and `exists_of_sum_eq_finite`: whatever the factors are, no
  product formed by logarithms is below zero, and whatever a finite sum adds up is finite.

A logarithm of a positive number is kept as that number, so it is as exact as the number is.
-/

namespace DecisionNetwork

theorem Scalar.sum_append_singleton {α : Type} [Scalar α] (earlier : List α) (last : α) :
    Scalar.sum (earlier ++ [last]) = Scalar.add (Scalar.sum earlier) last :=
  List.foldl_append

/-- Numbers of some kind, both infinities, and a mark for what is no number. -/
inductive Extended (ν : Type) where
  | finite (exact : ν)
  | infinity (negative : Bool)
  | undefined
deriving DecidableEq, Repr

namespace Extended

/-- The sum where finite numbers are added in a given way. -/
def addBy {ν : Type} (add : ν → ν → ν) : Extended ν → Extended ν → Extended ν
  | .finite left, .finite right => .finite (add left right)
  | .finite _, .infinity negative => .infinity negative
  | .infinity negative, .finite _ => .infinity negative
  | .infinity left, .infinity right => if left = right then .infinity left else .undefined
  | _, _ => .undefined

def neg : Extended ℚ → Extended ℚ
  | .finite exact => .finite (-exact)
  | .infinity negative => .infinity !negative
  | .undefined => .undefined

def mul : Extended ℚ → Extended ℚ → Extended ℚ
  | .finite left, .finite right => .finite (left * right)
  | .finite exact, .infinity negative
  | .infinity negative, .finite exact =>
    if exact = 0 then .undefined else .infinity (negative ^^ decide (exact < 0))
  | .infinity left, .infinity right => .infinity (left ^^ right)
  | _, _ => .undefined

def div : Extended ℚ → Extended ℚ → Extended ℚ
  | .finite left, .finite right =>
    if right = 0 then if left = 0 then .undefined else .infinity (decide (left < 0))
    else .finite (left / right)
  | .finite _, .infinity _ => .finite 0
  | .infinity negative, .finite exact => .infinity (negative ^^ decide (exact < 0))
  | _, _ => .undefined

def le : Extended ℚ → Extended ℚ → Bool
  | .finite left, .finite right => decide (left ≤ right)
  | .finite _, .infinity negative => !negative
  | .infinity negative, .finite _ => negative
  | .infinity left, .infinity right => left || !right
  | _, _ => false

def lt : Extended ℚ → Extended ℚ → Bool
  | .finite left, .finite right => decide (left < right)
  | .finite _, .infinity negative => !negative
  | .infinity negative, .finite _ => negative
  | .infinity left, .infinity right => left && !right
  | _, _ => false

def isFinite {ν : Type} : Extended ν → Bool
  | .finite _ => true
  | _ => false

def ofBinary64 (number : Binary64) : Extended ℚ :=
  if number.isFinite then .finite number.toRat
  else if number.isNaN then .undefined
  else .infinity number.isNegative

/-- The logarithm, a finite one given by the positive number that it is the logarithm of. -/
def log10 : Extended ℚ → Extended { exact : ℚ // 0 < exact }
  | .finite exact =>
    if positive : 0 < exact then .finite ⟨exact, positive⟩
    else if exact = 0 then .infinity true
    else .undefined
  | .infinity false => .infinity false
  | _ => .undefined

/-- The number of which a logarithm is given. -/
def exp10 : Extended { exact : ℚ // 0 < exact } → Extended ℚ
  | .finite power => .finite power
  | .infinity true => .finite 0
  | .infinity false => .infinity false
  | .undefined => .undefined

instance : Scalar (Extended ℚ) where
  zero := .finite 0
  add := addBy (· + ·)
  sub left right := addBy (· + ·) left right.neg
  mul := mul
  div := div
  ofNat number := .finite number
  ofBinary64 := ofBinary64
  le := le
  lt := lt
  isFinite := isFinite
  Log := Extended { exact : ℚ // 0 < exact }
  logOfOne := .finite 1
  addLog := addBy (· * ·)
  log10 := log10
  exp10 := exp10

/-- The quotient by a positive finite number; by any other number, whatever else is given. -/
def divOr (other : Extended ℚ → Extended ℚ → Extended ℚ) (left right : Extended ℚ) : Extended ℚ :=
  match right with
  | .finite exact => if 0 < exact then left.div right else other left right
  | _ => other left right

theorem sum_finite (numbers : List ℚ) :
    Scalar.sum (numbers.map finite) = .finite numbers.sum := by
  induction numbers using List.reverseRecOn with
  | nil => rfl
  | append_singleton earlier last inductionHypothesis =>
      rw [List.map_append, List.map_singleton, Scalar.sum_append_singleton, inductionHypothesis,
        List.sum_append, List.sum_singleton]
      rfl

theorem divOr_of_pos (other : Extended ℚ → Extended ℚ → Extended ℚ) (left : Extended ℚ) {exact : ℚ}
    (positive : 0 < exact) : divOr other left (.finite exact) = left.div (.finite exact) :=
  if_pos positive

/-- Finite numbers between zero and one. -/
def IsProbability (number : Extended ℚ) : Prop :=
  ∃ exact, number = .finite exact ∧ 0 ≤ exact ∧ exact ≤ 1

theorem nonneg_of_exp10_eq_finite {power : Extended { exact : ℚ // 0 < exact }} {exact : ℚ}
    (same : exp10 power = .finite exact) : 0 ≤ exact := by
  cases power with
  | finite positive => exact finite.inj same ▸ positive.2.le
  | infinity negative =>
      cases negative with
      | true => exact (finite.inj same).le
      | false => cases same
  | undefined => cases same

/-- No product that is formed by logarithms is below zero. -/
theorem nonneg_of_productByLogs_eq_finite {numbers : List (Extended ℚ)} {exact : ℚ}
    (product : Scalar.productByLogs numbers = .finite exact) : 0 ≤ exact :=
  nonneg_of_exp10_eq_finite product

/-- A finite sum has finite parts. -/
theorem exists_of_add_eq_finite {left right : Extended ℚ} {total : ℚ}
    (sum : Scalar.add left right = .finite total) :
    ∃ leftExact rightExact, left = .finite leftExact ∧ right = .finite rightExact := by
  change addBy _ left right = _ at sum
  cases left <;> cases right <;> simp only [addBy] at sum
  case finite.finite leftExact rightExact => exact ⟨leftExact, rightExact, rfl, rfl⟩
  case infinity.infinity => split at sum <;> cases sum
  all_goals cases sum

/-- Nothing that was added to a finite total is infinite or undefined. -/
theorem exists_of_sum_eq_finite {numbers : List (Extended ℚ)} {total : ℚ}
    (sum : Scalar.sum numbers = .finite total) :
    ∃ exacts : List ℚ, numbers = exacts.map finite ∧ exacts.sum = total := by
  suffices finiteParts : ∃ exacts : List ℚ, numbers = exacts.map finite by
    obtain ⟨exacts, rfl⟩ := finiteParts
    rw [sum_finite] at sum
    exact ⟨exacts, rfl, finite.inj sum⟩
  induction numbers using List.reverseRecOn generalizing total with
  | nil => exact ⟨[], rfl⟩
  | append_singleton earlier last inductionHypothesis =>
      rw [Scalar.sum_append_singleton] at sum
      obtain ⟨before, exact, earlierSum, rfl⟩ := exists_of_add_eq_finite sum
      obtain ⟨exacts, rfl⟩ := inductionHypothesis earlierSum
      exact ⟨exacts ++ [exact], by rw [List.map_append, List.map_singleton]⟩

end Extended

end DecisionNetwork
