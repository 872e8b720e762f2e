import DecisionNetwork.Error
import DecisionNetwork.Rule.Basic
import DecisionNetwork.RuleUtility.Cache
import DecisionNetwork.Settings.Reader

/-!
Contract: utilities defined by utility rules.

Owns:
- `RuleUtility`, a rule with its cache and the number of times it was matched;
- `matchRule`, which matches the rule and counts it;
- `score`, the utility of actions under what a rule yields, and its failures: the weights of the
  effects that the actions realise are added up;
- `evaluateBy`, the utility of an assignment by whoever matches the rule: the output variables of
  the rule are the actions and all others its input;
- `evaluate`, the same by `matchRule`.

A failure to match the rule, an unbound weight of a realised effect and a total that is not finite
all count as utility zero.
-/

namespace DecisionNetwork

/-- A utility rule in use. -/
structure RuleUtility (α : Type) where
  rule : AnchoredRule α
  cache : UtilityCache α
  matchings : Nat

namespace RuleUtility

variable {α : Type}

/-- Puts a utility rule to use. Utilities are cached if the settings allow it and the rule has no
external parameters. -/
def make (rule : AnchoredRule α) (settings : Settings) : Except InferenceError (RuleUtility α) :=
  if rule.kind = .utility then
    .ok ⟨rule, .make (settings.cacheUtilities && rule.parameters.isEmpty), 0⟩
  else .error (.notUtilityRule rule.label rule.kind)

/-- The part of an assignment that the rule reads. -/
def inputOf (rule : AnchoredRule α) (full : Assignment) : Assignment :=
  full.without rule.outputs.toList

/-- The part of an assignment that the rule is about. -/
def actionsOf (rule : AnchoredRule α) (full : Assignment) : Assignment :=
  full.restrict rule.outputs.toList

def isCached (utility : RuleUtility α) : Bool := utility.cache.isEnabled

def cachedSize (utility : RuleUtility α) : Nat := utility.cache.size

/-- Forgets the utilities kept. -/
def clear (utility : RuleUtility α) : RuleUtility α :=
  { utility with cache := utility.cache.clear }

/-- Takes note that a variable has a new name: utilities kept under the old one are forgotten. -/
def renameVariable (utility : RuleUtility α) (_old _new : String) : RuleUtility α := utility.clear

/-- A copy over the same rule with an empty cache of the same kind. -/
def clone (utility : RuleUtility α) : RuleUtility α :=
  { utility with cache := utility.cache.fresh }

/-- A rule utility has no totals to check. -/
def isWellFormed (_utility : RuleUtility α) : Bool := true

/-- What yields the output of a rule for an input, and may be in another state afterwards. -/
abbrev Matcher (α σ : Type) := Assignment → σ → Except (RuleError α) (RuleOutput α) × σ

/-- The answer of a function, with the number of times that it was asked. -/
def counted {ι β : Type} (ask : ι → β) (question : ι) (count : Nat) : β × Nat :=
  (ask question, count + 1)

/-- Matches the rule, which counts. -/
def matchRule (utility : RuleUtility α) (input : Assignment) :
    Except (RuleError α) (RuleOutput α) × RuleUtility α :=
  let (result, matchings) := counted utility.rule.matchingOutput input utility.matchings
  (result, { utility with matchings })

variable [Scalar α]

/-- Adds to a total the weights of the effects that the actions realise. -/
def addRealised (input actions : Assignment) (total : α) :
    List (Effect × Parameter α) → Except (RuleError α) α
  | [] => .ok total
  | (effect, parameter) :: rest =>
    if effect.toCondition.holds actions then
      match parameter.value input with
      | .ok weight => addRealised input actions (Scalar.add total weight) rest
      | .error failure => .error failure
    else addRealised input actions total rest

/-- The utility of the actions under a rule output, primes removed from the actions. -/
def scoreOutput (output : RuleOutput α) (input actions : Assignment) :
    Except (RuleError α) α :=
  match addRealised input actions.removePrimes Scalar.zero output.effects with
  | .ok total => if Scalar.isFinite total then .ok total else .error (.nonFiniteUtility total)
  | .error failure => .error failure

/-- The utility of the actions under what the rule yields for an input, which may be a failure. -/
def score (result : Except (RuleError α) (RuleOutput α)) (input actions : Assignment) :
    Except (RuleError α) α :=
  match result with
  | .ok output => scoreOutput output input actions
  | .error failure => .error failure

/-- The utility where failures count as zero. -/
def scoreOrZero (result : Except (RuleError α) (RuleOutput α)) (input actions : Assignment) : α :=
  match score result input actions with
  | .ok utility => utility
  | .error _ => Scalar.zero

/-- The utility of an assignment, kept in the cache from then on. The rule is matched if the cache
has no utility for its input and the actions. -/
def evaluateBy {σ : Type} (matcher : Matcher α σ) (utility : RuleUtility α) (full : Assignment)
    (state : σ) : α × UtilityCache α × σ :=
  let input := inputOf utility.rule full
  let actions := actionsOf utility.rule full
  match utility.cache.get? input actions with
  | some found => (found, utility.cache, state)
  | none =>
    let (result, next) := matcher input state
    let computed := scoreOrZero result input actions
    (computed, utility.cache.store input actions computed, next)

/-- The utility of an assignment by the rule itself, with its matches counted. -/
def evaluate (utility : RuleUtility α) (full : Assignment) : α × RuleUtility α :=
  let (answer, cache, used) :=
    utility.evaluateBy (fun input used => used.matchRule input) full utility
  (answer, { used with cache })

end RuleUtility

end DecisionNetwork
