import DecisionNetwork.Rule.Condition

/-!
Contract: the effects of rules.

Owns:
- `BasicEffect`, a variable that takes a value or does not take it;
- `Effect`, a conjunction of basic effects;
- `toCondition`, the condition that holds when an effect is realised.
-/

namespace DecisionNetwork

inductive EffectKind where
  | assign
  | discard
deriving DecidableEq, Repr

namespace EffectKind

def sign : EffectKind → String
  | .assign => ":="
  | .discard => "!="

/-- The relation between the variable and the value of a realised effect. -/
def relation : EffectKind → Relation
  | .assign => .equal
  | .discard => .unequal

end EffectKind

/-- A variable with the value that it takes or does not take. -/
structure BasicEffect where
  name : Template
  kind : EffectKind
  value : Template
deriving DecidableEq, Repr

namespace BasicEffect

def fill (effect : BasicEffect) (input : Assignment) : BasicEffect :=
  ⟨effect.name.fill input, effect.kind, effect.value.fill input⟩

def toCondition (effect : BasicEffect) : BasicCondition :=
  ⟨effect.name, effect.kind.relation, effect.value⟩

def display (effect : BasicEffect) : String :=
  effect.name.text ++ effect.kind.sign ++ effect.value.text

end BasicEffect

/-- Basic effects that come together. -/
structure Effect where
  parts : List BasicEffect
deriving DecidableEq, Repr

namespace Effect

def fill (effect : Effect) (input : Assignment) : Effect :=
  ⟨effect.parts.map fun part => part.fill input⟩

def toCondition (effect : Effect) : Condition :=
  .all (effect.parts.map fun part => .basic part.toCondition)

/-- The parts joined by ` ^ `, or `Void` when there are none. -/
def display (effect : Effect) : String :=
  if effect.parts.isEmpty then "Void" else " ^ ".intercalate (effect.parts.map BasicEffect.display)

end Effect

end DecisionNetwork
