import DecisionNetwork.Number.Notation

/-!
Contract: the values that variables take, and the text that shows a value.

Owns:
- `Value` and its views as a number or a boolean;
- `Value.render`, characters: numbers in plain notation, texts as they are, sequences in brackets
  with commas;
- `Value.display`, the same as a string.
-/

namespace DecisionNetwork

/-- A value of a variable. A vector is a fixed sequence of numbers; a list holds any values. -/
inductive Value where
  | absent
  | boolean (flag : Bool)
  | number (double : Binary64)
  | vector (numbers : List Binary64)
  | text (characters : String)
  | list (items : List Value)
deriving Repr, Inhabited

namespace Value

def isAbsent : Value → Bool
  | .absent => true
  | _ => false

def asNumber? : Value → Option Binary64
  | .number double => some double
  | _ => none

def asBoolean? : Value → Option Bool
  | .boolean flag => some flag
  | _ => none

/-- A sequence in brackets, its items separated by commas. -/
def bracket (items : List (List Char)) : List Char :=
  '[' :: ([','].intercalate items ++ [']'])

mutual

def render : Value → List Char
  | .absent => "None".toList
  | .boolean flag => (if flag then "true" else "false").toList
  | .number double => double.plain.toList
  | .vector numbers => bracket (numbers.map fun double => double.plain.toList)
  | .text characters => characters.toList
  | .list items => bracket (renderItems items)

def renderItems : List Value → List (List Char)
  | [] => []
  | item :: items => render item :: renderItems items

end

def display (value : Value) : String := String.ofList value.render

end Value

end DecisionNetwork
