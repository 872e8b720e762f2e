import DecisionNetwork.Json.Basic
import DecisionNetwork.Number.Notation

/-!
Contract: the compact text of JSON documents.

Owns:
- `Json.write`, without blanks;
- `Json.quote`, which escapes quotes, backslashes and control characters and nothing else.

Numbers without a JSON form are written as `null`.
-/

namespace DecisionNetwork.Json

/-- The form of a control character that has no letter of its own. -/
def controlEscape (character : Char) : List Char :=
  let digits := Nat.toDigits 16 character.toNat
  '\x5c' :: 'u' :: (List.replicate (4 - digits.length) '0' ++ digits)

/-- The form of one character inside a string. -/
def quoteChar (character : Char) : List Char :=
  if character = '\x22' ∨ character = '\x5c' then ['\x5c', character]
  else if character = '\x08' then ['\x5c', 'b']
  else if character = '\x0c' then ['\x5c', 'f']
  else if character = '\n' then ['\x5c', 'n']
  else if character = '\r' then ['\x5c', 'r']
  else if character = '\t' then ['\x5c', 't']
  else if character.toNat < 0x20 then controlEscape character
  else [character]

def quote (text : String) : List Char := '\x22' :: (text.toList.flatMap quoteChar ++ ['\x22'])

mutual

def render : Json → List Char
  | .null => "null".toList
  | .boolean flag => (if flag then "true" else "false").toList
  | .whole number => (toString number).toList
  | .decimal double => (double.jsonText?.getD "null").toList
  | .string text => quote text
  | .array items => '[' :: ([','].intercalate (renderItems items) ++ [']'])
  | .object members => '\x7b' :: ([','].intercalate (renderMembers members) ++ ['\x7d'])

def renderItems : List Json → List (List Char)
  | [] => []
  | item :: items => render item :: renderItems items

def renderMembers : List (String × Json) → List (List Char)
  | [] => []
  | (name, value) :: members => (quote name ++ ':' :: render value) :: renderMembers members

end

def write (json : Json) : String := String.ofList json.render

end DecisionNetwork.Json
