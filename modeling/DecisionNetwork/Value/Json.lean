import DecisionNetwork.Assignment.Basic
import DecisionNetwork.Json.Reader
import DecisionNetwork.Value.Parse

/-!
Contract: values and assignments in JSON.

Owns:
- `Value.ofJson`, any document as a value: strings are read by the grammar of values, an array of
  numbers is a vector, an object is its own compact text with sorted names;
- `Value.toTagged` and `Value.ofTagged?`, the form in which the kind of a value is the name of the
  only member of an object, and an absent value the string `None`;
- the same form for assignments, as objects from variables to tagged values;
- `encode` and `decode?`, the tagged form as a text of any JSON library, and `serialize` and
  `deserialize?`, as a compact text.
-/

namespace DecisionNetwork.Value

/-- Reads numbers only. -/
def numbers? (items : List Json) : Option (List Binary64) := items.mapM Json.asNumber?

mutual

def ofJson : Json → Value
  | .null => .absent
  | .boolean flag => .boolean flag
  | .whole amount => .number (Binary64.ofRatio (amount < 0) amount.natAbs 1)
  | .decimal double => .number double
  | .string characters => parse characters
  | .array items =>
    match numbers? items with
    | some [] | none => .list (ofJsonItems items)
    | some numbers => .vector numbers
  | .object members => .text (Json.object members).sorted.write

def ofJsonItems : List Json → List Value
  | [] => []
  | item :: items => ofJson item :: ofJsonItems items

end

mutual

def toTagged : Value → Json
  | .absent => .string "None"
  | .boolean flag => .object [("Boolean", .boolean flag)]
  | .number double => .object [("Double", .decimal double)]
  | .vector numbers => .object [("DoubleArray", .array (numbers.map .decimal))]
  | .text characters => .object [("String", .string characters)]
  | .list items => .object [("List", .array (toTaggedItems items))]

def toTaggedItems : List Value → List Json
  | [] => []
  | item :: items => toTagged item :: toTaggedItems items

end

mutual

def ofTagged? : Json → Option Value
  | .string "None" => some .absent
  | .object [("None", .null)] => some .absent
  | .object [("Boolean", .boolean flag)] => some (.boolean flag)
  | .object [("Double", json)] => json.asNumber?.map .number
  | .object [("DoubleArray", .array items)] => (numbers? items).map .vector
  | .object [("String", .string characters)] => some (.text characters)
  | .object [("List", .array items)] => (ofTaggedItems? items).map .list
  | _ => none

def ofTaggedItems? : List Json → Option (List Value)
  | [] => some []
  | item :: items =>
    match ofTagged? item with
    | some value => (ofTaggedItems? items).map (value :: ·)
    | none => none

end

/-- The text of the tagged form. -/
def encode (value : Value) (codec : Json.Codec) : String := codec.write value.toTagged

/-- Reads the tagged form; there is nothing in other texts. -/
def decode? (codec : Json.Codec) (text : String) : Option Value :=
  (codec.read? text).bind ofTagged?

def serialize (value : Value) : String := value.encode Json.compact

def deserialize? (text : String) : Option Value := decode? Json.compact text

end DecisionNetwork.Value

namespace DecisionNetwork.Assignment

/-- The member of a binding. -/
def tagBinding (binding : String × Value) : String × Json := (binding.1, binding.2.toTagged)

/-- The binding of a member. -/
def untagMember? (member : String × Json) : Option (String × Value) :=
  (Value.ofTagged? member.2).map fun value => (member.1, value)

def toTagged (assignment : Assignment) : Json := .object (assignment.toList.map tagBinding)

/-- Reads an object from variables to tagged values; the last of repeated variables wins. -/
def ofTagged? : Json → Option Assignment
  | .object members => (members.mapM untagMember?).map ofList
  | _ => none

/-- The text of the tagged form. -/
def encode (assignment : Assignment) (codec : Json.Codec) : String :=
  codec.write assignment.toTagged

/-- Reads the tagged form; there is nothing in other texts. -/
def decode? (codec : Json.Codec) (text : String) : Option Assignment :=
  (codec.read? text).bind ofTagged?

def serialize (assignment : Assignment) : String := assignment.encode Json.compact

def deserialize? (text : String) : Option Assignment := decode? Json.compact text

end DecisionNetwork.Assignment
