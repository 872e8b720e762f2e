import DecisionNetwork.Number.Binary64
import DecisionNetwork.SortedMap.Basic

/-!
Contract: JSON documents as trees.

Owns:
- `Json`; an object keeps its members in the order written, repeated names included;
- `Json.sorted`, the tree whose objects list each name once, in order, with its last member;
- `Json.asNumber?`, whole numbers read as the nearest double-precision ones;
- `Json.Codec`, a library that writes documents and reads them again, and `Json.nestingLimit`.
-/

namespace DecisionNetwork

inductive Json where
  | null
  | boolean (flag : Bool)
  | whole (whole : Int)
  | decimal (double : Binary64)
  | string (text : String)
  | array (items : List Json)
  | object (members : List (String × Json))
deriving Repr, Inhabited

namespace Json

def asNumber? : Json → Option Binary64
  | .whole number => some (Binary64.ofRatio (number < 0) number.natAbs 1)
  | .decimal double => some double
  | _ => none

mutual

def sorted : Json → Json
  | .array items => .array (sortedItems items)
  | .object members => .object (SortedMap.ofList (sortedMembers members)).toList
  | scalar => scalar

def sortedItems : List Json → List Json
  | [] => []
  | item :: items => sorted item :: sortedItems items

def sortedMembers : List (String × Json) → List (String × Json)
  | [] => []
  | (name, value) :: members => (name, sorted value) :: sortedMembers members

end

/-- A library for JSON texts: the text of a document, and the document that a text is read as. -/
structure Codec where
  write : Json → String
  read? : String → Option Json

/-- Arrays and objects nested to this depth are refused by a library. -/
def nestingLimit : Nat := 128

end Json

end DecisionNetwork
