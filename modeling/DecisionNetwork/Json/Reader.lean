import DecisionNetwork.Json.Token
import DecisionNetwork.Json.Writer

/-!
Contract: reading JSON texts.

Owns:
- `Json.readWithin?`, which reads a whole text with arrays and objects nested to less than a limit;
- `Json.read?`, the same with the usual limit, and `Json.compact`, the library made of it and of the
  writer;
- `Reading`, the state between two tokens: the arrays and objects that are open, and what may come
  next.
-/

namespace DecisionNetwork.Json

/-- An array or object that is open, with what it holds so far in reverse. A member waits for the
value of its name. -/
inductive Frame where
  | array (items : List Json)
  | object (members : List (String × Json))
  | member (members : List (String × Json)) (name : String)

/-- What may come next. -/
inductive Phase where
  | value
  | valueOrClose
  | commaOrClose
  | name
  | nameOrClose
  | colon
deriving DecidableEq, Repr

/-- The state between two tokens. -/
inductive Reading where
  | within (frames : List Frame) (phase : Phase)
  | finished (json : Json)

namespace Reading

def start : Reading := .within [] .value

/-- The state after a value. -/
def complete (value : Json) : List Frame → Option Reading
  | [] => some (.finished value)
  | .array items :: frames => some (.within (.array (value :: items) :: frames) .commaOrClose)
  | .member members name :: frames =>
    some (.within (.object ((name, value) :: members) :: frames) .commaOrClose)
  | .object _ :: _ => none

/-- The state after an array or object was opened. -/
def enter (limit : Nat) (frame : Frame) (phase : Phase) (frames : List Frame) : Option Reading :=
  if frames.length + 1 < limit then some (.within (frame :: frames) phase) else none

/-- The state after a token where a value may start. -/
def startValue (limit : Nat) (frames : List Frame) : Token → Option Reading
  | .openArray => enter limit (.array []) .valueOrClose frames
  | .openObject => enter limit (.object []) .nameOrClose frames
  | .null => complete .null frames
  | .boolean flag => complete (.boolean flag) frames
  | .whole number => complete (.whole number) frames
  | .decimal double => complete (.decimal double) frames
  | .string text => complete (.string text) frames
  | _ => none

/-- The state after the innermost array or object was closed. -/
def close : Token → List Frame → Option Reading
  | .closeArray, .array items :: frames => complete (.array items.reverse) frames
  | .closeObject, .object members :: frames => complete (.object members.reverse) frames
  | _, _ => none

/-- The state after one more token. -/
def step (limit : Nat) : Reading → Token → Option Reading
  | .finished _, _ => none
  | .within frames .value, token => startValue limit frames token
  | .within frames .valueOrClose, .closeArray => close .closeArray frames
  | .within frames .valueOrClose, token => startValue limit frames token
  | .within (.array items :: frames) .commaOrClose, .comma =>
    some (.within (.array items :: frames) .value)
  | .within (.object members :: frames) .commaOrClose, .comma =>
    some (.within (.object members :: frames) .name)
  | .within frames .commaOrClose, token => close token frames
  | .within (.object members :: frames) .name, .string name =>
    some (.within (.member members name :: frames) .colon)
  | .within (.object members :: frames) .nameOrClose, .string name =>
    some (.within (.member members name :: frames) .colon)
  | .within frames .nameOrClose, .closeObject => close .closeObject frames
  | .within frames .colon, .colon => some (.within frames .value)
  | _, _ => none

/-- The value read, once it is complete. -/
def result? : Reading → Option Json
  | .finished json => some json
  | .within _ _ => none

end Reading

/-- Reads a whole text. Arrays and objects may be nested to less than the limit. -/
def readWithin? (limit : Nat) (text : String) : Option Json := do
  let tokens ← scan? text.toList
  let reading ← tokens.foldlM (Reading.step limit) Reading.start
  reading.result?

/-- Reads a whole text. -/
def read? (text : String) : Option Json := readWithin? nestingLimit text

/-- The library that writes compact texts. -/
def compact : Codec := ⟨write, read?⟩

end DecisionNetwork.Json
