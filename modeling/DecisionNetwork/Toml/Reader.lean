import DecisionNetwork.Toml.Scalar
import DecisionNetwork.Toml.Text

/-!
Contract: reading TOML texts.

Owns:
- `value?`, a value at the front of a text;
- `statementsWithin?`, the lines of a text as pairs and headers;
- `Toml.read?`, the entries of the document that a text describes.
-/

namespace DecisionNetwork.Toml

/-- What follows a comment, if there is one, up to the end of its line. -/
def afterComment? (text : List Char) : Option (List Char) :=
  match text with
  | '#' :: rest =>
    let comment := rest.takeWhile fun character => character != '\n' && character != '\r'
    if comment.all isPlain then some (rest.drop comment.length) else none
  | _ => some text

/-- What follows blanks, comments and line breaks. -/
def skipLines? : Nat → List Char → Option (List Char)
  | 0, text => some text
  | steps + 1, text => do
    let rest ← afterComment? (skipBlanks text)
    match afterNewline? rest with
    | some rest => skipLines? steps rest
    | none => return rest

def isWordCharacter (character : Char) : Bool :=
  character.isAlphanum || character == '_' || character == '-' || character == '+' ||
    character == '.' || character == ':'

/-- A word. A date takes the time after a single space as well. -/
def word (text : List Char) : List Char × List Char :=
  let first := text.takeWhile isWordCharacter
  let rest := text.dropWhile isWordCharacter
  match afterDate? first, rest with
  | some [], ' ' :: digit :: tail =>
    if digit.isDigit then
      let time := (digit :: tail).takeWhile isWordCharacter
      (first ++ ' ' :: time, (digit :: tail).dropWhile isWordCharacter)
    else (first, rest)
  | _, _ => (first, rest)

/-- A value that is neither an array nor an inline table. -/
def scalar? (text : List Char) : Option (Toml × List Char) :=
  match text with
  | [] => none
  | head :: _ =>
    if head = doubleQuote ∨ head = singleQuote then
      (string? text).map fun read => (.string read.1, read.2)
    else
      let (word, rest) := word text
      (ofWord? word).map fun scalar => (scalar, rest)

/-- The items of an array after its opening bracket. A comma may follow the last one. -/
def arrayRest? (item? : PartReader Toml) (done : List Toml) : Nat → PartReader Toml
  | 0, _ => none
  | steps + 1, text => do
    match ← skipLines? text.length text with
    | ']' :: rest => return (.array done.reverse, rest)
    | text =>
      let (item, rest) ← item? text
      match ← skipLines? rest.length rest with
      | ',' :: rest => arrayRest? item? (item :: done) steps rest
      | ']' :: rest => return (.array (item :: done).reverse, rest)
      | _ => none

/-- A pair: a path of keys, an equals sign and a value. -/
def pair? (item? : PartReader Toml) : PartReader (List String × String × Toml) := fun text => do
  let ((path, key), rest) ← keyPath? text
  let (item, rest) ← item? (skipBlanks (← skip? '=' rest))
  return ((path, key, item), rest)

/-- The pairs of an inline table after its opening brace, at least one. -/
def pairsRest? (item? : PartReader Toml) (done : List (List String × String × Toml)) :
    Nat → PartReader Toml
  | 0, _ => none
  | steps + 1, text => do
    let (pair, rest) ← pair? item? text
    match skipBlanks rest with
    | [] => none
    | head :: rest =>
      if head = ',' then pairsRest? item? (pair :: done) steps rest
      else if head = '\x7d' then (ofPairs? (pair :: done).reverse).map fun table => (table, rest)
      else none

/-- The rest of an inline table, which may be empty. -/
def inlineRest? (item? : PartReader Toml) : PartReader Toml := fun text =>
  match skipBlanks text with
  | [] => none
  | head :: rest =>
    if head = '\x7d' then some (.table .inlineTable [], rest)
    else pairsRest? item? [] (rest.length + 1) (head :: rest)

/-- A value in which arrays and inline tables are nested no deeper than given. -/
def value? : Nat → PartReader Toml
  | 0, text => scalar? text
  | _, [] => none
  | depth + 1, head :: rest =>
    if head = '[' then arrayRest? (value? depth) [] (rest.length + 1) rest
    else if head = '\x7b' then inlineRest? (value? depth) rest
    else scalar? (head :: rest)

/-- A line of a document. -/
inductive Statement where
  | pair (path : List String) (key : String) (item : Toml)
  | header (path : List String) (key : String)
  | rowHeader (path : List String) (key : String)

/-- A header after its opening bracket. -/
def header? : PartReader Statement
  | '[' :: text => do
    let ((path, key), rest) ← keyPath? text
    return (.rowHeader path key, ← skip? ']' (← skip? ']' rest))
  | text => do
    let ((path, key), rest) ← keyPath? text
    return (.header path key, ← skip? ']' rest)

/-- A pair or a header. -/
def statement? : PartReader Statement
  | '[' :: text => header? text
  | text => do
    let ((path, key, item), rest) ← pair? (value? (depthLimit - 1)) text
    return (.pair path key item, rest)

/-- The statements of a text. Nothing but a comment may follow one on its line. -/
def statementsWithin? : Nat → List Char → Option (List Statement)
  | 0, _ => none
  | steps + 1, text => do
    match ← skipLines? text.length text with
    | [] => return []
    | text =>
      let (statement, rest) ← statement? text
      match ← afterComment? (skipBlanks rest) with
      | [] => return [statement]
      | rest => return statement :: (← statementsWithin? steps (← afterNewline? rest))

/-- A document under construction: its entries and the path of the header in force. -/
structure Draft where
  entries : Entries
  path : List String

/-- The document after one more statement. -/
def Draft.add? (draft : Draft) : Statement → Option Draft
  | .pair path key item => do
    let entries ← within? false (addPair? path key item) draft.path .header draft.entries
    return ⟨entries, draft.path⟩
  | .header path key => do
    return ⟨← openTable? path key draft.entries, path ++ [key]⟩
  | .rowHeader path key => do
    return ⟨← openRow? path key draft.entries, path ++ [key]⟩

/-- A mark at the very start that tells the byte order. -/
def byteOrderMark : Char := '\ufeff'

/-- The entries of a document. -/
def read? (text : String) : Option Entries := do
  let characters := match text.toList with
    | [] => []
    | head :: tail => if head = byteOrderMark then tail else head :: tail
  let statements ← statementsWithin? (characters.length + 1) characters
  let draft ← statements.foldlM Draft.add? ⟨[], []⟩
  return draft.entries

end DecisionNetwork.Toml
