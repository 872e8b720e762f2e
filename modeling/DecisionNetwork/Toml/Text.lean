import DecisionNetwork.Toml.Basic

/-!
Contract: the strings and keys of TOML.

Owns:
- `string?`, the four kinds of strings, basic or literal, on one line or on several;
- `keyPath?`, keys with dots between them.

A reader of a part returns the part and what follows. Every step of a loop takes at least one
character, so a count of the characters bounds the steps.
-/

namespace DecisionNetwork.Toml

/-- A reader of a part at the front of a text. -/
abbrev PartReader (α : Type) := List Char → Option (α × List Char)

def doubleQuote : Char := '\x22'
def singleQuote : Char := '\x27'
def backslash : Char := '\x5c'

def isBlank (character : Char) : Bool := character == ' ' || character == '\t'

def skipBlanks (text : List Char) : List Char := text.dropWhile isBlank

/-- What follows a line break, which is a line feed with or without a carriage return. -/
def afterNewline? : List Char → Option (List Char)
  | '\n' :: rest => some rest
  | '\r' :: '\n' :: rest => some rest
  | _ => none

/-- A character that may stand in a string or a comment as it is. -/
def isPlain (character : Char) : Bool :=
  character == '\t' || (0x20 ≤ character.toNat && character.toNat != 0x7f)

def hexValue? (digits : List Char) : Option Nat :=
  digits.foldlM (fun number digit =>
    if digit.isDigit then some (16 * number + (digit.toNat - '0'.toNat))
    else if 'a' ≤ digit.toLower ∧ digit.toLower ≤ 'f' then
      some (16 * number + (digit.toLower.toNat - 'a'.toNat + 10))
    else none) 0

/-- The character of a code of exactly so many hexadecimal digits. -/
def codePoint? (count : Nat) : PartReader Char := fun text => do
  let digits := text.take count
  if digits.length < count then none
  else
    let code ← hexValue? digits
    if code.isValidChar then return (Char.ofNat code, text.drop count) else none

/-- The character of an escape whose backslash came before. -/
def escape? : PartReader Char
  | [] => none
  | mark :: rest =>
    if mark = 'b' then some ('\x08', rest)
    else if mark = 't' then some ('\t', rest)
    else if mark = 'n' then some ('\n', rest)
    else if mark = 'f' then some ('\x0c', rest)
    else if mark = 'r' then some ('\r', rest)
    else if mark = doubleQuote ∨ mark = backslash then some (mark, rest)
    else if mark = 'u' then codePoint? 4 rest
    else if mark = 'U' then codePoint? 8 rest
    else none

/-- The rest of a string on one line, after its opening quote. Literal strings have no escapes. -/
def lineRest? (quote : Char) (done : List Char) : Nat → PartReader String
  | 0, _ => none
  | _, [] => none
  | steps + 1, head :: tail =>
    if head = quote then some (String.ofList done.reverse, tail)
    else if head = backslash ∧ quote = doubleQuote then
      match escape? tail with
      | some (character, rest) => lineRest? quote (character :: done) steps rest
      | none => none
    else if isPlain head then lineRest? quote (head :: done) steps tail
    else none

/-- Skips blanks and line breaks. -/
def skipBlankLines : Nat → List Char → List Char
  | 0, text => text
  | steps + 1, text =>
    match afterNewline? (skipBlanks text) with
    | some rest => skipBlankLines steps rest
    | none => skipBlanks text

/-- What follows a backslash that ends its line: the next text that is not blank. -/
def afterLineEnd? (text : List Char) : Option (List Char) :=
  (afterNewline? (skipBlanks text)).map (skipBlankLines text.length)

/-- The rest of a string on several lines, after its opening quotes. Up to two quotes may stand
before the three that close it. -/
def blockRest? (quote : Char) (done : List Char) : Nat → PartReader String
  | 0, _ => none
  | _, [] => none
  | steps + 1, head :: tail =>
    if head = quote then
      let quotes := (head :: tail).takeWhile (· == quote)
      if quotes.length < 3 then blockRest? quote (head :: done) steps tail
      else if 5 < quotes.length then none
      else some (String.ofList (quotes.drop 3 ++ done).reverse, tail.dropWhile (· == quote))
    else if head = backslash ∧ quote = doubleQuote then
      match escape? tail, afterLineEnd? tail with
      | some (character, rest), _ => blockRest? quote (character :: done) steps rest
      | none, some rest => blockRest? quote done steps rest
      | none, none => none
    else
      match afterNewline? (head :: tail) with
      | some rest => blockRest? quote ('\n' :: done) steps rest
      | none => if isPlain head then blockRest? quote (head :: done) steps tail else none

/-- A string on one line. -/
def lineString? : PartReader String
  | [] => none
  | quote :: rest =>
    if quote = doubleQuote ∨ quote = singleQuote then lineRest? quote [] (rest.length + 1) rest
    else none

/-- A string of any kind. A line break right after three opening quotes does not count. -/
def string? (text : List Char) : Option (String × List Char) :=
  match text with
  | first :: second :: third :: rest =>
    if (first = doubleQuote ∨ first = singleQuote) ∧ second = first ∧ third = first then
      let rest := (afterNewline? rest).getD rest
      blockRest? first [] (rest.length + 1) rest
    else lineString? text
  | _ => lineString? text

def isBareKeyCharacter (character : Char) : Bool :=
  character.isAlphanum || character == '_' || character == '-'

/-- A key without dots. -/
def simpleKey? (text : List Char) : Option (String × List Char) :=
  let bare := text.takeWhile isBareKeyCharacter
  if bare.isEmpty then lineString? text
  else some (String.ofList bare, text.dropWhile isBareKeyCharacter)

/-- Keys with dots and blanks between them, the blanks around them taken as well. -/
def keyPathWithin? : Nat → PartReader (List String)
  | 0, _ => none
  | steps + 1, text => do
    let (key, rest) ← simpleKey? (skipBlanks text)
    match skipBlanks rest with
    | '.' :: rest =>
      let (path, rest) ← keyPathWithin? steps rest
      return (key :: path, rest)
    | rest => return ([key], rest)

/-- Longer paths and deeper nesting are refused. -/
def depthLimit : Nat := 80

/-- The keys that lead to a table, and the last key. -/
def keyPath? (text : List Char) : Option ((List String × String) × List Char) := do
  let (path, rest) ← keyPathWithin? text.length text
  match path.getLast? with
  | some key => if path.length < depthLimit then return ((path.dropLast, key), rest) else none
  | none => none

end DecisionNetwork.Toml
