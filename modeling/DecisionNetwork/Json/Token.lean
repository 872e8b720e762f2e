import DecisionNetwork.Json.Basic
import DecisionNetwork.Number.Scaling

/-!
Contract: the tokens of JSON texts.

Owns:
- `Token` and `Token.scan?`, which fails on anything that is neither a token nor one of the four
  blanks;
- `stringRest?`, the escapes of strings: a surrogate counts only as one of a pair, and control
  characters have to be escaped;
- `number?`, whole numbers within 64 bits, with or without a sign, all others in double precision.

Numbers in double precision are formed by its arithmetic from the digits that fit in 64 bits. A
number too great for double precision is refused.
-/

namespace DecisionNetwork.Json

-- A power of naturals is the one of the core library, whatever else is imported.
attribute [local instance (high)] instPowNat

inductive Token where
  | openArray
  | closeArray
  | openObject
  | closeObject
  | comma
  | colon
  | null
  | boolean (flag : Bool)
  | whole (whole : Int)
  | decimal (double : Binary64)
  | string (text : String)
deriving DecidableEq, Repr

def isBlank (character : Char) : Bool :=
  character == ' ' || character == '\n' || character == '\r' || character == '\t'

def hexDigit? (character : Char) : Option Nat :=
  if character.isDigit then some (character.toNat - '0'.toNat)
  else if 'a' ≤ character ∧ character ≤ 'f' then some (character.toNat - 'a'.toNat + 10)
  else if 'A' ≤ character ∧ character ≤ 'F' then some (character.toNat - 'A'.toNat + 10)
  else none

/-- Four hexadecimal digits, and what follows. -/
def fourHex? : List Char → Option (Nat × List Char)
  | a :: b :: c :: d :: rest => do
    let high := 16 * (← hexDigit? a) + (← hexDigit? b)
    let low := 16 * (← hexDigit? c) + (← hexDigit? d)
    return (256 * high + low, rest)
  | _ => none

/-- What follows a backslash and the letter that starts a code. -/
def afterUnicodeMark? : List Char → Option (List Char)
  | backslash :: mark :: rest => if backslash = '\x5c' ∧ mark = 'u' then some rest else none
  | _ => none

/-- A unit that is the first of a surrogate pair. -/
def isLeading (unit : Nat) : Bool := 0xd800 ≤ unit && unit < 0xdc00

/-- A unit that is the second of a surrogate pair. -/
def isTrailing (unit : Nat) : Bool := 0xdc00 ≤ unit && unit < 0xe000

/-- The character of a surrogate pair. -/
def pairChar (leading trailing : Nat) : Char :=
  Char.ofNat (0x10000 + 0x400 * (leading - 0xd800) + (trailing - 0xdc00))

/-- The second unit of a surrogate pair, and what follows. -/
def trailing? (text : List Char) : Option (Nat × List Char) := do
  let (unit, rest) ← fourHex? (← afterUnicodeMark? text)
  if isTrailing unit then some (unit, rest) else none

/-- The character of a code written in hexadecimal digits; a pair of surrogates is one character. -/
def hexEscape? (text : List Char) : Option (Char × List Char) := do
  let (unit, rest) ← fourHex? text
  if isLeading unit then
    (trailing? rest).map fun read => (pairChar unit read.1, read.2)
  else if isTrailing unit then none
  else some (Char.ofNat unit, rest)

/-- The character of an escape whose backslash came before. -/
def escape? : List Char → Option (Char × List Char)
  | [] => none
  | mark :: rest =>
    if mark = 'u' then hexEscape? rest
    else if mark = '\x22' ∨ mark = '\x5c' ∨ mark = '/' then some (mark, rest)
    else if mark = 'b' then some ('\x08', rest)
    else if mark = 'f' then some ('\x0c', rest)
    else if mark = 'n' then some ('\n', rest)
    else if mark = 'r' then some ('\r', rest)
    else if mark = 't' then some ('\t', rest)
    else none

theorem fourHex?_length {text rest : List Char} {unit : Nat}
    (found : fourHex? text = some (unit, rest)) : rest.length < text.length := by
  unfold fourHex? at found
  split at found
  · simp only [Option.bind_eq_bind, Option.bind_eq_some_iff, Option.pure_def,
      Option.some.injEq, Prod.mk.injEq] at found
    obtain ⟨_, _, _, _, _, _, _, _, _, rfl⟩ := found
    simp only [List.length_cons]
    omega
  · cases found

theorem afterUnicodeMark?_length {text rest : List Char}
    (found : afterUnicodeMark? text = some rest) : rest.length < text.length := by
  unfold afterUnicodeMark? at found
  split at found
  · split at found
    · cases found
      simp only [List.length_cons]
      omega
    · cases found
  · cases found

theorem trailing?_length {text rest : List Char} {unit : Nat}
    (found : trailing? text = some (unit, rest)) : rest.length < text.length := by
  unfold trailing? at found
  simp only [Option.bind_eq_bind, Option.bind_eq_some_iff] at found
  obtain ⟨marked, mark, ⟨_, _⟩, second, found⟩ := found
  dsimp only at found
  split at found
  · cases found
    exact Nat.lt_trans (fourHex?_length second) (afterUnicodeMark?_length mark)
  · cases found

theorem hexEscape?_length {text rest : List Char} {character : Char}
    (found : hexEscape? text = some (character, rest)) : rest.length < text.length := by
  unfold hexEscape? at found
  simp only [Option.bind_eq_bind, Option.bind_eq_some_iff] at found
  obtain ⟨⟨unit, after⟩, first, found⟩ := found
  dsimp only at found
  split at found
  · obtain ⟨⟨_, last⟩, second, found⟩ := Option.map_eq_some_iff.1 found
    obtain ⟨_, rfl⟩ := Prod.mk.inj found
    exact Nat.lt_trans (trailing?_length second) (fourHex?_length first)
  · split at found
    · cases found
    · obtain ⟨_, rfl⟩ := Prod.mk.inj (Option.some.inj found)
      exact fourHex?_length first

theorem escape?_length {text rest : List Char} {character : Char}
    (found : escape? text = some (character, rest)) : rest.length < text.length := by
  unfold escape? at found
  split at found
  · cases found
  · split at found
    · have shorter := hexEscape?_length found
      simp only [List.length_cons]
      omega
    · (repeat' split at found) <;> first | (cases found; done) | (cases found; simp)

/-- The characters of a string whose opening quote came before, and what follows it. -/
def stringRest? : List Char → Option (List Char × List Char)
  | [] => none
  | head :: tail =>
    if head = '\x22' then some ([], tail)
    else if head = '\x5c' then
      match _found : escape? tail with
      | some (character, rest) =>
        (stringRest? rest).map fun read => (character :: read.1, read.2)
      | none => none
    else if head.toNat < 0x20 then none
    else (stringRest? tail).map fun read => (head :: read.1, read.2)
termination_by text => text.length
decreasing_by
  · have shorter := escape?_length _found
    simp only [List.length_cons]
    omega
  · simp

/-- The digits of a whole part: a zero, or digits that do not start with one. -/
def wholeDigits? (text : List Char) : Option (List Char × List Char) :=
  match text with
  | '0' :: rest => some (['0'], rest)
  | _ =>
    let (digits, rest) := Numeral.spanDigits text
    if digits.isEmpty then none else some (digits, rest)

/-- The digits of a fraction, if a point starts one, and what follows. -/
def fractionDigits? : List Char → Option (Option (List Char) × List Char)
  | '.' :: text =>
    let (digits, rest) := Numeral.spanDigits text
    if digits.isEmpty then none else some (some digits, rest)
  | text => some (none, text)

/-- The power of ten, if a mark starts one, and what follows. -/
def power? : List Char → Option (Option Int × List Char)
  | [] => some (none, [])
  | mark :: text =>
    if mark = 'e' ∨ mark = 'E' then
      let (negative, unsigned) := Numeral.readSign text
      let (digits, rest) := Numeral.spanDigits unsigned
      let power : Int := Numeral.natOfDigits digits
      if digits.isEmpty then none else some (some (if negative then -power else power), rest)
    else some (none, mark :: text)

/-- A number of the given parts. Whole numbers keep all their digits while they fit in 64 bits,
but for the negative zero. -/
def numberOf? (negative : Bool) (digits : List Char) (fraction : Option (List Char))
    (power : Option Int) : Option Token :=
  let whole := Numeral.natOfDigits digits
  let exact : Option Int :=
    if fraction.isSome || power.isSome then none
    else if negative then
      if 0 < whole ∧ whole ≤ 2 ^ (63 : Nat) then some (-(whole : Int)) else none
    else if whole < 2 ^ (64 : Nat) then some (whole : Int) else none
  match exact with
  | some number => some (.whole number)
  | none =>
    let double :=
      (Numeral.ofLeadingDigits negative digits (fraction.getD []) (power.getD 0)).scaled
    if double.isFinite then some (.decimal double) else none

/-- A number at the front of a text, and what follows. -/
def number? (text : List Char) : Option (Token × List Char) := do
  let (negative, unsigned) := match text with
    | '-' :: rest => (true, rest)
    | _ => (false, text)
  let (digits, rest) ← wholeDigits? unsigned
  let (fraction, rest) ← fractionDigits? rest
  let (power, rest) ← power? rest
  return (← numberOf? negative digits fraction power, rest)

/-- A word at the front of a text, and what follows. -/
def word? (word : String) (token : Token) (text : List Char) : Option (Token × List Char) :=
  let expected := word.toList
  if text.take expected.length = expected then some (token, text.drop expected.length) else none

/-- The token at the front of a text that does not start with a blank, and what follows. -/
def token? (text : List Char) : Option (Token × List Char) :=
  match text with
  | [] => none
  | head :: tail =>
    if head = '[' then some (.openArray, tail)
    else if head = ']' then some (.closeArray, tail)
    else if head = '\x7b' then some (.openObject, tail)
    else if head = '\x7d' then some (.closeObject, tail)
    else if head = ',' then some (.comma, tail)
    else if head = ':' then some (.colon, tail)
    else if head = '\x22' then
      (stringRest? tail).map fun read => (.string (String.ofList read.1), read.2)
    else if head = 'n' then word? "null" .null text
    else if head = 't' then word? "true" (.boolean true) text
    else if head = 'f' then word? "false" (.boolean false) text
    else number? text

/-- The tokens of a text. Every token takes at least one character; a count of the characters
bounds the steps. -/
def scanWithin : Nat → List Char → Option (List Token)
  | _, [] => some []
  | 0, _ => none
  | steps + 1, head :: tail =>
    if isBlank head then scanWithin steps tail
    else
      match token? (head :: tail) with
      | some (token, rest) => (scanWithin steps rest).map (token :: ·)
      | none => none

/-- The tokens of a text. -/
def scan? (text : List Char) : Option (List Token) := scanWithin text.length text

end DecisionNetwork.Json
