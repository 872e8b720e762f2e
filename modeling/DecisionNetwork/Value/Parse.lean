import DecisionNetwork.Number.Numeral
import DecisionNetwork.Text.Blank
import DecisionNetwork.Value.Basic

/-!
Contract: the grammar of written values.

Owns:
- `Value.parse`, which reads any text: blank as absent, then numerals, the words `true`, `false`
  and `none` in any case, brackets with numerals alone as a vector, other brackets as a list, and
  all else as a text;
- `Value.readItems`, which splits the inside of a list at its commas and joins a fragment that
  leaves a parenthesis open with the next one.

Every text read inside a list is shorter than the list, so reading ends.
-/

namespace DecisionNetwork.Value

open DecisionNetwork.Text

-- The zero that a sum starts with is the numeral, whatever else is imported.
attribute [local instance (high)] Zero.ofOfNat0

/-- Equality with a lower-case word but for the case of the letters a to z. -/
def isWord (word : String) (text : List Char) : Bool := text.map Char.toLower == word.toList

/-- The inside of a text that starts and ends with square brackets. -/
def bracketed? : List Char → Option (List Char)
  | '[' :: rest => if rest.getLast? = some ']' then some rest.dropLast else none
  | _ => none

/-- Numerals separated by commas, with blanks only after a comma. -/
def numerals? (inner : List Char) : Option (List Numeral) :=
  match pieces ',' inner with
  | [] => none
  | first :: rest => do
    let first ← Numeral.read? first
    let rest ← rest.mapM fun piece => Numeral.read? (trimLeft piece)
    return first :: rest

/-- Reads a trimmed text that is neither a list nor plain text. -/
def readSimple? (text : List Char) : Option Value :=
  if text.isEmpty then some .absent
  else
    match Numeral.read? text with
    | some numeral => some (.number numeral.toBinary64)
    | none =>
      if isWord "true" text then some (.boolean true)
      else if isWord "false" text then some (.boolean false)
      else if isWord "none" text then some .absent
      else do
        let numerals ← numerals? (← bracketed? text)
        return .vector (numerals.map Numeral.toBinary64)

/-- Opening parentheses less closing ones. -/
def parenthesisBalance (text : List Char) : Int :=
  text.foldl (fun balance character =>
    if character = '(' then balance + 1
    else if character = ')' then balance - 1
    else balance) 0

/-- Whether a fragment has to be joined with the next one. -/
def leavesOpen (text : List Char) : Bool := 0 < parenthesisBalance text

/-- The text itself if a fragment has to follow it. -/
def stillOpen (text : List Char) : Option (List Char) := if leavesOpen text then some text else none

/-- A fragment joined to the open text before it. -/
def joinOpen : Option (List Char) → List Char → List Char
  | none, fragment => fragment
  | some opened, fragment => opened ++ ',' :: fragment

/-- The length of an open text and the comma after it. -/
def openWeight : Option (List Char) → Nat
  | none => 0
  | some opened => opened.length + 1

theorem joinOpen_length_lt (opened : Option (List Char)) {fragment piece : List Char}
    (within : fragment.length ≤ piece.length) :
    (joinOpen opened fragment).length < openWeight opened + (piece.length + 1) := by
  cases opened <;> simp [joinOpen, openWeight] <;> omega

theorem openWeight_stillOpen_le (text : List Char) :
    openWeight (stillOpen text) ≤ text.length + 1 := by
  unfold stillOpen
  split
  · exact Nat.le_refl _
  · exact Nat.zero_le _

theorem bracketed?_length {text inner : List Char} (found : bracketed? text = some inner) :
    inner.length + 2 ≤ text.length := by
  unfold bracketed? at found
  split at found
  · next rest =>
    split at found
    · next closed =>
      cases found
      cases rest with
      | nil => simp at closed
      | cons head tail => simp
    · cases found
  · cases found

theorem length_le_sum_lengths (texts : List (List Char)) :
    texts.length ≤ (texts.map fun text => text.length + 1).sum := by
  induction texts with
  | nil => exact Nat.le_refl 0
  | cons text rest inductionHypothesis =>
      simp only [List.length_cons, List.map_cons, List.sum_cons]
      omega

theorem mul_self_add_lt_mul_self {weight count size : Nat} (within : count ≤ weight)
    (less : weight < size) : weight * weight + count < size * size := by
  have next : (weight + 1) * (weight + 1) ≤ size * size := Nat.mul_self_le_mul_self less
  rw [Nat.add_mul, Nat.mul_add] at next
  omega

-- Joining a fragment that stays open can leave the weight as it is. Then only the count of the
-- pieces gets smaller, and the squares leave room for it.
mutual

/-- Reads a text as a value. -/
def parseText (text : List Char) : Value :=
  match readSimple? (trim text) with
  | some value => value
  | none =>
    match _found : bracketed? (trim text) with
    | some inner => .list (readItems [] none (pieces ',' inner))
    | none => .text (String.ofList (trim text))
termination_by text.length * text.length
decreasing_by
  have bracketsLength := bracketed?_length _found
  have trimLength := trim_length_le text
  have inside := pieces_length ',' inner
  have count := length_le_sum_lengths (pieces ',' inner)
  apply mul_self_add_lt_mul_self <;> simp only [openWeight] <;> omega

/-- Reads the pieces between the commas of a list. The values read so far are in reverse; the
first of them is that of the open text, if there is one, and gives way to the joined text. -/
def readItems (done : List Value) (opened : Option (List Char)) :
    List (List Char) → List Value
  | [] => done.reverse
  | piece :: rest =>
    if (trim piece).isEmpty then readItems done opened rest
    else
      let text := joinOpen opened (trim piece)
      readItems (parseText text :: if opened.isSome then done.tail else done)
        (stillOpen text) rest
termination_by pieces =>
  let weight := openWeight opened + (pieces.map fun piece => piece.length + 1).sum
  weight * weight + pieces.length
decreasing_by
  · apply Nat.add_lt_add_of_le_of_lt
    · exact Nat.mul_self_le_mul_self (by simp)
    · simp
  · have joined := joinOpen_length_lt opened (trim_length_le piece)
    apply Nat.lt_add_right
    apply Nat.mul_self_lt_mul_self
    simp only [List.map_cons, List.sum_cons]
    omega
  · have joined := joinOpen_length_lt opened (trim_length_le piece)
    have weight := openWeight_stillOpen_le (joinOpen opened (trim piece))
    apply Nat.add_lt_add_of_le_of_lt
    · apply Nat.mul_self_le_mul_self
      simp only [List.map_cons, List.sum_cons]
      omega
    · simp

end

/-- Reads a text as a value. -/
def parse (text : String) : Value := parseText text.toList

/-- Reads a text as a value; without a text the value is absent. -/
def parseOptional (text : Option String) : Value := (text.map parse).getD .absent

end DecisionNetwork.Value
