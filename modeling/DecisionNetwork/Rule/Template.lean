import DecisionNetwork.Assignment.Basic
import DecisionNetwork.Text.Blank
import DecisionNetwork.Value.Parse

/-!
Contract: texts with slots in braces.

Owns:
- `Template`, whose text is trimmed;
- `segments`, the reading of a text as characters and slots: a slot is an opening brace, characters
  other than braces and at least one, and a closing brace;
- `fill`, which puts the displays of bound values into their slots and reads the result again.

The name of a slot is its inside, trimmed. A brace that is not part of a slot is a character.
-/

namespace DecisionNetwork

/-- A text that may hold slots. -/
structure Template where
  text : String
deriving DecidableEq, Repr

namespace Template

open DecisionNetwork.Text

/-- A character of a template or a slot with its inside. -/
inductive Segment where
  | character (character : Char)
  | slot (inside : List Char)
deriving DecidableEq, Repr

def openBrace : Char := '\x7b'
def closeBrace : Char := '\x7d'

def isBrace (character : Char) : Bool := character == openBrace || character == closeBrace

/-- The inside of a slot whose opening brace came before, and what follows the slot. -/
def slotInside? (text : List Char) : Option (List Char × List Char) :=
  let inside := text.takeWhile fun character => !isBrace character
  match text.dropWhile fun character => !isBrace character with
  | [] => none
  | brace :: rest =>
    if brace = closeBrace ∧ !inside.isEmpty then some (inside, rest) else none

theorem slotInside?_length {text inside rest : List Char}
    (found : slotInside? text = some (inside, rest)) : rest.length < text.length := by
  unfold slotInside? at found
  split at found
  · cases found
  · next brace tail remaining =>
    dsimp only at found
    split at found
    · cases found
      have shorter := (List.dropWhile_sublist (l := text)
        fun character => !isBrace character).length_le
      rw [remaining] at shorter
      exact shorter
    · cases found

/-- The characters and slots of a text, slots as far to the left as possible. -/
def segments : List Char → List Segment
  | [] => []
  | head :: tail =>
    if head = openBrace then
      match _found : slotInside? tail with
      | some (inside, rest) => .slot inside :: segments rest
      | none => .character head :: segments tail
    else .character head :: segments tail
termination_by text => text.length
decreasing_by
  · have shorter := slotInside?_length _found
    simp only [List.length_cons]
    omega
  · simp
  · simp

def slotName (inside : List Char) : String := String.ofList (trim inside)

/-- The template of a text, which is trimmed. -/
def ofText (text : String) : Template := ⟨String.ofList (trim text.toList)⟩

def slotNames (template : Template) : List String :=
  (segments template.text.toList).filterMap fun segment =>
    match segment with
    | .character _ => none
    | .slot inside => some (slotName inside)

/-- The names of the slots, in order. -/
def slots (template : Template) : SortedSet String := .ofList template.slotNames

/-- Whether there are slots to fill. -/
def isOpen (template : Template) : Bool := !template.slotNames.isEmpty

/-- The text of a segment once the values of an assignment are put into slots. A slot without a
value stays as it is. -/
def fillSegment (input : Assignment) : Segment → List Char
  | .character character => [character]
  | .slot inside =>
    match input.value? (slotName inside) with
    | some value => value.render
    | none => openBrace :: (inside ++ [closeBrace])

/-- The template with the slots bound in an assignment replaced by the values. -/
def fill (template : Template) (input : Assignment) : Template :=
  if template.isOpen then
    ofText (String.ofList ((segments template.text.toList).flatMap (fillSegment input)))
  else template

/-- The text read as a value. -/
def toValue (template : Template) : Value := Value.parse template.text

end Template

end DecisionNetwork
