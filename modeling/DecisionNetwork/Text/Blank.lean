/-!
Contract: blank characters and the trimming of texts.

Owns:
- `isBlank`, the characters of the White_Space property;
- `trim`, which drops blank characters at both ends.
-/

namespace DecisionNetwork.Text

-- The zero that a sum starts with is the numeral, whatever else is imported.
attribute [local instance (high)] Zero.ofOfNat0

/-- A character of the White_Space property. -/
def isBlank (character : Char) : Bool :=
  let code := character.toNat
  (0x9 ≤ code && code ≤ 0xd) || code == 0x20 || code == 0x85 || code == 0xa0 ||
    code == 0x1680 || (0x2000 ≤ code && code ≤ 0x200a) || code == 0x2028 || code == 0x2029 ||
    code == 0x202f || code == 0x205f || code == 0x3000

def trimLeft (text : List Char) : List Char := text.dropWhile isBlank

def trimRight (text : List Char) : List Char := (text.reverse.dropWhile isBlank).reverse

/-- The text without the blank characters at its ends. -/
def trim (text : List Char) : List Char := trimRight (trimLeft text)

private theorem dropWhile_length_le (test : Char → Bool) (text : List Char) :
    (text.dropWhile test).length ≤ text.length :=
  (List.dropWhile_sublist test).length_le

theorem trimLeft_length_le (text : List Char) : (trimLeft text).length ≤ text.length :=
  dropWhile_length_le isBlank text

theorem trim_length_le (text : List Char) : (trim text).length ≤ text.length := by
  have right : (trimRight (trimLeft text)).length ≤ (trimLeft text).length := by
    simpa [trimRight] using dropWhile_length_le isBlank (trimLeft text).reverse
  exact Nat.le_trans right (trimLeft_length_le text)

/-- The pieces of a text between the occurrences of a separator; there is always one. -/
def pieces (separator : Char) : List Char → List (List Char)
  | [] => [[]]
  | head :: tail =>
    if head = separator then [] :: pieces separator tail
    else
      match pieces separator tail with
      | [] => [[head]]
      | piece :: rest => (head :: piece) :: rest

/-- Every piece and the separator after it are part of the text. -/
theorem pieces_length (separator : Char) (text : List Char) :
    ((pieces separator text).map fun piece => piece.length + 1).sum = text.length + 1 := by
  induction text with
  | nil => rfl
  | cons head tail inductionHypothesis =>
      unfold pieces
      split
      · simp [inductionHypothesis]; omega
      · split
        next noPieces => simp [noPieces] at inductionHypothesis
        next piece rest somePieces =>
          simp only [somePieces, List.map_cons, List.sum_cons] at inductionHypothesis
          simp only [List.map_cons, List.sum_cons, List.length_cons]
          omega

end DecisionNetwork.Text
