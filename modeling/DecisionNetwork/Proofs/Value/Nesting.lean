import DecisionNetwork.Proofs.Value.Division
import DecisionNetwork.Proofs.Value.Reading

/-!
Contract: the texts that are read inside of a list, and how deep lists are nested in a text.

Owns:
- `readItemsWith`, the loop over the pieces of a list with any reader in place of `parseText`;
- `attempts`, the texts that the loop reads, those that give way to a longer one included, with
  `run_readItemsWith_record`, by which these are the ones;
- `length_le_of_mem_attempts`: none of them is longer than the inside of the list;
- `parseWithin`, reading to a limited depth, and `parseWithin_eq`, by which the length of a text is
  depth enough;
- `readItems_reads_unique_division`, what a list is read as and what is read for it.
-/

namespace DecisionNetwork.Value

open DecisionNetwork.Text

/-- The loop over the pieces of a list, with a reader that may fail or leave a trace. -/
def readItemsWith {m : Type → Type} [Monad m] (read : List Char → m Value) (done : List Value)
    (opened : Option (List Char)) : List (List Char) → m (List Value)
  | [] => pure done.reverse
  | piece :: rest =>
    if (trim piece).isEmpty then readItemsWith read done opened rest
    else do
      let text := joinOpen opened (trim piece)
      let value ← read text
      readItemsWith read (value :: if opened.isSome then done.tail else done) (stillOpen text) rest

/-- The texts that the loop over the pieces of a list reads, in order. -/
def attempts (opened : Option (List Char)) : List (List Char) → List (List Char)
  | [] => []
  | piece :: rest =>
    if (trim piece).isEmpty then attempts opened rest
    else
      joinOpen opened (trim piece) :: attempts (stillOpen (joinOpen opened (trim piece))) rest

/-- Reads a text and puts it on record. -/
def record (text : List Char) : StateM (List (List Char)) Value := do
  modify fun recorded => recorded ++ [text]
  return parseText text

/-- Reads a text as a value, with lists inside of each other to a limited depth. -/
def parseWithin : Nat → List Char → Option Value
  | 0, _ => none
  | depth + 1, written =>
    match readSimple? (trim written) with
    | some value => some value
    | none =>
      match bracketed? (trim written) with
      | some inner => (readItemsWith (parseWithin depth) [] none (pieces ',' inner)).map .list
      | none => some (.text (String.ofList (trim written)))

section Attempts

/-- The loop reads its attempts, once each and in order. -/
theorem run_readItemsWith_record (recorded : List (List Char)) (done : List Value)
    (opened : Option (List Char)) (pieces : List (List Char)) :
    (readItemsWith record done opened pieces).run recorded =
      pure (readItems done opened pieces, recorded ++ attempts opened pieces) := by
  induction pieces generalizing recorded done opened with
  | nil => simp [readItemsWith, readItems, attempts]
  | cons piece rest inductionHypothesis =>
      rw [readItemsWith, readItems, attempts]
      split
      next => exact inductionHypothesis recorded done opened
      next =>
          rw [← List.singleton_append, ← List.append_assoc]
          exact inductionHypothesis (recorded ++ [joinOpen opened (trim piece)]) _ _

example : attempts none (pieces ',' "f(1,2), 3".toList) =
    ["f(1".toList, "f(1,2)".toList, "3".toList] := by decide

/-- A reader that reads the attempts as values makes the loop read the list. -/
theorem readItemsWith_eq_some {read : List Char → Option Value} {opened : Option (List Char)}
    {pieces : List (List Char)}
    (reads : ∀ text ∈ attempts opened pieces, read text = some (parseText text))
    (done : List Value) :
    readItemsWith read done opened pieces = some (readItems done opened pieces) := by
  induction pieces generalizing done opened with
  | nil => simp [readItemsWith, readItems]
  | cons piece rest inductionHypothesis =>
      rw [attempts] at reads
      rw [readItemsWith, readItems]
      split
      next blank =>
          rw [if_pos blank] at reads
          exact inductionHypothesis reads done
      next visible =>
          rw [if_neg visible] at reads
          obtain ⟨readsFirst, readsLater⟩ := List.forall_mem_cons.1 reads
          dsimp only
          rw [readsFirst]
          exact inductionHypothesis readsLater _

theorem length_lt_of_mem_attempts {opened : Option (List Char)} {pieces : List (List Char)}
    {text : List Char} (member : text ∈ attempts opened pieces) :
    text.length < openWeight opened + (pieces.map fun piece => piece.length + 1).sum := by
  induction pieces generalizing opened with
  | nil => cases member
  | cons piece rest inductionHypothesis =>
      rw [List.map_cons, List.sum_cons]
      rw [attempts] at member
      split at member
      next =>
          have shorter := inductionHypothesis member
          omega
      next =>
          have joinedLength := joinOpen_length_lt opened (trim_length_le piece)
          rcases List.mem_cons.1 member with rfl | later
          · omega
          · have shorter := inductionHypothesis later
            have weight := openWeight_stillOpen_le (joinOpen opened (trim piece))
            omega

/-- What is read for a list is not longer than the inside of the list. -/
theorem length_le_of_mem_attempts {inner text : List Char}
    (member : text ∈ attempts none (pieces ',' inner)) : text.length ≤ inner.length := by
  have shorter := length_lt_of_mem_attempts member
  rw [pieces_length, openWeight] at shorter
  omega

end Attempts

/-- No text has lists nested deeper than it is long. -/
theorem parseWithin_eq {depth : Nat} {text : List Char} (deepEnough : text.length < depth) :
    parseWithin depth text = some (parseText text) := by
  induction depth generalizing text with
  | zero => cases deepEnough
  | succ depth inductionHypothesis =>
      rw [parseWithin, parseText_eq]
      cases readSimple? (trim text) with
      | some value => rfl
      | none =>
          cases found : bracketed? (trim text) with
          | none => rfl
          | some inner =>
              have bracketsLength := bracketed?_length found
              have trimLength := trim_length_le text
              have readsAttempts : ∀ attempt ∈ attempts none (pieces ',' inner),
                  parseWithin depth attempt = some (parseText attempt) := fun attempt member => by
                have attemptLength := length_le_of_mem_attempts member
                exact inductionHypothesis (by omega)
              dsimp only
              rw [readItemsWith_eq_some readsAttempts, readItems_pieces]
              rfl

/-- A list between brackets is read in two passes: its fragments, trimmed and without the blank
ones, are divided in the one way in which each block ends as soon as it is closed, and every joined
block is read once, in order. The loop may read parts of a block first, but each text that it reads
is shorter than the list in brackets, so that reading to a depth beyond the length of a text always
gives its value. -/
theorem readItems_reads_unique_division :
    (∀ inner, ∃ blocks, IsDivision (fragments (pieces ',' inner)) blocks ∧
      (∀ others, IsDivision (fragments (pieces ',' inner)) others → others = blocks) ∧
      readItems [] none (pieces ',' inner) = blocks.map fun block => parseText (joined block)) ∧
    (∀ inner, (readItemsWith record [] none (pieces ',' inner)).run [] =
        pure (readItems [] none (pieces ',' inner), attempts none (pieces ',' inner)) ∧
      ∀ text ∈ attempts none (pieces ',' inner), text.length < ('[' :: (inner ++ [']'])).length) ∧
    ∀ depth text, text.length < depth → parseWithin depth text = some (parseText text) := by
  refine ⟨fun inner => ?_, fun inner => ⟨?_, fun text member => ?_⟩,
    fun depth text => parseWithin_eq⟩
  · obtain ⟨blocks, division, isGroups⟩ := exists_division inner
    refine ⟨blocks, division, fun others another => another.unique division, ?_⟩
    rw [readItems_pieces, isGroups, List.map_map]
    rfl
  · rw [run_readItemsWith_record, List.nil_append]
  · have attemptLength := length_le_of_mem_attempts member
    rw [List.length_cons, List.length_append, List.length_singleton]
    omega

end DecisionNetwork.Value
