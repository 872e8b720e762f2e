import DecisionNetwork.Proofs.Value.Groups

/-!
Contract: the fragments of a list, divided where no parenthesis is open.

Owns:
- `joined`, the text of several fragments, and `Closed`, a text that no fragment has to follow;
- `IsDivision`, fragments divided from the left into blocks that end as soon as they are closed;
- `IsDivision.unique`: fragments are divided in one way at most;
- `exists_division`: they are divided, and the joined blocks are the groups.

The division is told by the fragments alone, without a text that is open.
-/

namespace DecisionNetwork.Value

/-- The text of fragments with commas between them. -/
def joined (block : List (List Char)) : List Char := [','].intercalate block

/-- Whether a text has no more opening than closing parentheses. -/
def Closed (text : List Char) : Prop := text.count '(' ≤ text.count ')'

/-- Whether blocks are fragments divided from the left, each block but the last ending at the first
fragment after which it is closed. -/
structure IsDivision (fragments : List (List Char)) (blocks : List (List (List Char))) : Prop where
  flatten_eq : blocks.flatten = fragments
  ne_nil : ∀ block ∈ blocks, block ≠ []
  openInside : ∀ block ∈ blocks, ∀ front, front <+: block → front ≠ [] → front ≠ block →
    ¬ Closed (joined front)
  closedAtEnd : ∀ block ∈ blocks.dropLast, Closed (joined block)

section Closing

theorem leavesOpen_iff_not_closed (text : List Char) : leavesOpen text = true ↔ ¬ Closed text := by
  rw [leavesOpen_iff_count, Closed, Nat.not_le]

theorem leavesOpen_eq_false_iff (text : List Char) : leavesOpen text = false ↔ Closed text := by
  rw [← Bool.not_eq_true, leavesOpen_iff_not_closed, not_not]

end Closing

namespace IsDivision

variable {fragments block rest : List (List Char)}
  {blocks others : List (List (List Char))}

theorem nil : IsDivision [] [] where
  flatten_eq := rfl
  ne_nil _ member := by cases member
  openInside _ member := by cases member
  closedAtEnd _ member := by cases member

/-- The blocks after the first one divide the fragments that are left. -/
theorem tail (division : IsDivision fragments (block :: blocks)) :
    IsDivision blocks.flatten blocks where
  flatten_eq := rfl
  ne_nil later member := division.ne_nil later (List.mem_cons_of_mem block member)
  openInside later member := division.openInside later (List.mem_cons_of_mem block member)
  closedAtEnd later member := by
    cases blocks with
    | nil => cases member
    | cons next further => exact division.closedAtEnd later (List.mem_cons_of_mem block member)

/-- A block in front that is closed, and before that was open, divides the fragments further. -/
theorem cons (division : IsDivision rest blocks) (someFragment : block ≠ [])
    (openInside : ∀ front, front <+: block → front ≠ [] → front ≠ block → ¬ Closed (joined front))
    (closed : Closed (joined block)) : IsDivision (block ++ rest) (block :: blocks) where
  flatten_eq := by rw [List.flatten_cons, division.flatten_eq]
  ne_nil := List.forall_mem_cons.2 ⟨someFragment, division.ne_nil⟩
  openInside := List.forall_mem_cons.2 ⟨openInside, division.openInside⟩
  closedAtEnd later member := by
    cases blocks with
    | nil => cases member
    | cons next further =>
        rcases List.mem_cons.1 member with rfl | inRest
        · exact closed
        · exact division.closedAtEnd later inRest

/-- Fragments that stay open to their end are one block. -/
theorem singleton (someFragment : block ≠ [])
    (openInside : ∀ front, front <+: block → front ≠ [] → ¬ Closed (joined front)) :
    IsDivision block [block] where
  flatten_eq := List.flatten_singleton
  ne_nil := List.forall_mem_singleton.2 someFragment
  openInside := List.forall_mem_singleton.2 fun front isPrefix someFront _ =>
    openInside front isPrefix someFront
  closedAtEnd _ member := by cases member

/-- The first block is not longer in one division than in another. -/
private theorem suffix_eq_nil (first : IsDivision fragments (block :: blocks))
    (second : IsDivision fragments ((block ++ rest) :: others))
    (split : blocks.flatten = rest ++ others.flatten) : rest = [] := by
  by_contra longer
  have isOpen : ¬ Closed (joined block) :=
    second.openInside _ List.mem_cons_self block (List.prefix_append block rest)
      (first.ne_nil block List.mem_cons_self) (by simpa using longer)
  cases blocks with
  | nil => exact longer (List.append_eq_nil_iff.1 split.symm).1
  | cons next further => exact isOpen (first.closedAtEnd block List.mem_cons_self)

/-- Where there are no fragments there are no blocks. -/
theorem eq_nil (division : IsDivision [] blocks) : blocks = [] := by
  cases blocks with
  | nil => rfl
  | cons block blocks =>
      exact absurd (List.flatten_eq_nil_iff.1 division.flatten_eq block List.mem_cons_self)
        (division.ne_nil block List.mem_cons_self)

/-- Fragments are divided in one way at most. -/
theorem unique (first : IsDivision fragments blocks) (second : IsDivision fragments others) :
    blocks = others := by
  induction blocks generalizing fragments others with
  | nil =>
      cases first.flatten_eq
      exact second.eq_nil.symm
  | cons block blocks inductionHypothesis =>
      cases others with
      | nil =>
          cases second.flatten_eq
          exact first.eq_nil
      | cons other others =>
          have sameFlatten : block ++ blocks.flatten = other ++ others.flatten :=
            first.flatten_eq.trans second.flatten_eq.symm
          -- one of the first blocks is the front of the other, and neither is longer
          have sameBlock : block = other := by
            rcases List.append_eq_append_iff.1 sameFlatten with
              ⟨rest, rfl, split⟩ | ⟨rest, rfl, split⟩
            · rw [first.suffix_eq_nil second split, List.append_nil]
            · rw [second.suffix_eq_nil first split, List.append_nil]
          subst sameBlock
          have sameRest := List.append_cancel_left sameFlatten
          rw [inductionHypothesis first.tail (sameRest ▸ second.tail)]

end IsDivision

section Grouping

/-- The text of the fragments that a block has so far, if there are any. -/
def openText (block : List (List Char)) : Option (List Char) :=
  if block.isEmpty then none else some (joined block)

theorem joined_append_singleton {block : List (List Char)} (someFragment : block ≠ [])
    (fragment : List Char) : joined (block ++ [fragment]) = joined block ++ ',' :: fragment := by
  unfold joined
  induction block with
  | nil => exact absurd rfl someFragment
  | cons head tail inductionHypothesis =>
      cases tail with
      | nil => simp
      | cons next further =>
          rw [List.cons_append, List.intercalate_cons_of_ne_nil (by simp),
            List.intercalate_cons_of_ne_nil (by simp), inductionHypothesis (by simp),
            List.append_assoc _ _ (',' :: fragment)]

theorem joinOpen_openText (block : List (List Char)) (fragment : List Char) :
    joinOpen (openText block) fragment = joined (block ++ [fragment]) := by
  cases block with
  | nil => simp [openText, joinOpen, joined]
  | cons head tail => exact (joined_append_singleton (List.cons_ne_nil head tail) fragment).symm

/-- Fragments after a block that is open throughout are divided, and the joined blocks are the
groups. -/
theorem exists_division_append (block rest : List (List Char))
    (isOpen : ∀ front, front <+: block → front ≠ [] → ¬ Closed (joined front)) :
    ∃ blocks, IsDivision (block ++ rest) blocks ∧
      groupsFrom (openText block) rest = blocks.map joined := by
  -- the block grows along the fragments that are left as long as it is open
  induction rest generalizing block with
  | nil =>
      cases block with
      | nil => exact ⟨[], .nil, rfl⟩
      | cons head tail =>
          rw [List.append_nil]
          exact ⟨[head :: tail], .singleton (List.cons_ne_nil head tail) isOpen, rfl⟩
  | cons fragment rest inductionHypothesis =>
      have grown : block ++ fragment :: rest = (block ++ [fragment]) ++ rest := by simp
      rw [grown, groupsFrom, joinOpen_openText]
      split
      next stillOpen =>
          have someFragment : block ++ [fragment] ≠ [] := by simp
          have isText : some (joined (block ++ [fragment])) = openText (block ++ [fragment]) := by
            simp [openText]
          rw [isText]
          refine inductionHypothesis (block ++ [fragment]) fun front isPrefix someFront => ?_
          rcases List.prefix_concat_iff.1 isPrefix with rfl | earlier
          · exact (leavesOpen_iff_not_closed _).1 stillOpen
          · exact isOpen front earlier someFront
      next closed =>
          obtain ⟨blocks, division, isGroups⟩ := inductionHypothesis [] fun front isPrefix some =>
            absurd (List.prefix_nil.1 isPrefix) some
          refine ⟨(block ++ [fragment]) :: blocks, ?_, congrArg (joined _ :: ·) isGroups⟩
          refine division.cons (by simp) (fun front isPrefix someFront proper => ?_) ?_
          · exact isOpen front ((List.prefix_concat_iff.1 isPrefix).resolve_left proper) someFront
          · exact (leavesOpen_eq_false_iff _).1 (Bool.eq_false_iff.2 closed)

/-- The fragments between list brackets are divided, and the joined blocks are the groups. -/
theorem exists_division (inner : List Char) :
    ∃ blocks, IsDivision (fragments (Text.pieces ',' inner)) blocks ∧
      groups inner = blocks.map joined :=
  exists_division_append [] _ fun _ isPrefix some => absurd (List.prefix_nil.1 isPrefix) some

end Grouping

end DecisionNetwork.Value
