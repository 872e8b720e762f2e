import DecisionNetwork.Proofs.Text.Pieces
import DecisionNetwork.Value.Parse
import Mathlib.Algebra.BigOperators.Group.List.Basic
import Mathlib.Algebra.Ring.Int.Defs

/-!
Contract: the grouping of the fragments of a list by open parentheses.

Owns:
- the laws of `parenthesisBalance`, as a sum over the characters and as a difference of counts;
- `groups`, the texts that the fragments between list brackets are joined to;
- `IsGroup`, the texts that come about in this way: bare fragments, each joined to an open text;
- `isGroup_of_mem_groups`, `closed_of_mem_groupsFrom` and `flatMap_pieces_groups`, which tell what
  grouping yields;
- `groups_intercalate`: groups are read from their joined text as before.
-/

namespace DecisionNetwork.Value

open DecisionNetwork.Text

section Balance

/-- What a character adds to the balance. -/
def weight (character : Char) : Int :=
  if character = '(' then 1 else if character = ')' then -1 else 0

theorem parenthesisBalance_eq_sum (text : List Char) :
    parenthesisBalance text = (text.map weight).sum := by
  have fromStart (start : Int) : text.foldl (fun balance character =>
      if character = '(' then balance + 1
      else if character = ')' then balance - 1
      else balance) start = start + (text.map weight).sum := by
    induction text generalizing start with
    | nil => simp
    | cons character rest inductionHypothesis =>
        rw [List.foldl_cons, inductionHypothesis, List.map_cons, List.sum_cons, weight]
        split_ifs <;> omega
  unfold parenthesisBalance
  rw [fromStart, zero_add]

theorem parenthesisBalance_append (left right : List Char) :
    parenthesisBalance (left ++ right) = parenthesisBalance left + parenthesisBalance right := by
  simp only [parenthesisBalance_eq_sum, List.map_append, List.sum_append]

theorem parenthesisBalance_cons (character : Char) (text : List Char) :
    parenthesisBalance (character :: text) = weight character + parenthesisBalance text := by
  simp only [parenthesisBalance_eq_sum, List.map_cons, List.sum_cons]

/-- A text without parentheses is balanced. -/
theorem parenthesisBalance_eq_zero {text : List Char}
    (noParenthesis : ∀ character ∈ text, weight character = 0) : parenthesisBalance text = 0 := by
  rw [parenthesisBalance_eq_sum]
  apply List.sum_eq_zero
  intro added member
  obtain ⟨character, inText, rfl⟩ := List.mem_map.1 member
  exact noParenthesis character inText

theorem weight_of_blank {character : Char} (blank : isBlank character = true) :
    weight character = 0 := by
  unfold weight
  rw [if_neg, if_neg]
  · rintro rfl
    exact absurd blank (by decide)
  · rintro rfl
    exact absurd blank (by decide)

theorem parenthesisBalance_trim (text : List Char) :
    parenthesisBalance (trim text) = parenthesisBalance text := by
  obtain ⟨before, after, isText, blankBefore, blankAfter⟩ := exists_trim text
  have unchanged := parenthesisBalance_append before (trim text ++ after)
  rw [← isText, parenthesisBalance_append,
    parenthesisBalance_eq_zero fun _ member => weight_of_blank (blankBefore _ member),
    parenthesisBalance_eq_zero fun _ member => weight_of_blank (blankAfter _ member)] at unchanged
  omega

theorem leavesOpen_iff (text : List Char) :
    leavesOpen text = true ↔ 0 < parenthesisBalance text := decide_eq_true_iff

theorem parenthesisBalance_eq_count (text : List Char) :
    parenthesisBalance text = (text.count '(' : Int) - text.count ')' := by
  induction text with
  | nil => rfl
  | cons character rest inductionHypothesis =>
      rw [parenthesisBalance_cons, inductionHypothesis, List.count_cons, List.count_cons, weight]
      by_cases opens : character = '('
      · subst opens
        simp
        omega
      · by_cases closes : character = ')'
        · subst closes
          simp
          omega
        · simp [opens, closes]

theorem leavesOpen_iff_count (text : List Char) :
    leavesOpen text = true ↔ text.count ')' < text.count '(' := by
  rw [leavesOpen_iff, parenthesisBalance_eq_count]
  omega

theorem leavesOpen_congr {left right : List Char}
    (same : parenthesisBalance left = parenthesisBalance right) :
    leavesOpen left = leavesOpen right := by
  unfold leavesOpen
  rw [same]

end Balance

section Grouping

/-- The trimmed pieces that are not blank. -/
def fragments (pieces : List (List Char)) : List (List Char) :=
  (pieces.map trim).filter fun fragment => !fragment.isEmpty

/-- Joins fragments from the left until the joined text leaves no parenthesis open. -/
def groupsFrom : Option (List Char) → List (List Char) → List (List Char)
  | opened, [] => opened.toList
  | opened, fragment :: rest =>
    if leavesOpen (joinOpen opened fragment) then groupsFrom (some (joinOpen opened fragment)) rest
    else joinOpen opened fragment :: groupsFrom none rest

/-- The texts that the fragments between list brackets are joined to. -/
def groups (inner : List Char) : List (List Char) := groupsFrom none (fragments (pieces ',' inner))

/-- Fragments without commas, each but the first joined to a text that leaves a parenthesis
open. -/
inductive IsGroup : List Char → Prop where
  | fragment {text : List Char} (bare : Bare text) (noComma : ',' ∉ text) : IsGroup text
  | joined {opened text : List Char} (group : IsGroup opened) (isOpen : leavesOpen opened = true)
      (bare : Bare text) (noComma : ',' ∉ text) : IsGroup (opened ++ ',' :: text)

theorem fragments_cons (piece : List Char) (rest : List (List Char)) :
    fragments (piece :: rest) =
      if (trim piece).isEmpty then fragments rest else trim piece :: fragments rest := by
  unfold fragments
  rw [List.map_cons, List.filter_cons]
  cases (trim piece).isEmpty <;> rfl

theorem fragments_append (left right : List (List Char)) :
    fragments (left ++ right) = fragments left ++ fragments right := by
  unfold fragments
  rw [List.map_append, List.filter_append]

/-- Bare pieces are fragments as they are. -/
theorem fragments_of_bare {pieces : List (List Char)} (bare : ∀ piece ∈ pieces, Bare piece) :
    fragments pieces = pieces := by
  have trimmed : pieces.map trim = pieces := by
    conv_rhs => rw [← List.map_id pieces]
    exact List.map_congr_left fun piece member => (bare piece member).2
  unfold fragments
  rw [trimmed, List.filter_eq_self]
  intro piece member
  simp [(bare piece member).1]

theorem bare_of_mem_fragments {pieces : List (List Char)} {fragment : List Char}
    (member : fragment ∈ fragments pieces) : Bare fragment := by
  obtain ⟨isTrimmed, nonempty⟩ := List.mem_filter.1 member
  obtain ⟨piece, -, rfl⟩ := List.mem_map.1 isTrimmed
  exact bare_trim (by simpa using nonempty)

theorem noComma_of_mem_fragments {inner fragment : List Char}
    (member : fragment ∈ fragments (pieces ',' inner)) : ',' ∉ fragment := by
  obtain ⟨isTrimmed, -⟩ := List.mem_filter.1 member
  obtain ⟨piece, isPiece, rfl⟩ := List.mem_map.1 isTrimmed
  exact fun inTrimmed => notMem_of_mem_pieces isPiece (mem_of_mem_trim inTrimmed)

namespace IsGroup

theorem bare_pieces {text : List Char} (group : IsGroup text) :
    ∀ piece ∈ pieces ',' text, Bare piece := by
  induction group with
  | fragment bare noComma =>
      rw [pieces_of_notMem noComma]
      exact List.forall_mem_singleton.2 bare
  | joined group isOpen bare noComma inductionHypothesis =>
      rw [pieces_append_cons, pieces_of_notMem noComma]
      intro piece member
      rcases List.mem_append.1 member with early | last
      · exact inductionHypothesis piece early
      · rw [List.mem_singleton.1 last]
        exact bare

theorem isBare {text : List Char} (group : IsGroup text) : Bare text := by
  induction group with
  | fragment bare noComma => exact bare
  | joined group isOpen bare noComma inductionHypothesis =>
      exact inductionHypothesis.append bare [',']

/-- A group with a comma has an opening parenthesis. -/
theorem noComma_of_balanced {text : List Char} (group : IsGroup text)
    (noParenthesis : ∀ character ∈ text, weight character = 0) : ',' ∉ text := by
  cases group with
  | fragment bare noComma => exact noComma
  | joined group isOpen bare noComma =>
      have balanced := parenthesisBalance_eq_zero fun character member =>
        noParenthesis character (List.mem_append_left _ member)
      rw [leavesOpen_iff, balanced] at isOpen
      exact absurd isOpen (Int.lt_irrefl 0)

end IsGroup

section Yield

variable {opened : Option (List Char)}
  (openGroup : ∀ text ∈ opened, IsGroup text ∧ leavesOpen text = true)
include openGroup

theorem isGroup_joinOpen {fragment : List Char} (bare : Bare fragment) (noComma : ',' ∉ fragment) :
    IsGroup (joinOpen opened fragment) := by
  cases opened with
  | none => exact .fragment bare noComma
  | some text =>
      obtain ⟨group, isOpen⟩ := openGroup text rfl
      exact .joined group isOpen bare noComma

theorem isGroup_of_mem_groupsFrom {fragments : List (List Char)}
    (bare : ∀ fragment ∈ fragments, Bare fragment)
    (noComma : ∀ fragment ∈ fragments, ',' ∉ fragment) :
    ∀ group ∈ groupsFrom opened fragments, IsGroup group := by
  induction fragments generalizing opened with
  | nil =>
      intro group member
      exact (openGroup group (Option.mem_toList.1 member)).1
  | cons fragment rest inductionHypothesis =>
      have joined := isGroup_joinOpen openGroup (bare fragment List.mem_cons_self)
        (noComma fragment List.mem_cons_self)
      have restBare := fun later member => bare later (List.mem_cons_of_mem fragment member)
      have restNoComma := fun later member => noComma later (List.mem_cons_of_mem fragment member)
      unfold groupsFrom
      split
      next isOpen =>
          refine inductionHypothesis ?_ restBare restNoComma
          intro text isText
          cases isText
          exact ⟨joined, isOpen⟩
      next =>
          intro group member
          rcases List.mem_cons.1 member with rfl | later
          · exact joined
          · exact inductionHypothesis (by simp) restBare restNoComma _ later

end Yield

/-- Only the last group leaves a parenthesis open. -/
theorem closed_of_mem_groupsFrom (opened : Option (List Char)) (fragments : List (List Char)) :
    ∀ group ∈ (groupsFrom opened fragments).dropLast, leavesOpen group = false := by
  induction fragments generalizing opened with
  | nil => cases opened <;> simp [groupsFrom]
  | cons fragment rest inductionHypothesis =>
      unfold groupsFrom
      split
      next => exact inductionHypothesis _
      next closed =>
          intro group member
          cases later : groupsFrom none rest with
          | nil => simp [later] at member
          | cons next further =>
              have restClosed := inductionHypothesis none
              rw [later] at member restClosed
              rcases List.mem_cons.1 member with rfl | inRest
              · exact Bool.eq_false_iff.2 closed
              · exact restClosed group inRest

/-- Grouping loses, repeats and reorders no fragment. -/
theorem flatMap_pieces_groupsFrom (opened : Option (List Char)) {fragments : List (List Char)}
    (noComma : ∀ fragment ∈ fragments, ',' ∉ fragment) :
    (groupsFrom opened fragments).flatMap (pieces ',') =
      opened.toList.flatMap (pieces ',') ++ fragments := by
  induction fragments generalizing opened with
  | nil => rw [groupsFrom, List.append_nil]
  | cons fragment rest inductionHypothesis =>
      have restNoComma := fun later member => noComma later (List.mem_cons_of_mem fragment member)
      have joined : pieces ',' (joinOpen opened fragment) =
          opened.toList.flatMap (pieces ',') ++ [fragment] := by
        have single := pieces_of_notMem (noComma fragment List.mem_cons_self)
        cases opened with
        | none => exact single
        | some text => simp [joinOpen, pieces_append_cons, single]
      unfold groupsFrom
      split
      next =>
          rw [inductionHypothesis _ restNoComma]
          simp [joined]
      next =>
          rw [List.flatMap_cons, inductionHypothesis none restNoComma, joined]
          simp

/-- The pieces of one group are joined to it again. -/
theorem groupsFrom_pieces_append {text : List Char} (group : IsGroup text)
    (rest : List (List Char)) :
    groupsFrom none (pieces ',' text ++ rest) =
      if leavesOpen text then groupsFrom (some text) rest else text :: groupsFrom none rest := by
  induction group generalizing rest with
  | fragment bare noComma =>
      rw [pieces_of_notMem noComma, List.singleton_append, groupsFrom]
      rfl
  | joined group isOpen bare noComma inductionHypothesis =>
      rw [pieces_append_cons, pieces_of_notMem noComma, List.append_assoc, List.singleton_append,
        inductionHypothesis, if_pos isOpen, groupsFrom]
      rfl

/-- Groups that are split at all commas are grouped as before. -/
theorem groupsFrom_flatMap_pieces {texts : List (List Char)}
    (areGroups : ∀ text ∈ texts, IsGroup text)
    (closed : ∀ text ∈ texts.dropLast, leavesOpen text = false) :
    groupsFrom none (texts.flatMap (pieces ',')) = texts := by
  induction texts with
  | nil => rfl
  | cons text rest inductionHypothesis =>
      rw [List.flatMap_cons, groupsFrom_pieces_append (areGroups text List.mem_cons_self)]
      cases rest with
      | nil => split <;> rfl
      | cons next further =>
          have textClosed := closed text List.mem_cons_self
          have restSame := inductionHypothesis
            (fun later member => areGroups later (List.mem_cons_of_mem _ member))
            (fun later member => closed later (List.mem_cons_of_mem _ member))
          rw [if_neg (by simp [textClosed]), restSame]

theorem isGroup_of_mem_groups {inner group : List Char} (member : group ∈ groups inner) :
    IsGroup group :=
  isGroup_of_mem_groupsFrom (by simp)
    (fun _ isFragment => bare_of_mem_fragments isFragment)
    (fun _ isFragment => noComma_of_mem_fragments isFragment) group member

theorem flatMap_pieces_groups (inner : List Char) :
    (groups inner).flatMap (pieces ',') = fragments (pieces ',' inner) :=
  flatMap_pieces_groupsFrom none fun _ isFragment => noComma_of_mem_fragments isFragment

/-- Groups that only the last of which leaves a parenthesis open are read from their joined text. -/
theorem groups_intercalate {texts : List (List Char)} (areGroups : ∀ text ∈ texts, IsGroup text)
    (closed : ∀ text ∈ texts.dropLast, leavesOpen text = false) :
    groups ([','].intercalate texts) = texts := by
  unfold groups
  rcases texts.eq_nil_or_concat with rfl | ⟨front, last, isTexts⟩
  · decide
  · have someText : texts ≠ [] := by rw [isTexts]; simp
    have bare : ∀ piece ∈ texts.flatMap (pieces ','), Bare piece := by
      intro piece member
      obtain ⟨text, isText, inText⟩ := List.mem_flatMap.1 member
      exact (areGroups text isText).bare_pieces piece inText
    rw [pieces_intercalate ',' someText, fragments_of_bare bare,
      groupsFrom_flatMap_pieces areGroups closed]

end Grouping

section Brackets

theorem parenthesisBalance_bracket (text : List Char) :
    parenthesisBalance ('[' :: text) = parenthesisBalance text := by
  rw [parenthesisBalance_cons]
  exact Int.zero_add _

theorem leavesOpen_bracket (text : List Char) : leavesOpen ('[' :: text) = leavesOpen text :=
  leavesOpen_congr (parenthesisBalance_bracket text)

theorem groupsFrom_singleton (opened : Option (List Char)) (fragment : List Char) :
    groupsFrom opened [fragment] = [joinOpen opened fragment] := by
  unfold groupsFrom
  split <;> rfl

theorem bare_singleton {character : Char} (visible : isBlank character = false) :
    Bare [character] :=
  bare_of_visible (List.cons_ne_nil _ _) (List.forall_mem_singleton.2 visible)

theorem IsGroup.cons_bracket {text : List Char} (group : IsGroup text) : IsGroup ('[' :: text) := by
  have bracketBare : Bare ['['] := bare_singleton (by decide)
  induction group with
  | fragment bare noComma =>
      refine .fragment (bracketBare.append bare []) ?_
      rw [List.mem_cons, not_or]
      exact ⟨by decide, noComma⟩
  | joined group isOpen bare noComma inductionHypothesis =>
      refine .joined inductionHypothesis ?_ bare noComma
      rw [leavesOpen_bracket]
      exact isOpen

/-- Brackets around a group make a group. -/
theorem IsGroup.bracket {text : List Char} (group : IsGroup text) :
    IsGroup ('[' :: (text ++ [']'])) := by
  have bracketBare : Bare [']'] := bare_singleton (by decide)
  have noCommaAfter {last : List Char} (noComma : ',' ∉ last) : ',' ∉ last ++ [']'] := by
    rw [List.mem_append, not_or]
    exact ⟨noComma, by decide⟩
  cases group with
  | fragment bare noComma =>
      exact IsGroup.cons_bracket (.fragment (bare.append bracketBare []) (noCommaAfter noComma))
  | joined group isOpen bare noComma =>
      rw [List.append_assoc, ← List.cons_append]
      refine .joined group.cons_bracket ?_ (bare.append bracketBare []) (noCommaAfter noComma)
      rw [leavesOpen_bracket]
      exact isOpen

theorem fragments_singleton (piece : List Char) :
    (fragments [piece] = [] ∧ parenthesisBalance piece = 0) ∨ fragments [piece] = [trim piece] := by
  rw [fragments_cons]
  split
  next blank =>
      refine Or.inl ⟨rfl, ?_⟩
      rw [← parenthesisBalance_trim, List.isEmpty_iff.1 blank]
      rfl
  next => exact Or.inr rfl

/-- After an opening bracket the fragments of an open group are joined to one open text. -/
theorem groupsFrom_open_bracket {text : List Char} (group : IsGroup text)
    (isOpen : leavesOpen text = true) {inner : List Char} (bracketed : text = '[' :: inner) :
    ∃ opened, parenthesisBalance opened = parenthesisBalance inner ∧
      ∀ rest, groupsFrom none (fragments (pieces ',' inner) ++ rest) =
        groupsFrom (some opened) rest := by
  induction group generalizing inner with
  | fragment bare noComma =>
      subst bracketed
      rw [leavesOpen_bracket, leavesOpen_iff] at isOpen
      rw [pieces_of_notMem fun inInner => noComma (List.mem_cons_of_mem _ inInner)]
      rcases fragments_singleton inner with ⟨-, balanced⟩ | isFragment
      · omega
      · refine ⟨trim inner, parenthesisBalance_trim inner, fun rest => ?_⟩
        have trimOpen : leavesOpen (joinOpen none (trim inner)) = true := by
          rw [leavesOpen_iff, joinOpen, parenthesisBalance_trim]
          exact isOpen
        rw [isFragment, List.singleton_append, groupsFrom, if_pos trimOpen]
        rfl
  | @joined opened last group openedOpen bare noComma inductionHypothesis =>
      obtain ⟨first, front, isOpened⟩ := List.exists_cons_of_ne_nil group.isBare.1
      subst isOpened
      rw [List.cons_append, List.cons.injEq] at bracketed
      obtain ⟨rfl, rfl⟩ := bracketed
      obtain ⟨joined, sameBalance, isJoined⟩ := inductionHypothesis openedOpen rfl
      rw [List.cons_append, leavesOpen_bracket, leavesOpen_iff, parenthesisBalance_append] at isOpen
      refine ⟨joined ++ ',' :: last, ?_, fun rest => ?_⟩
      · rw [parenthesisBalance_append, parenthesisBalance_append, sameBalance]
      · have joinedOpen : leavesOpen (joinOpen (some joined) last) = true := by
          rw [leavesOpen_iff, joinOpen, parenthesisBalance_append, sameBalance]
          exact isOpen
        rw [pieces_append_cons, fragments_append, pieces_of_notMem noComma,
          fragments_of_bare (List.forall_mem_singleton.2 bare), List.append_assoc, isJoined,
          List.singleton_append, groupsFrom, if_pos joinedOpen]
        rfl

/-- Inside a bracketed group there is at most one group, as balanced as the inside. -/
theorem groups_of_isGroup_bracket {inner : List Char} (group : IsGroup ('[' :: (inner ++ [']']))) :
    (groups inner = [] ∧ parenthesisBalance inner = 0) ∨
      ∃ single, groups inner = [single] ∧
        parenthesisBalance single = parenthesisBalance inner := by
  generalize bracketed : '[' :: (inner ++ [']']) = text at group
  unfold groups
  cases group with
  | fragment bare noComma =>
      subst bracketed
      have innerNoComma : ',' ∉ inner := fun inInner =>
        noComma (List.mem_cons_of_mem _ (List.mem_append_left _ inInner))
      rw [pieces_of_notMem innerNoComma]
      rcases fragments_singleton inner with ⟨noFragment, balanced⟩ | isFragment
      · rw [noFragment]
        exact Or.inl ⟨rfl, balanced⟩
      · rw [isFragment, groupsFrom_singleton]
        exact Or.inr ⟨_, rfl, parenthesisBalance_trim inner⟩
  | @joined opened last group isOpen bare noComma =>
      obtain ⟨first, front, isOpened⟩ := List.exists_cons_of_ne_nil group.isBare.1
      obtain ⟨init, final, isLast⟩ := (last.eq_nil_or_concat).resolve_left bare.1
      rw [List.concat_eq_append] at isLast
      subst isOpened isLast
      rw [List.cons_append, List.cons.injEq, ← List.cons_append, ← List.append_assoc] at bracketed
      obtain ⟨rfl, sameInside⟩ := bracketed
      obtain ⟨isInner, -⟩ := List.append_inj' sameInside rfl
      subst isInner
      obtain ⟨joined, sameBalance, isJoined⟩ := groupsFrom_open_bracket group isOpen rfl
      have initNoComma : ',' ∉ init := fun inInit => noComma (List.mem_append_left _ inInit)
      have commaBalanced : weight ',' = 0 := rfl
      right
      rw [pieces_append_cons, fragments_append, pieces_of_notMem initNoComma, isJoined,
        parenthesisBalance_append, parenthesisBalance_cons]
      rcases fragments_singleton init with ⟨noFragment, balanced⟩ | isFragment
      · rw [noFragment]
        exact ⟨joined, rfl, by omega⟩
      · rw [isFragment, groupsFrom_singleton]
        refine ⟨_, rfl, ?_⟩
        rw [joinOpen, parenthesisBalance_append, parenthesisBalance_cons, parenthesisBalance_trim]
        omega

end Brackets

end DecisionNetwork.Value
