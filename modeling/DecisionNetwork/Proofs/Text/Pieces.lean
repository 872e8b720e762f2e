import DecisionNetwork.Text.Blank
import Mathlib.Data.List.TakeWhile

/-!
Contract: splitting, joining and trimming of texts.

Owns:
- `pieces_eq_splitOn`, through which the laws of splitting are those of lists, and
  `pieces_eq_cons_iff`, which tells the pieces by the text;
- `exists_trim`, `trim_between_blanks` and `trim_trim`, what trimming takes off and what it leaves;
- `trimLeft_append_cons` and `trimRight_append_cons`, trimming up to a visible character;
- `Bare`, a text that is neither empty nor changed by trimming, told by its ends in `bare_iff`.
-/

namespace DecisionNetwork.Text

section Pieces

variable {separator : Char}

theorem pieces_eq_splitOn (separator : Char) (text : List Char) :
    pieces separator text = text.splitOn separator := by
  induction text with
  | nil => rfl
  | cons head tail inductionHypothesis =>
      unfold pieces
      rw [List.splitOn_cons_eq_if_modifyHead, inductionHypothesis]
      have someTail := List.splitOn_ne_nil separator tail
      by_cases isSeparator : head = separator
      · simp [isSeparator]
      · cases split : tail.splitOn separator with
        | nil => exact absurd split someTail
        | cons piece rest => simp [isSeparator]

theorem pieces_ne_nil (separator : Char) (text : List Char) : pieces separator text ≠ [] := by
  rw [pieces_eq_splitOn]
  exact List.splitOn_ne_nil separator text

theorem pieces_of_notMem {text : List Char} (absent : separator ∉ text) :
    pieces separator text = [text] := by
  rw [pieces_eq_splitOn, List.splitOn_eq_singleton absent]

theorem pieces_append_cons (left right : List Char) :
    pieces separator (left ++ separator :: right) =
      pieces separator left ++ pieces separator right := by
  simp only [pieces_eq_splitOn, List.splitOn_append_cons_self]

theorem notMem_of_mem_pieces {text piece : List Char} (member : piece ∈ pieces separator text) :
    separator ∉ piece := by
  induction text generalizing piece with
  | nil =>
      rw [pieces, List.mem_singleton] at member
      rw [member]
      exact List.not_mem_nil
  | cons head tail inductionHypothesis =>
      unfold pieces at member
      split at member
      next =>
          rcases List.mem_cons.1 member with rfl | later
          · exact List.not_mem_nil
          · exact inductionHypothesis later
      next differs =>
          cases split : pieces separator tail with
          | nil => exact absurd split (pieces_ne_nil separator tail)
          | cons first rest =>
              rw [split] at member inductionHypothesis
              rcases List.mem_cons.1 member with rfl | later
              · have absent := inductionHypothesis List.mem_cons_self
                rw [List.mem_cons, not_or]
                exact ⟨Ne.symm differs, absent⟩
              · exact inductionHypothesis (List.mem_cons_of_mem _ later)

/-- The pieces of a text are the texts without separators that it is made of, each but the first
behind a separator. -/
theorem pieces_eq_cons_iff {text first : List Char} {rest : List (List Char)} :
    pieces separator text = first :: rest ↔
      text = first ++ rest.flatMap (fun piece => separator :: piece) ∧ separator ∉ first ∧
        ∀ piece ∈ rest, separator ∉ piece := by
  constructor
  · intro split
    refine ⟨?_, List.forall_mem_cons.1 fun piece member => notMem_of_mem_pieces (split ▸ member)⟩
    induction text generalizing first rest with
    | nil =>
        cases split
        rfl
    | cons head tail inductionHypothesis =>
        cases tailSplit : pieces separator tail with
        | nil => exact absurd tailSplit (pieces_ne_nil separator tail)
        | cons next others =>
            have isTail := inductionHypothesis tailSplit
            unfold pieces at split
            by_cases isSeparator : head = separator
            · rw [if_pos isSeparator, tailSplit] at split
              cases split
              rw [isTail, isSeparator]
              simp
            · rw [if_neg isSeparator, tailSplit] at split
              cases split
              rw [isTail]
              simp
  · rintro ⟨rfl, firstAbsent, restAbsent⟩
    induction rest generalizing first with
    | nil => simpa using pieces_of_notMem firstAbsent
    | cons piece rest inductionHypothesis =>
        have tailSplit := inductionHypothesis (restAbsent piece List.mem_cons_self)
          fun later member => restAbsent later (List.mem_cons_of_mem piece member)
        rw [List.flatMap_cons, List.cons_append, pieces_append_cons, pieces_of_notMem firstAbsent,
          tailSplit]
        rfl

/-- A character of a text is a separator or part of a piece. -/
theorem mem_pieces_of_mem (separator : Char) {text : List Char} {character : Char}
    (member : character ∈ text) :
    character = separator ∨ ∃ piece ∈ pieces separator text, character ∈ piece := by
  induction text with
  | nil => cases member
  | cons head tail inductionHypothesis =>
      unfold pieces
      by_cases isSeparator : head = separator
      · rw [if_pos isSeparator]
        rcases List.mem_cons.1 member with rfl | later
        · exact Or.inl isSeparator
        · apply (inductionHypothesis later).imp_right
          rintro ⟨piece, isPiece, inPiece⟩
          exact ⟨piece, List.mem_cons_of_mem _ isPiece, inPiece⟩
      · rw [if_neg isSeparator]
        cases split : pieces separator tail with
        | nil => exact absurd split (pieces_ne_nil separator tail)
        | cons first rest =>
            rw [split] at inductionHypothesis
            rcases List.mem_cons.1 member with rfl | later
            · exact Or.inr ⟨_, List.mem_cons_self, List.mem_cons_self⟩
            · refine (inductionHypothesis later).imp_right ?_
              rintro ⟨piece, isPiece, inPiece⟩
              rcases List.mem_cons.1 isPiece with rfl | further
              · exact ⟨_, List.mem_cons_self, List.mem_cons_of_mem _ inPiece⟩
              · exact ⟨piece, List.mem_cons_of_mem _ further, inPiece⟩

/-- The pieces of joined texts are those of the texts in order. -/
theorem pieces_intercalate (separator : Char) {texts : List (List Char)} (someText : texts ≠ []) :
    pieces separator ([separator].intercalate texts) = texts.flatMap (pieces separator) := by
  induction texts with
  | nil => exact absurd rfl someText
  | cons text rest inductionHypothesis =>
      cases rest with
      | nil => simp
      | cons next further =>
          rw [List.intercalate_cons_cons, List.append_assoc, List.singleton_append,
            pieces_append_cons, inductionHypothesis (List.cons_ne_nil _ _)]
          rfl

end Pieces

section Trim

theorem head?_trimLeft_visible {text : List Char} {first : Char}
    (isFirst : (trimLeft text).head? = some first) : isBlank first = false := by
  have visible := List.head?_dropWhile_not isBlank text
  unfold trimLeft at isFirst
  rw [isFirst] at visible
  exact visible

theorem getLast?_trimRight_visible {text : List Char} {last : Char}
    (isLast : (trimRight text).getLast? = some last) : isBlank last = false := by
  unfold trimRight at isLast
  rw [List.getLast?_reverse] at isLast
  exact head?_trimLeft_visible isLast

theorem trimLeft_eq_self {text : List Char}
    (visible : ∀ first, text.head? = some first → isBlank first = false) :
    trimLeft text = text := by
  cases text with
  | nil => rfl
  | cons first rest =>
      have firstVisible := visible first rfl
      exact List.dropWhile_cons_of_neg (by simp [firstVisible])

theorem trimRight_eq_self {text : List Char}
    (visible : ∀ last, text.getLast? = some last → isBlank last = false) :
    trimRight text = text := by
  have reversed : text.reverse.dropWhile isBlank = text.reverse :=
    trimLeft_eq_self fun last isLast => visible last (by rwa [List.head?_reverse] at isLast)
  unfold trimRight
  rw [reversed, List.reverse_reverse]

theorem exists_trimLeft (text : List Char) :
    ∃ blanks, text = blanks ++ trimLeft text ∧ ∀ character ∈ blanks, isBlank character = true :=
  ⟨text.takeWhile isBlank, List.takeWhile_append_dropWhile.symm,
    List.all_eq_true.1 List.all_takeWhile⟩

theorem exists_trimRight (text : List Char) :
    ∃ blanks, text = trimRight text ++ blanks ∧ ∀ character ∈ blanks, isBlank character = true := by
  obtain ⟨blanks, isReverse, areBlank⟩ := exists_trimLeft text.reverse
  refine ⟨blanks.reverse, ?_, fun _ member => areBlank _ (List.mem_reverse.1 member)⟩
  rw [← List.reverse_inj, List.reverse_append, List.reverse_reverse, trimRight,
    List.reverse_reverse]
  exact isReverse

/-- A text is what trimming leaves between blank characters. -/
theorem exists_trim (text : List Char) :
    ∃ before after, text = before ++ (trim text ++ after) ∧
      (∀ character ∈ before, isBlank character = true) ∧
      ∀ character ∈ after, isBlank character = true := by
  obtain ⟨before, isText, blankBefore⟩ := exists_trimLeft text
  obtain ⟨after, isLeft, blankAfter⟩ := exists_trimRight (trimLeft text)
  refine ⟨before, after, ?_, blankBefore, blankAfter⟩
  rw [trim, ← isLeft]
  exact isText

/-- What stands before a visible character is trimmed on its own. -/
theorem trimLeft_append_cons (front back : List Char) {character : Char}
    (visible : isBlank character = false) :
    trimLeft (front ++ character :: back) = trimLeft front ++ character :: back := by
  induction front with
  | nil => exact List.dropWhile_cons_of_neg (by simp [visible])
  | cons head tail inductionHypothesis =>
      cases blank : isBlank head with
      | true =>
          have dropped (rest : List Char) : trimLeft (head :: rest) = trimLeft rest :=
            List.dropWhile_cons_of_pos blank
          rw [List.cons_append, dropped, dropped, inductionHypothesis]
      | false =>
          have kept (rest : List Char) : trimLeft (head :: rest) = head :: rest :=
            List.dropWhile_cons_of_neg (by simp [blank])
          rw [List.cons_append, kept, kept, List.cons_append]

theorem trimRight_append_cons (front back : List Char) {character : Char}
    (visible : isBlank character = false) :
    trimRight (front ++ character :: back) = front ++ character :: trimRight back := by
  have reversed : (front ++ character :: back).reverse =
      back.reverse ++ character :: front.reverse := by simp
  have trimmed := trimLeft_append_cons back.reverse front.reverse visible
  unfold trimLeft at trimmed
  unfold trimRight
  rw [reversed, trimmed]
  simp

/-- Blank characters around a text are trimmed off. -/
theorem trim_between_blanks {before after : List Char} (text : List Char)
    (blankBefore : ∀ character ∈ before, isBlank character = true)
    (blankAfter : ∀ character ∈ after, isBlank character = true) :
    trim (before ++ (text ++ after)) = trim text := by
  have left : trimLeft (before ++ (text ++ after)) = trimLeft (text ++ after) :=
    List.dropWhile_append_of_pos blankBefore
  have right (front : List Char) : trimRight (front ++ after) = trimRight front := by
    unfold trimRight
    rw [List.reverse_append, List.dropWhile_append_of_pos]
    exact fun character member => blankAfter character (List.mem_reverse.1 member)
  unfold trim
  rw [left]
  unfold trimLeft
  rw [List.dropWhile_append]
  split
  next allBlank =>
      have noRest : after.dropWhile isBlank = [] := List.dropWhile_eq_nil_iff.2 blankAfter
      rw [noRest, List.isEmpty_iff.1 allBlank]
  next => exact right _

theorem mem_of_mem_trim {text : List Char} {character : Char} (member : character ∈ trim text) :
    character ∈ text := by
  obtain ⟨before, after, isText, -⟩ := exists_trim text
  rw [isText]
  exact List.mem_append_right _ (List.mem_append_left _ member)

theorem head?_trim_visible {text : List Char} {first : Char}
    (isFirst : (trim text).head? = some first) : isBlank first = false := by
  obtain ⟨blanks, isLeft, -⟩ := exists_trimRight (trimLeft text)
  apply @head?_trimLeft_visible text
  rw [isLeft, List.head?_append]
  rw [trim] at isFirst
  rw [isFirst]
  rfl

theorem trim_trim (text : List Char) : trim (trim text) = trim text := by
  have left : trimLeft (trim text) = trim text := trimLeft_eq_self fun _ => head?_trim_visible
  have right : trimRight (trim text) = trim text :=
    trimRight_eq_self fun _ => getLast?_trimRight_visible
  rw [trim, left, right]

/-- A text that is neither empty nor changed by trimming. -/
def Bare (text : List Char) : Prop := text ≠ [] ∧ trim text = text

theorem bare_trim {text : List Char} (some : trim text ≠ []) : Bare (trim text) :=
  ⟨some, trim_trim text⟩

/-- A text is bare if and only if it has ends and both are visible. -/
theorem bare_iff {text : List Char} :
    Bare text ↔ text ≠ [] ∧
      (∀ first, text.head? = some first → isBlank first = false) ∧
      ∀ last, text.getLast? = some last → isBlank last = false := by
  constructor
  · rintro ⟨someText, unchanged⟩
    refine ⟨someText, fun first isFirst => ?_, fun last isLast => ?_⟩
    · exact head?_trim_visible (by rw [unchanged]; exact isFirst)
    · rw [← unchanged] at isLast
      exact getLast?_trimRight_visible isLast
  · rintro ⟨someText, firstVisible, lastVisible⟩
    refine ⟨someText, ?_⟩
    rw [trim, trimLeft_eq_self firstVisible, trimRight_eq_self lastVisible]

theorem Bare.trimLeft_eq {text : List Char} (bare : Bare text) : trimLeft text = text :=
  trimLeft_eq_self (bare_iff.1 bare).2.1

/-- Texts of visible characters are bare. -/
theorem bare_of_visible {text : List Char} (someText : text ≠ [])
    (visible : ∀ character ∈ text, isBlank character = false) : Bare text :=
  bare_iff.2 ⟨someText, fun _ isFirst => visible _ (List.mem_of_mem_head? isFirst),
    fun _ isLast => visible _ (List.mem_of_mem_getLast? isLast)⟩

/-- What two texts with visible outer ends are joined to is bare. -/
theorem Bare.append {front back : List Char} (frontBare : Bare front) (backBare : Bare back)
    (middle : List Char) : Bare (front ++ (middle ++ back)) := by
  obtain ⟨someFront, firstVisible, -⟩ := bare_iff.1 frontBare
  obtain ⟨someBack, -, lastVisible⟩ := bare_iff.1 backBare
  refine bare_iff.2 ⟨by simp [someFront], fun first isFirst => ?_, fun last isLast => ?_⟩
  · obtain ⟨head, tail, rfl⟩ := List.exists_cons_of_ne_nil someFront
    exact firstVisible first isFirst
  · obtain ⟨init, final, rfl⟩ := (List.eq_nil_or_concat back).resolve_left someBack
    rw [List.concat_eq_append] at isLast lastVisible
    rw [← List.append_assoc, ← List.append_assoc, List.getLast?_concat] at isLast
    exact lastVisible last (by rwa [List.getLast?_concat])

end Trim

end DecisionNetwork.Text
