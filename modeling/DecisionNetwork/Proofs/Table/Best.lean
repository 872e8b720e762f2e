import DecisionNetwork.Proofs.Assignment.Bindings
import DecisionNetwork.Table.Utility
import Mathlib.Data.List.DropRight
import Mathlib.Data.List.Induction

/-!
Contract: the row that a table names as its best.

Owns:
- `Binary64.lt_of_lt_of_le` and `Binary64.le_iff_not_lt`: among numbers the comparisons of
  arithmetic are those of a total order, and a NaN satisfies none of them;
- `Table.IsUnbeaten`, the promise of a best row: none is greater and no earlier one is equal;
- `Table.best?_of_settled`: the best row is the unbeaten one of the rows after the last NaN, or the
  last row if that is a NaN;
- `Table.best?_isBest_in_both_tables` for both kinds of tables, with the condition under which the
  best row is unbeaten in the whole table.

A NaN takes the place of any row found before it and gives way to any row after it. What came before
it is forgotten.
-/

namespace DecisionNetwork

namespace Binary64

/-- Equality of arithmetic: false when either side is a NaN. -/
def sameNumber (left right : Binary64) : Bool := left.le right && right.le left

section Comparison

variable {first second third : Binary64}

theorem le_iff : first.le second = true ↔
    first.isNaN = false ∧ second.isNaN = false ∧ (compare first second).isLE = true := by
  simp [le, and_assoc]

theorem lt_iff : first.lt second = true ↔
    first.isNaN = false ∧ second.isNaN = false ∧ compare first second = .lt := by
  cases order : compare first second <;> simp [lt, order, Ordering.isLT]

theorem lt_of_lt_of_le (left : first.lt second = true) (right : second.le third = true) :
    first.lt third = true := by
  obtain ⟨number, _, below⟩ := lt_iff.1 left
  obtain ⟨_, otherNumber, otherBelow⟩ := le_iff.1 right
  exact lt_iff.2 ⟨number, otherNumber, Std.TransCmp.lt_of_lt_of_isLE below otherBelow⟩

theorem lt_of_le_of_lt (left : first.le second = true) (right : second.lt third = true) :
    first.lt third = true := by
  obtain ⟨number, _, below⟩ := le_iff.1 left
  obtain ⟨_, otherNumber, otherBelow⟩ := lt_iff.1 right
  exact lt_iff.2 ⟨number, otherNumber, Std.TransCmp.lt_of_isLE_of_lt below otherBelow⟩

theorem le_eq_false_of_lt (below : first.lt second = true) : second.le first = false := by
  obtain ⟨_, _, ordered⟩ := lt_iff.1 below
  rw [← Bool.not_eq_true, le_iff, Std.OrientedCmp.gt_of_lt ordered]
  simp

theorem lt_eq_false_of_lt (below : first.lt second = true) : second.lt first = false := by
  obtain ⟨_, _, ordered⟩ := lt_iff.1 below
  rw [← Bool.not_eq_true, lt_iff, Std.OrientedCmp.gt_of_lt ordered]
  simp

theorem sameNumber_eq_false_of_lt (below : first.lt second = true) :
    first.sameNumber second = false := by
  rw [sameNumber, le_eq_false_of_lt below, Bool.and_false]

theorem lt_irrefl (number : Binary64) : number.lt number = false := by
  rw [← Bool.not_eq_true, lt_iff]
  simp

/-- Of two numbers one is less than the other or at least as great. -/
theorem le_iff_not_lt (number : first.isNaN = false) (otherNumber : second.isNaN = false) :
    first.le second = true ↔ second.lt first = false := by
  rw [← Bool.not_eq_true, le_iff, lt_iff]
  simp only [number, otherNumber, true_and]
  rw [← Std.OrientedCmp.gt_iff_lt]
  cases compare first second <;> simp

theorem le_eq_false_of_isNaN (isNaN : first.isNaN = true ∨ second.isNaN = true) :
    first.le second = false := by
  rcases isNaN with isNaN | isNaN <;> simp [le, isNaN]

theorem lt_eq_false_of_isNaN (isNaN : first.isNaN = true ∨ second.isNaN = true) :
    first.lt second = false := by
  rcases isNaN with isNaN | isNaN <;> simp [lt, isNaN]

end Comparison

end Binary64

namespace Table

/-- The rows after the last one whose number is a NaN. -/
def settled (rows : List (Assignment × Binary64)) : List (Assignment × Binary64) :=
  rows.rtakeWhile fun row => !row.2.isNaN

/-- The rows up to the last one whose number is a NaN. -/
def unsettled (rows : List (Assignment × Binary64)) : List (Assignment × Binary64) :=
  rows.rdropWhile fun row => !row.2.isNaN

/-- No row is greater than this one, and none that comes before it is equal. -/
structure IsUnbeaten (rows : List (Assignment × Binary64)) (best : Assignment × Binary64) :
    Prop where
  isRow : best ∈ rows
  notBeaten : ∀ other ∈ rows, best.2.lt other.2 = false
  firstOfEquals : ∀ other ∈ rows, compare other.1 best.1 = .lt →
    other.2.sameNumber best.2 = false

section Rows

variable {rows : List (Assignment × Binary64)} {row best : Assignment × Binary64}

theorem best?_append_singleton (rows : List (Assignment × Binary64))
    (row : Assignment × Binary64) :
    best? (rows ++ [row]) =
      some (match best? rows with
        | some found => if row.2.le found.2 then found else row
        | none => row) := by
  unfold best?
  rw [List.foldl_append, List.foldl_cons, List.foldl_nil]
  generalize List.foldl _ none rows = before
  cases before with
  | none => rfl
  | some found => exact (apply_ite some _ _ _).symm

/-- A row that compares with none before it takes their place. -/
theorem best?_append_of_not_le
    (replaces : ∀ found, best? rows = some found → row.2.le found.2 = false) :
    best? (rows ++ [row]) = some row := by
  rw [best?_append_singleton]
  cases isFound : best? rows with
  | none => rfl
  | some found => simp [replaces found isFound]

theorem best?_eq_none_iff : best? rows = none ↔ rows = [] := by
  cases rows using List.reverseRecOn with
  | nil => simp [best?]
  | append_singleton earlier last => simp [best?_append_singleton]

theorem isNaN_of_mem_settled (member : row ∈ settled rows) : row.2.isNaN = false := by
  simpa using List.mem_rtakeWhile_imp member

theorem unsettled_append_settled (rows : List (Assignment × Binary64)) :
    unsettled rows ++ settled rows = rows :=
  List.rdropWhile_append_rtakeWhile

/-- Where no row is settled the last one is a NaN. -/
theorem isNaN_of_settled_eq_nil (noneSettled : settled rows = [])
    (last : rows.getLast? = some row) : row.2.isNaN = true := by
  cases rows using List.reverseRecOn with
  | nil => cases last
  | append_singleton earlier other =>
      rw [List.getLast?_append, List.getLast?_singleton, Option.some_or, Option.some.injEq] at last
      subst last
      by_contra isNumber
      unfold settled at noneSettled
      rw [List.rtakeWhile_concat_pos _ _ _ (by simpa using isNumber)] at noneSettled
      simp at noneSettled

/-- A later row that is not greater leaves the best row where it is. -/
theorem IsUnbeaten.append_of_le (unbeaten : IsUnbeaten rows best)
    (later : compare best.1 row.1 = .lt) (notGreater : row.2.le best.2 = true) :
    IsUnbeaten (rows ++ [row]) best := by
  obtain ⟨number, otherNumber, _⟩ := Binary64.le_iff.1 notGreater
  refine ⟨List.mem_append_left _ unbeaten.isRow, fun other member => ?_,
    fun other member earlier => ?_⟩
  · rcases List.mem_append.1 member with old | new
    · exact unbeaten.notBeaten other old
    · rw [List.mem_singleton.1 new]
      exact (Binary64.le_iff_not_lt number otherNumber).1 notGreater
  · rcases List.mem_append.1 member with old | new
    · exact unbeaten.firstOfEquals other old earlier
    · rw [List.mem_singleton.1 new, Std.OrientedCmp.gt_of_lt later] at earlier
      cases earlier

/-- A number that is greater than the best row takes its place. -/
theorem IsUnbeaten.append_of_not_le (unbeaten : IsUnbeaten rows best)
    (numbers : ∀ other ∈ rows, other.2.isNaN = false) (number : row.2.isNaN = false)
    (greater : ¬ row.2.le best.2 = true) : IsUnbeaten (rows ++ [row]) row := by
  have isNumber := numbers best unbeaten.isRow
  have bestBelow : best.2.lt row.2 = true := by
    rw [Binary64.le_iff_not_lt number isNumber] at greater
    simpa using greater
  have below (other : Assignment × Binary64) (member : other ∈ rows) :
      other.2.lt row.2 = true :=
    Binary64.lt_of_le_of_lt
      ((Binary64.le_iff_not_lt (numbers other member) isNumber).2
        (unbeaten.notBeaten other member))
      bestBelow
  refine ⟨List.mem_append_right _ (List.mem_singleton_self row), fun other member => ?_,
    fun other member earlier => ?_⟩
  · rcases List.mem_append.1 member with old | new
    · exact Binary64.lt_eq_false_of_lt (below other old)
    · rw [List.mem_singleton.1 new, Binary64.lt_irrefl]
  · rcases List.mem_append.1 member with old | new
    · exact Binary64.sameNumber_eq_false_of_lt (below other old)
    · rw [List.mem_singleton.1 new] at earlier
      simp at earlier

theorem isUnbeaten_singleton (row : Assignment × Binary64) : IsUnbeaten [row] row := by
  refine ⟨List.mem_singleton_self row, fun other member => ?_, fun other member earlier => ?_⟩
  · rw [List.mem_singleton.1 member, Binary64.lt_irrefl]
  · rw [List.mem_singleton.1 member] at earlier
    simp at earlier

/-- The best row is the unbeaten one among those after the last NaN. If there are none after it the
last row, which is that NaN, counts as the best. -/
theorem best?_of_settled
    (ascending : rows.Pairwise fun left right => compare left.1 right.1 = .lt) :
    (settled rows = [] → best? rows = rows.getLast?) ∧
      (settled rows ≠ [] → ∃ best, best? rows = some best ∧ IsUnbeaten (settled rows) best) := by
  induction rows using List.reverseRecOn with
  | nil => exact ⟨fun _ => rfl, fun someSettled => absurd rfl someSettled⟩
  | append_singleton earlier row inductionHypothesis =>
      obtain ⟨earlierAscending, _, later⟩ := List.pairwise_append.1 ascending
      obtain ⟨ofNone, ofSome⟩ := inductionHypothesis earlierAscending
      cases isNaN : row.2.isNaN with
      | true =>
          have noneSettled : settled (earlier ++ [row]) = [] :=
            List.rtakeWhile_concat_neg _ _ _ (by simp [isNaN])
          refine ⟨fun _ => ?_, fun someSettled => absurd noneSettled someSettled⟩
          rw [List.getLast?_concat]
          exact best?_append_of_not_le fun _ _ => Binary64.le_eq_false_of_isNaN (Or.inl isNaN)
      | false =>
          have settledRows : settled (earlier ++ [row]) = settled earlier ++ [row] :=
            List.rtakeWhile_concat_pos _ _ _ (by simp [isNaN])
          rw [settledRows]
          refine ⟨fun noneSettled => by simp at noneSettled, fun _ => ?_⟩
          by_cases noneBefore : settled earlier = []
          · refine ⟨row, best?_append_of_not_le fun found isFound => ?_, ?_⟩
            · rw [ofNone noneBefore] at isFound
              exact Binary64.le_eq_false_of_isNaN
                (Or.inr (isNaN_of_settled_eq_nil noneBefore isFound))
            · rw [noneBefore, List.nil_append]
              exact isUnbeaten_singleton row
          · obtain ⟨best, isBest, unbeaten⟩ := ofSome noneBefore
            have bestFirst : compare best.1 row.1 = .lt :=
              later best ((List.rtakeWhile_suffix _ _).subset unbeaten.isRow) row
                (List.mem_singleton_self row)
            rw [best?_append_singleton, isBest]
            refine ⟨_, rfl, ?_⟩
            dsimp only
            split
            next notGreater => exact unbeaten.append_of_le bestFirst notGreater
            next greater =>
                exact unbeaten.append_of_not_le (fun _ => isNaN_of_mem_settled) isNaN greater

/-- The best of the settled rows is unbeaten in the whole table when every number before them is
less than one of them. -/
theorem isUnbeaten_iff_of_settled
    (ascending : rows.Pairwise fun left right => compare left.1 right.1 = .lt)
    (unbeaten : IsUnbeaten (settled rows) best) :
    IsUnbeaten rows best ↔
      ∀ other ∈ unsettled rows, other.2.isNaN = true ∨
        ∃ later ∈ settled rows, other.2.lt later.2 = true := by
  have ordered := ascending
  rw [← unsettled_append_settled rows, List.pairwise_append] at ordered
  have isNumber := isNaN_of_mem_settled unbeaten.isRow
  constructor
  · intro inAll other member
    have inRows : other ∈ rows := by
      rw [← unsettled_append_settled rows]
      exact List.mem_append_left _ member
    cases isNaN : other.2.isNaN with
    | true => exact Or.inl rfl
    | false =>
        refine Or.inr ⟨best, unbeaten.isRow, ?_⟩
        have apart :=
          inAll.firstOfEquals other inRows (ordered.2.2 other member best unbeaten.isRow)
        have notAbove := (Binary64.le_iff_not_lt isNaN isNumber).2 (inAll.notBeaten other inRows)
        rw [Binary64.sameNumber, notAbove, Bool.true_and, ← Bool.not_eq_true,
          Binary64.le_iff_not_lt isNumber isNaN, Bool.not_eq_false] at apart
        exact apart
  · intro exceeded
    have below (other : Assignment × Binary64) (member : other ∈ unsettled rows) :
        other.2.isNaN = true ∨ other.2.lt best.2 = true := by
      refine (exceeded other member).imp_right ?_
      rintro ⟨later, isSettled, less⟩
      exact Binary64.lt_of_lt_of_le less ((Binary64.le_iff_not_lt
        (isNaN_of_mem_settled isSettled) isNumber).2 (unbeaten.notBeaten later isSettled))
    rw [← unsettled_append_settled rows]
    refine ⟨List.mem_append_right _ unbeaten.isRow, fun other member => ?_,
      fun other member earlier => ?_⟩
    · rcases List.mem_append.1 member with old | isSettled
      · rcases below other old with isNaN | less
        · exact Binary64.lt_eq_false_of_isNaN (Or.inr isNaN)
        · exact Binary64.lt_eq_false_of_lt less
      · exact unbeaten.notBeaten other isSettled
    · rcases List.mem_append.1 member with old | isSettled
      · rcases below other old with isNaN | less
        · rw [Binary64.sameNumber, Binary64.le_eq_false_of_isNaN (Or.inl isNaN), Bool.false_and]
        · exact Binary64.sameNumber_eq_false_of_lt less
      · exact unbeaten.firstOfEquals other isSettled earlier

/-- A NaN is beaten by nothing. -/
theorem isUnbeaten_of_isNaN (member : best ∈ rows) (isNaN : best.2.isNaN = true) :
    IsUnbeaten rows best := by
  refine ⟨member, fun other _ => Binary64.lt_eq_false_of_isNaN (Or.inl isNaN),
    fun other _ _ => ?_⟩
  rw [Binary64.sameNumber, Binary64.le_eq_false_of_isNaN (Or.inr isNaN), Bool.false_and]

end Rows

/-- What a table answers when it is asked for its best row: nothing if it has none, else the
unbeaten one of the rows after the last NaN, or that NaN if it is the last row. The answer is
unbeaten in the whole table exactly when the last row is a NaN or every number before the last NaN
is less than one after it. -/
structure IsBest (rows : List (Assignment × Binary64))
    (answer : Option (Assignment × Binary64)) : Prop where
  eq_none_iff : answer = none ↔ rows = []
  ofSettled : ∀ best, answer = some best →
    IsUnbeaten (settled rows) best ∨ settled rows = [] ∧ rows.getLast? = some best
  isUnbeaten_iff : ∀ best, answer = some best →
    (IsUnbeaten rows best ↔ settled rows = [] ∨
      ∀ other ∈ unsettled rows, other.2.isNaN = true ∨
        ∃ later ∈ settled rows, other.2.lt later.2 = true)

theorem isBest_best? {rows : List (Assignment × Binary64)}
    (ascending : rows.Pairwise fun left right => compare left.1 right.1 = .lt) :
    IsBest rows (best? rows) := by
  obtain ⟨ofNone, ofSome⟩ := best?_of_settled ascending
  by_cases noneSettled : settled rows = []
  · refine ⟨best?_eq_none_iff, fun best isBest => ?_, fun best isBest => ?_⟩
    · exact Or.inr ⟨noneSettled, (ofNone noneSettled).symm.trans isBest⟩
    · have last := (ofNone noneSettled).symm.trans isBest
      exact ⟨fun _ => Or.inl noneSettled, fun _ => isUnbeaten_of_isNaN
        (List.mem_of_getLast? last) (isNaN_of_settled_eq_nil noneSettled last)⟩
  · obtain ⟨found, isFound, unbeaten⟩ := ofSome noneSettled
    refine ⟨best?_eq_none_iff, fun best isBest => ?_, fun best isBest => ?_⟩
    · cases isFound.symm.trans isBest
      exact Or.inl unbeaten
    · cases isFound.symm.trans isBest
      rw [isUnbeaten_iff_of_settled ascending unbeaten, or_iff_right noneSettled]

/-- Tables of utilities and tables of probabilities answer alike. -/
theorem best?_isBest_in_both_tables (rows : SortedMap Assignment Binary64) :
    IsBest rows.toList (UtilityTable.mk rows).best? ∧
      IsBest rows.toList (CategoricalTable.mk rows).best? :=
  ⟨isBest_best? rows.ascending, isBest_best? rows.ascending⟩

/-- Three actions, of which the second has no utility that is a number. -/
def interrupted : SortedMap Assignment Binary64 :=
  .ofList [(.single "a" (.text "x"), .ofNat 2), (.single "a" (.text "y"), .quietNaN),
    (.single "a" (.text "z"), .ofNat 1)]

/-- The best of these rows is the last one, though the first one is greater. -/
theorem interrupted_best_is_beaten :
    ∃ best, (UtilityTable.mk interrupted).best? = some best ∧
      (CategoricalTable.mk interrupted).best? = some best ∧
      ¬ IsUnbeaten interrupted.toList best := by
  refine ⟨(.single "a" (.text "z"), .ofNat 1), rfl, rfl, fun unbeaten => ?_⟩
  have notBeaten := unbeaten.notBeaten (.single "a" (.text "x"), .ofNat 2) List.mem_cons_self
  have less : (Binary64.ofNat 1).lt (.ofNat 2) = true := by decide +kernel
  rw [less] at notBeaten
  cases notBeaten

end Table

end DecisionNetwork
