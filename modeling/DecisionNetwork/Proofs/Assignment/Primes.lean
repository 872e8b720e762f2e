import DecisionNetwork.Proofs.Assignment.Renaming

/-!
Contract: assignments in which next-state variables take the place of the current ones.

Owns:
- `stripPrime_eq_iff`: a name is what is left of its next-state copy, and of itself if it has no
  prime;
- `compare_primed`: a next-state copy comes after the variable that it is a copy of;
- `value?_removePrimes`, the value of every variable once the primes are stripped;
- `removePrimes_prefers_primed`, with the bindings that are kept.

One prime is stripped, so in a chain of copies each hands its value on by one.
-/

namespace DecisionNetwork.Assignment

/-- The next-state copy of a variable. -/
def primed (name : String) : String := name.push primeMark

/-- Whether a variable is a next-state copy. -/
def isPrimed (name : String) : Bool := name.toList.getLast? = some primeMark

/-- Whether the value of a variable gives way to that of its next-state copy. -/
def overridden (assignment : Assignment) (name : String) : Bool :=
  !isPrimed name && (assignment.value? (primed name)).isSome

section Names

theorem toList_primed (name : String) : (primed name).toList = name.toList ++ [primeMark] :=
  String.toList_push primeMark

@[simp] theorem isPrimed_primed (name : String) : isPrimed (primed name) = true := by
  unfold isPrimed
  rw [toList_primed, List.getLast?_concat, decide_eq_true_iff]

@[simp] theorem stripPrime_primed (name : String) : stripPrime (primed name) = name := by
  unfold stripPrime
  rw [toList_primed, List.getLast?_concat, if_pos rfl, List.dropLast_concat, String.ofList_toList]

theorem stripPrime_of_not_isPrimed {name : String} (bare : isPrimed name = false) :
    stripPrime name = name :=
  if_neg (of_decide_eq_false bare)

theorem exists_primed_of_isPrimed {name : String} (isCopy : isPrimed name = true) :
    ∃ base, name = primed base := by
  obtain ⟨front, split⟩ := List.getLast?_eq_some_iff.1 (of_decide_eq_true isCopy)
  refine ⟨String.ofList front, String.toList_inj.1 ?_⟩
  rw [toList_primed, String.toList_ofList, split]

/-- A name is left of its next-state copy, and of itself if it has no prime. -/
theorem stripPrime_eq_iff {source name : String} :
    stripPrime source = name ↔ source = primed name ∨ source = name ∧ isPrimed name = false := by
  constructor
  · rintro rfl
    cases isCopy : isPrimed source with
    | true =>
        obtain ⟨base, rfl⟩ := exists_primed_of_isPrimed isCopy
        rw [stripPrime_primed]
        exact Or.inl rfl
    | false =>
        rw [stripPrime_of_not_isPrimed isCopy]
        exact Or.inr ⟨rfl, isCopy⟩
  · rintro (rfl | ⟨rfl, bare⟩)
    · exact stripPrime_primed name
    · exact stripPrime_of_not_isPrimed bare

/-- A next-state copy comes after the variable that it is a copy of. -/
theorem compare_primed (name : String) : compare name (primed name) = .lt := by
  have below : name.toList ++ [] < name.toList ++ [primeMark] :=
    List.append_left_lt (List.nil_lt_cons primeMark [])
  show compareOfLessAndEq name (primed name) = .lt
  rw [compareOfLessAndEq_eq_lt, String.lt_iff, toList_primed]
  rwa [List.append_nil] at below

end Names

section Values

variable {assignment : Assignment}

theorem overridden_iff {name : String} :
    assignment.overridden name = true ↔
      isPrimed name = false ∧ (assignment.value? (primed name)).isSome := by
  unfold overridden
  rw [Bool.and_eq_true, Bool.not_eq_true']

@[simp] theorem overridden_primed (name : String) :
    assignment.overridden (primed name) = false := by
  unfold overridden
  rw [isPrimed_primed]
  rfl

/-- The last of the variables that come to share a name is the one that is not overridden. -/
private theorem isLast_iff {source name : String} (stripped : stripPrime source = name) :
    (∀ other, stripPrime other = name → (assignment.value? other).isSome →
      other = source ∨ compare other source = .lt) ↔ assignment.overridden source = false := by
  rcases stripPrime_eq_iff.1 stripped with rfl | ⟨rfl, bare⟩
  · rw [overridden_primed, eq_self, iff_true]
    intro other named _
    rcases stripPrime_eq_iff.1 named with isCopy | ⟨isName, -⟩
    · exact Or.inl isCopy
    · rw [isName]
      exact Or.inr (compare_primed name)
  · have notBelow : ¬ (primed source = source ∨ compare (primed source) source = .lt) := by
      have below := compare_primed source
      rintro (same | above)
      · rw [same] at below
        simp at below
      · rw [Std.OrientedCmp.gt_of_lt above] at below
        cases below
    rw [← Bool.not_eq_true, overridden_iff, not_and]
    constructor
    · exact fun last _ copyBound => notBelow (last _ (stripPrime_primed source) copyBound)
    · intro unbound other named isBound
      rcases stripPrime_eq_iff.1 named with rfl | ⟨isName, -⟩
      · exact absurd isBound (unbound bare)
      · exact Or.inl isName

/-- The values that are found come from the variables that are not overridden. -/
theorem value?_removePrimes_eq_some_iff {name : String} {value : Value} :
    assignment.removePrimes.value? name = some value ↔
      ∃ source, stripPrime source = name ∧ assignment.value? source = some value ∧
        assignment.overridden source = false := by
  show (assignment.relabelled stripPrime).value? name = some value ↔ _
  rw [value?_relabelled_eq_some_iff]
  exact exists_congr fun source => and_congr_right fun stripped =>
    and_congr_right fun _ => isLast_iff stripped

/-- A variable gets the value of its next-state copy if that is bound, and else keeps its own
unless it is a copy itself. -/
theorem value?_removePrimes (assignment : Assignment) (name : String) :
    assignment.removePrimes.value? name =
      (assignment.value? (primed name)).or
        (if isPrimed name then none else assignment.value? name) := by
  apply Option.ext
  intro value
  simp only [value?_removePrimes_eq_some_iff, stripPrime_eq_iff, or_and_right, exists_or,
    exists_eq_left, and_assoc, overridden_primed, and_true]
  unfold overridden
  cases isPrimed name <;> cases assignment.value? (primed name) <;> simp

/-- Of the variables that come to share a name at most one is not overridden. -/
private theorem eq_of_kept {left right : String} (leftBound : (assignment.value? left).isSome)
    (rightBound : (assignment.value? right).isSome)
    (leftKept : assignment.overridden left = false)
    (rightKept : assignment.overridden right = false)
    (same : stripPrime left = stripPrime right) : left = right := by
  rcases (isLast_iff same).2 leftKept right rfl rightBound with isLeft | rightBelow
  · exact isLeft.symm
  · rcases (isLast_iff rfl).2 rightKept left same leftBound with isRight | leftBelow
    · exact isRight
    · rw [Std.OrientedCmp.gt_of_lt leftBelow] at rightBelow
      cases rightBelow

/-- The bindings are those that are not overridden, each under the name without the prime. -/
theorem toList_removePrimes_perm (assignment : Assignment) :
    assignment.removePrimes.toList.Perm
      ((assignment.toList.filter fun binding => !assignment.overridden binding.1).map
        fun binding => (stripPrime binding.1, binding.2)) := by
  have mem_kept {name : String} {value : Value} :
      (name, value) ∈ assignment.toList.filter (fun binding => !assignment.overridden binding.1) ↔
        assignment.value? name = some value ∧ assignment.overridden name = false := by
    rw [List.mem_filter, mem_toList_iff, Bool.not_eq_true']
  have distinct (listed : Assignment) : listed.toList.Nodup :=
    List.Nodup.of_map Prod.fst listed.bindings.keys_nodup
  refine (List.perm_ext_iff_of_nodup (distinct _) (((distinct _).filter _).map_on ?_)).2 ?_
  · rintro ⟨left, value⟩ inLeft ⟨right, other⟩ inRight same
    obtain ⟨leftBound, leftKept⟩ := mem_kept.1 inLeft
    obtain ⟨rightBound, rightKept⟩ := mem_kept.1 inRight
    obtain ⟨sameName, sameValue⟩ := Prod.mk.inj same
    exact Prod.ext (eq_of_kept (Option.isSome_of_eq_some leftBound)
      (Option.isSome_of_eq_some rightBound) leftKept rightKept sameName) sameValue
  · rintro ⟨name, value⟩
    rw [mem_toList_iff, value?_removePrimes_eq_some_iff, List.mem_map]
    constructor
    · rintro ⟨source, rfl, bound, kept⟩
      exact ⟨(source, value), mem_kept.2 ⟨bound, kept⟩, rfl⟩
    · rintro ⟨⟨source, own⟩, inKept, same⟩
      obtain ⟨rfl, rfl⟩ := Prod.mk.inj same
      obtain ⟨bound, kept⟩ := mem_kept.1 inKept
      exact ⟨source, rfl, bound, kept⟩

/-- Stripping the primes gives a variable the value of its next-state copy if that is bound, and
else the value that it has, unless it is a copy itself. All other values are kept: those that are
lost belong to variables without a prime whose copy is bound. -/
theorem removePrimes_prefers_primed (assignment : Assignment) :
    (∀ name, assignment.removePrimes.value? name =
      (assignment.value? (primed name)).or
        (if isPrimed name then none else assignment.value? name)) ∧
      (∀ name, assignment.overridden name = true ↔
        isPrimed name = false ∧ (assignment.value? (primed name)).isSome) ∧
      assignment.removePrimes.toList.Perm
        ((assignment.toList.filter fun binding => !assignment.overridden binding.1).map
          fun binding => (stripPrime binding.1, binding.2)) :=
  ⟨value?_removePrimes assignment, fun _ => overridden_iff, toList_removePrimes_perm assignment⟩

example : (removePrimes (.ofList [("x", .boolean true), (primed "x", .absent),
    (primed (primed "x"), .text "new")])).toList = [("x", .absent), (primed "x", .text "new")] := by
  rfl

end Values

end DecisionNetwork.Assignment
