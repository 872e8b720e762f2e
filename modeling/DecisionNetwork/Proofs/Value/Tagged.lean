import DecisionNetwork.Proofs.Assignment.Bindings
import DecisionNetwork.Proofs.Json.Doubles
import DecisionNetwork.Proofs.Value.Canonical
import DecisionNetwork.Value.Json

/-!
Contract: what values and assignments become when they are read from their tagged JSON form, by any
library that keeps the promises of the format.

Owns:
- `Value.numbers` and `Value.reread?`, the numbers of a value and the value with each of them
  re-read, and the same for assignments;
- `ofTagged?_reread?`, by which the tagged form adds nothing to that;
- `eq_ite_of_numbers`: what is re-read number by number comes back as it was if all its numbers are
  finite and read as themselves, and not at all if one is not finite;
- `decode?_encode`, the text of a value or an assignment read back.
-/

namespace DecisionNetwork

section Lists

variable {α β γ : Type*}

/-- Steps succeed together if and only if each of them does. -/
theorem mapM_eq_some_iff {step : α → Option β} {items : List α} {results : List β} :
    items.mapM step = some results ↔
      List.Forall₂ (fun item result => step item = some result) items results := by
  induction items generalizing results with
  | nil => cases results <;> simp
  | cons item items inductionHypothesis =>
      rw [List.mapM_cons, List.forall₂_cons_left_iff]
      simp only [Option.bind_eq_bind, Option.bind_eq_some_iff, Option.pure_def, Option.some.injEq,
        inductionHypothesis]
      constructor
      · rintro ⟨result, isResult, more, areResults, rfl⟩
        exact ⟨result, more, isResult, areResults, rfl⟩
      · rintro ⟨result, more, isResult, areResults, rfl⟩
        exact ⟨result, isResult, more, areResults, rfl⟩

/-- Steps fail together if and only if one of them does. -/
theorem mapM_eq_none_iff {step : α → Option β} {items : List α} :
    items.mapM step = none ↔ ∃ item ∈ items, step item = none := by
  induction items with
  | nil => simp
  | cons item items inductionHypothesis =>
      rw [List.mapM_cons, List.exists_mem_cons_iff, ← inductionHypothesis]
      cases step item with
      | none => simp
      | some result => cases items.mapM step <;> simp

theorem mapM_eq_self_iff {step : α → Option α} {items : List α} :
    items.mapM step = some items ↔ ∀ item ∈ items, step item = some item := by
  rw [mapM_eq_some_iff, List.forall₂_same]

/-- Two steps after each other may be taken item by item. -/
theorem bind_mapM {first : α → Option β} {second : β → Option γ} (items : List α) :
    ((items.mapM first).bind fun results => results.mapM second) =
      items.mapM fun item => (first item).bind second := by
  induction items with
  | nil => rfl
  | cons item items inductionHypothesis =>
      rw [List.mapM_cons, List.mapM_cons, ← inductionHypothesis]
      cases first item with
      | none => rfl
      | some result =>
          cases items.mapM first with
          | none => cases isSecond : second result <;> simp [isSecond]
          | some results => simp [List.mapM_cons]

end Lists

namespace Value

mutual

/-- All numbers in a value, at any depth. -/
def numbers : Value → List Binary64
  | .number double => [double]
  | .vector doubles => doubles
  | .list items => numbersItems items
  | .absent | .boolean _ | .text _ => []

def numbersItems : List Value → List Binary64
  | [] => []
  | item :: items => numbers item ++ numbersItems items

end

mutual

/-- The value with every number read from its own text. -/
def reread? (codec : Json.Codec) : Value → Option Value
  | .number double => (codec.reread? double).map .number
  | .vector doubles => (doubles.mapM codec.reread?).map .vector
  | .list items => (rereadItems? codec items).map .list
  | .absent => some .absent
  | .boolean flag => some (.boolean flag)
  | .text characters => some (.text characters)

def rereadItems? (codec : Json.Codec) : List Value → Option (List Value)
  | [] => some []
  | item :: items => do
    let read ← reread? codec item
    let reads ← rereadItems? codec items
    return read :: reads

end

section Tagged

variable (codec : Json.Codec)

/-- A member of the tagged form is re-read as its value is. -/
theorem reread?_member (name : String) (json : Json) :
    (Json.object [(name, json)]).reread? codec =
      (json.reread? codec).map fun read => .object [(name, read)] := by
  rw [Json.reread?, Json.rereadMembers?, Json.rereadMembers?]
  cases json.reread? codec <;> rfl

/-- The numbers of an array are re-read one by one. -/
theorem numbers?_rereadItems? (doubles : List Binary64) :
    (Json.rereadItems? codec (doubles.map .decimal)).bind numbers? =
      doubles.mapM codec.reread? := by
  rw [Json.rereadItems?_eq_mapM, List.mapM_map]
  exact bind_mapM doubles

mutual

/-- Reading the re-read tagged form is re-reading the value. -/
theorem ofTagged?_reread? : ∀ value : Value,
    (value.toTagged.reread? codec).bind ofTagged? = value.reread? codec
  | .absent | .boolean _ | .text _ => rfl
  | .number double => by
      rw [toTagged, reread?_member, Json.reread?, reread?, Json.Codec.reread?]
      cases codec.read? (codec.write (.decimal double)) with
      | none => rfl
      | some read => rfl
  | .vector doubles => by
      rw [toTagged, reread?_member, Json.reread?, reread?, ← numbers?_rereadItems?]
      cases Json.rereadItems? codec (doubles.map .decimal) with
      | none => rfl
      | some reads => rfl
  | .list items => by
      rw [toTagged, reread?_member, Json.reread?, reread?, ← ofTaggedItems?_rereadItems? items]
      cases Json.rereadItems? codec (toTaggedItems items) with
      | none => rfl
      | some reads => rfl

theorem ofTaggedItems?_rereadItems? : ∀ items : List Value,
    (Json.rereadItems? codec (toTaggedItems items)).bind ofTaggedItems? =
      rereadItems? codec items
  | [] => rfl
  | item :: items => by
      rw [toTaggedItems, Json.rereadItems?, rereadItems?, ← ofTagged?_reread? item,
        ← ofTaggedItems?_rereadItems? items]
      cases item.toTagged.reread? codec with
      | none => rfl
      | some read =>
          cases Json.rereadItems? codec (toTaggedItems items) with
          | none => cases isValue : ofTagged? read <;> simp [isValue]
          | some reads =>
              show ofTaggedItems? (read :: reads) = _
              rw [ofTaggedItems?, Option.bind_some, Option.bind_some]
              cases ofTagged? read with
              | none => rfl
              | some value => cases ofTaggedItems? reads <;> rfl

end

end Tagged

section Numbers

variable {codec : Json.Codec}

mutual

/-- The numbers of a re-read value are the re-read numbers of the value. -/
theorem numbers_reread? : ∀ value : Value,
    (value.reread? codec).map numbers = value.numbers.mapM codec.reread?
  | .absent | .boolean _ | .text _ => rfl
  | .number double => by
      rw [reread?, numbers]
      cases isRead : codec.reread? double <;> simp [isRead, numbers]
  | .vector doubles => by
      rw [reread?, numbers, Option.map_map]
      exact Option.map_id'
  | .list items => by
      rw [reread?, numbers, ← numbersItems_rereadItems? items, Option.map_map]
      rfl

theorem numbersItems_rereadItems? : ∀ items : List Value,
    (rereadItems? codec items).map numbersItems = (numbersItems items).mapM codec.reread?
  | [] => rfl
  | item :: items => by
      rw [rereadItems?, numbersItems, List.mapM_append, ← numbers_reread? item,
        ← numbersItems_rereadItems? items]
      cases reread? codec item with
      | none => rfl
      | some read => cases rereadItems? codec items <;> rfl

end

mutual

/-- A value is re-read as itself if and only if every number in it is. -/
theorem reread?_eq_self_iff : ∀ value : Value,
    value.reread? codec = some value ↔
      ∀ double ∈ value.numbers, codec.reread? double = some double
  | .absent | .boolean _ | .text _ => by simp [reread?, numbers]
  | .number double => by simp [reread?, numbers]
  | .vector doubles => by simp [reread?, numbers, mapM_eq_self_iff]
  | .list items => by
      simp only [reread?, numbers, Option.map_eq_some_iff, Value.list.injEq, exists_eq_right,
        rereadItems?_eq_self_iff items]

theorem rereadItems?_eq_self_iff : ∀ items : List Value,
    rereadItems? codec items = some items ↔
      ∀ double ∈ numbersItems items, codec.reread? double = some double
  | [] => by simp [rereadItems?, numbersItems]
  | item :: items => by
      rw [numbersItems, List.forall_mem_append, ← reread?_eq_self_iff item,
        ← rereadItems?_eq_self_iff items]
      simp [rereadItems?, Option.bind_eq_some_iff]

end

end Numbers

end Value

namespace Assignment

/-- All numbers in the values of an assignment. -/
def numbers (assignment : Assignment) : List Binary64 :=
  assignment.toList.flatMap fun binding => binding.2.numbers

/-- The binding with its value re-read. -/
def rereadBinding? (codec : Json.Codec) (binding : String × Value) : Option (String × Value) :=
  (binding.2.reread? codec).map fun read => (binding.1, read)

/-- The assignment with every number read from its own text. -/
def reread? (codec : Json.Codec) (assignment : Assignment) : Option Assignment :=
  (assignment.toList.mapM (rereadBinding? codec)).map ofList

theorem untagMember?_rereadMember? (codec : Json.Codec) (binding : String × Value) :
    (Json.rereadMember? codec (tagBinding binding)).bind untagMember? =
      rereadBinding? codec binding := by
  show (Option.map _ (binding.2.toTagged.reread? codec)).bind untagMember? = _
  rw [rereadBinding?, ← Value.ofTagged?_reread?]
  cases binding.2.toTagged.reread? codec <;> rfl

/-- Reading the re-read tagged form is re-reading the assignment. -/
theorem ofTagged?_reread? (codec : Json.Codec) (assignment : Assignment) :
    (assignment.toTagged.reread? codec).bind ofTagged? = assignment.reread? codec := by
  have sameBindings :
      ((assignment.toList.map tagBinding).mapM (Json.rereadMember? codec)).bind
        (fun members => members.mapM untagMember?) =
        assignment.toList.mapM (rereadBinding? codec) := by
    rw [bind_mapM, List.mapM_map]
    exact mapM_congr fun binding _ => untagMember?_rereadMember? codec binding
  rw [toTagged, Json.reread?, Json.rereadMembers?_eq_mapM, reread?, ← sameBindings]
  cases (assignment.toList.map tagBinding).mapM (Json.rereadMember? codec) <;> rfl

section Bindings

variable {codec : Json.Codec} {bindings reads : List (String × Value)}

/-- Re-reading keeps the variable of a binding. -/
theorem rereadBinding?_eq_some_iff {binding read : String × Value} :
    rereadBinding? codec binding = some read ↔
      read.1 = binding.1 ∧ binding.2.reread? codec = some read.2 := by
  obtain ⟨name, value⟩ := read
  rw [rereadBinding?, Option.map_eq_some_iff]
  constructor
  · rintro ⟨found, isRead, same⟩
    obtain ⟨rfl, rfl⟩ := Prod.mk.inj same
    exact ⟨rfl, isRead⟩
  · rintro ⟨rfl, isRead⟩
    exact ⟨value, isRead, rfl⟩

theorem names_of_mapM_rereadBinding? (areRead : bindings.mapM (rereadBinding? codec) = some reads) :
    reads.map Prod.fst = bindings.map Prod.fst := by
  have eachRead := mapM_eq_some_iff.1 areRead
  clear areRead
  induction eachRead with
  | nil => rfl
  | cons isRead _ inductionHypothesis =>
      rw [List.map_cons, List.map_cons, inductionHypothesis,
        (rereadBinding?_eq_some_iff.1 isRead).1]

theorem numbers_mapM_rereadBinding? (bindings : List (String × Value)) :
    (bindings.mapM (rereadBinding? codec)).map
        (fun reads => reads.flatMap fun read => read.2.numbers) =
      (bindings.flatMap fun binding => binding.2.numbers).mapM codec.reread? := by
  induction bindings with
  | nil => rfl
  | cons binding bindings inductionHypothesis =>
      rw [List.mapM_cons, List.flatMap_cons, List.mapM_append, ← inductionHypothesis,
        ← Value.numbers_reread?, rereadBinding?]
      cases binding.2.reread? codec with
      | none => rfl
      | some read => cases bindings.mapM (rereadBinding? codec) <;> rfl

end Bindings

section Numbers

variable {codec : Json.Codec} {assignment : Assignment}

theorem toList_ofList_toList (assignment : Assignment) :
    ofList assignment.toList = assignment :=
  congrArg Assignment.mk
    (SortedMap.ext (SortedMap.toList_ofList_of_ascending assignment.bindings.ascending))

/-- The re-read assignment lists the same variables with the re-read values. -/
theorem reread?_eq_some_iff {read : Assignment} :
    assignment.reread? codec = some read ↔
      assignment.toList.mapM (rereadBinding? codec) = some read.toList := by
  rw [reread?, Option.map_eq_some_iff]
  constructor
  · rintro ⟨bindings, areRead, rfl⟩
    have ascending : (bindings.map Prod.fst).Pairwise fun left right =>
        compare left right = .lt := by
      rw [names_of_mapM_rereadBinding? areRead]
      exact List.pairwise_map.2 assignment.bindings.ascending
    have kept : (ofList bindings).toList = bindings :=
      SortedMap.toList_ofList_of_ascending (List.pairwise_map.1 ascending)
    rw [areRead, kept]
  · exact fun areRead => ⟨read.toList, areRead, toList_ofList_toList read⟩

/-- The numbers of a re-read assignment are the re-read numbers of the assignment. -/
theorem numbers_reread? (assignment : Assignment) :
    (assignment.reread? codec).map numbers = assignment.numbers.mapM codec.reread? := by
  rw [numbers, ← numbers_mapM_rereadBinding?]
  cases isRead : assignment.reread? codec with
  | none =>
      rw [reread?, Option.map_eq_none_iff] at isRead
      rw [isRead]
      rfl
  | some read =>
      rw [reread?_eq_some_iff.1 isRead]
      rfl

/-- An assignment is re-read as itself if and only if every number in it is. -/
theorem reread?_eq_self_iff (assignment : Assignment) :
    assignment.reread? codec = some assignment ↔
      ∀ double ∈ assignment.numbers, codec.reread? double = some double := by
  rw [reread?_eq_some_iff, mapM_eq_self_iff, numbers]
  simp only [rereadBinding?_eq_some_iff, true_and, Value.reread?_eq_self_iff,
    List.forall_mem_flatMap]

end Numbers

end Assignment

section Decoding

variable {codec : Json.Codec} (lawful : codec.Lawful)
include lawful

/-- What is re-read number by number comes back as it was if all its numbers are finite and read as
themselves, and not at all if one of them is not finite. -/
theorem eq_ite_of_numbers {α : Type} {original : α} {numbersOf : α → List Binary64}
    {reread : Option α}
    (areNumbers : reread.map numbersOf = (numbersOf original).mapM codec.reread?)
    (self_iff : reread = some original ↔
      ∀ double ∈ numbersOf original, codec.reread? double = some double)
    (exact : ∀ double ∈ numbersOf original, double.isFinite = true →
      codec.reread? double = some double) :
    reread = if (numbersOf original).all Binary64.isFinite then some original else none := by
  split
  next allFinite =>
      rw [List.all_eq_true] at allFinite
      exact self_iff.2 fun double member => exact double member (allFinite double member)
  next someNotFinite =>
      obtain ⟨double, member, notFinite⟩ :
          ∃ double ∈ numbersOf original, double.isFinite = false := by simpa using someNotFinite
      rw [← Option.map_eq_none_iff (f := numbersOf), areNumbers, mapM_eq_none_iff]
      exact ⟨double, member, lawful.reread?_of_not_finite notFinite⟩

theorem Value.decode?_encode_eq_reread? {value : Value}
    (shallow : value.toTagged.depth < Json.nestingLimit) :
    decode? codec (value.encode codec) = value.reread? codec := by
  rw [decode?, encode, lawful.read?_write shallow, ofTagged?_reread?]

theorem Assignment.decode?_encode_eq_reread? {assignment : Assignment}
    (shallow : assignment.toTagged.depth < Json.nestingLimit) :
    decode? codec (assignment.encode codec) = assignment.reread? codec := by
  rw [decode?, encode, lawful.read?_write shallow, ofTagged?_reread?]

/-- Through the texts of a library that keeps the promises of the format and reads the finite
numbers at hand as themselves, values and assignments within the limit of nesting come back as they
were if all their numbers are finite. If one is not, its text is that of `null`, and nothing comes
back. -/
theorem decode?_encode (value : Value) (assignment : Assignment)
    (exact : ∀ double ∈ value.numbers ++ assignment.numbers, double.isFinite = true →
      codec.reread? double = some double) :
    (value.toTagged.depth < Json.nestingLimit →
      Value.decode? codec (value.encode codec) =
        if value.numbers.all Binary64.isFinite then some value else none) ∧
    (assignment.toTagged.depth < Json.nestingLimit →
      Assignment.decode? codec (assignment.encode codec) =
        if assignment.numbers.all Binary64.isFinite then some assignment else none) := by
  obtain ⟨exactValue, exactAssignment⟩ := List.forall_mem_append.1 exact
  constructor
  · intro shallow
    rw [Value.decode?_encode_eq_reread? lawful shallow]
    exact eq_ite_of_numbers lawful (Value.numbers_reread? value)
      (Value.reread?_eq_self_iff value) exactValue
  · intro shallow
    rw [Assignment.decode?_encode_eq_reread? lawful shallow]
    exact eq_ite_of_numbers lawful (Assignment.numbers_reread? assignment)
      (Assignment.reread?_eq_self_iff assignment) exactAssignment

end Decoding

section Keepsake

/-- The number nearest to a tenth. -/
def tenth : Binary64 := ⟨0x3fb999999999999a⟩

theorem isShort_tenth : tenth.IsShort := by
  have found : Digits.firstOnGrid? tenth = some ⟨1, -1⟩ := by decide +kernel
  have shortest : Digits.shortest .toEven tenth = ⟨1, -1⟩ := by
    rw [Digits.shortest_of_firstOnGrid? rfl found]
    exact Digits.dropZeros_of_ends (by decide)
  unfold Binary64.IsShort
  rw [shortest]
  decide +kernel

/-- Texts that look like other values, an absent value and numbers in a list. -/
def keepsake : Value :=
  .list [.text "true", .text "[1]", .text "so \x22said\x22\n", .absent, .boolean true,
    .vector [.zero, tenth]]

/-- The library in use reads both numbers as themselves, and so the list comes back; it does not
when it is bound beside an infinite number. -/
theorem decode?_encode_keepsake :
    let bound : Assignment := .ofList [("kept", keepsake), ("lost", .number .infinity)]
    Json.compact.Lawful ∧
      (∀ double ∈ keepsake.numbers ++ bound.numbers, double.isFinite = true →
        Json.compact.reread? double = some double) ∧
      Value.decode? Json.compact (keepsake.encode Json.compact) = some keepsake ∧
      Assignment.decode? Json.compact (bound.encode Json.compact) = none := by
  intro bound
  have zero : Json.compact.reread? .zero = some .zero := rfl
  have tenthRead : Json.compact.reread? tenth = some tenth :=
    Binary64.reread?_of_isShort rfl isShort_tenth
  have exact : ∀ double ∈ keepsake.numbers ++ bound.numbers, double.isFinite = true →
      Json.compact.reread? double = some double := by
    have numbers : keepsake.numbers ++ bound.numbers =
        [.zero, tenth, .zero, tenth, .infinity] := rfl
    intro double member finite
    rw [numbers] at member
    simp only [List.mem_cons, List.not_mem_nil, or_false] at member
    obtain rfl | rfl | rfl | rfl | rfl := member
    · exact zero
    · exact tenthRead
    · exact zero
    · exact tenthRead
    · exact absurd finite (by decide)
  obtain ⟨value, assignment⟩ := decode?_encode Json.compact_lawful keepsake bound exact
  have kept := (value (by decide)).trans (if_pos (by decide))
  have lost := (assignment (by decide)).trans (if_neg (by decide))
  exact ⟨Json.compact_lawful, exact, kept, lost⟩

end Keepsake

end DecisionNetwork
