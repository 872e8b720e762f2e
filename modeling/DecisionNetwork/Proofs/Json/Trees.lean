import DecisionNetwork.Json.Reader

/-!
Contract: JSON documents as trees of parts.

Owns:
- `Json.induct`, induction over the items of arrays and the values of members;
- `Json.depth`, how far arrays and objects are nested;
- `Json.tokens`, the tokens of a tree;
- `Json.reread?`, the tree in which every number is read from its own text by a library.

The lists of parts are those of the parts, one by one; see `renderItems_eq_map` and its likes.
-/

namespace DecisionNetwork.Json

/-- Induction over the parts of a tree. -/
@[elab_as_elim]
theorem induct {motive : Json → Prop} (null : motive .null)
    (boolean : ∀ flag, motive (.boolean flag)) (whole : ∀ number, motive (.whole number))
    (decimal : ∀ double, motive (.decimal double)) (string : ∀ text, motive (.string text))
    (array : ∀ items, (∀ item ∈ items, motive item) → motive (.array items))
    (object : ∀ members, (∀ member ∈ members, motive member.2) → motive (.object members))
    (json : Json) : motive json := by
  match json with
  | .null => exact null
  | .boolean flag => exact boolean flag
  | .whole number => exact whole number
  | .decimal double => exact decimal double
  | .string text => exact string text
  | .array items =>
      exact array items fun item _ =>
        induct null boolean whole decimal string array object item
  | .object members =>
      exact object members fun member _ =>
        induct null boolean whole decimal string array object member.2
termination_by json
decreasing_by
  · rename_i member
    have smaller := List.sizeOf_lt_of_mem member
    simp only [Json.array.sizeOf_spec]
    omega
  · rename_i isMember
    have smaller := List.sizeOf_lt_of_mem isMember
    have part : sizeOf member.2 < sizeOf member := by
      obtain ⟨name, value⟩ := member
      simp only [Prod.mk.sizeOf_spec]
      omega
    simp only [Json.object.sizeOf_spec]
    omega

mutual

/-- The greatest number of arrays and objects around a part of a tree. -/
def depth : Json → Nat
  | .array items => depthItems items + 1
  | .object members => depthMembers members + 1
  | _ => 0

def depthItems : List Json → Nat
  | [] => 0
  | item :: items => max (depth item) (depthItems items)

def depthMembers : List (String × Json) → Nat
  | [] => 0
  | (_, value) :: members => max (depth value) (depthMembers members)

end

mutual

/-- The tokens of a tree. -/
def tokens : Json → List Token
  | .null => [.null]
  | .boolean flag => [.boolean flag]
  | .whole number => [.whole number]
  | .decimal double => [.decimal double]
  | .string text => [.string text]
  | .array items => .openArray :: ([Token.comma].intercalate (tokensItems items) ++ [.closeArray])
  | .object members =>
    .openObject :: ([Token.comma].intercalate (tokensMembers members) ++ [.closeObject])

def tokensItems : List Json → List (List Token)
  | [] => []
  | item :: items => tokens item :: tokensItems items

def tokensMembers : List (String × Json) → List (List Token)
  | [] => []
  | (name, value) :: members => (.string name :: .colon :: tokens value) :: tokensMembers members

end

mutual

/-- The tree with every number read from its own text. -/
def reread? (codec : Codec) : Json → Option Json
  | .whole number => codec.read? (codec.write (.whole number))
  | .decimal double => codec.read? (codec.write (.decimal double))
  | .array items => (rereadItems? codec items).map .array
  | .object members => (rereadMembers? codec members).map .object
  | .null => some .null
  | .boolean flag => some (.boolean flag)
  | .string text => some (.string text)

def rereadItems? (codec : Codec) : List Json → Option (List Json)
  | [] => some []
  | item :: items => do
    let read ← reread? codec item
    let reads ← rereadItems? codec items
    return read :: reads

def rereadMembers? (codec : Codec) : List (String × Json) → Option (List (String × Json))
  | [] => some []
  | (name, value) :: members => do
    let read ← reread? codec value
    let reads ← rereadMembers? codec members
    return (name, read) :: reads

end

section Parts

theorem renderItems_eq_map (items : List Json) : renderItems items = items.map render := by
  induction items with
  | nil => rfl
  | cons item items inductionHypothesis => rw [renderItems, inductionHypothesis, List.map_cons]

theorem renderMembers_eq_map (members : List (String × Json)) :
    renderMembers members =
      members.map fun member => quote member.1 ++ ':' :: render member.2 := by
  induction members with
  | nil => rfl
  | cons member members inductionHypothesis =>
      rw [renderMembers, inductionHypothesis, List.map_cons]

theorem tokensItems_eq_map (items : List Json) : tokensItems items = items.map tokens := by
  induction items with
  | nil => rfl
  | cons item items inductionHypothesis => rw [tokensItems, inductionHypothesis, List.map_cons]

theorem tokensMembers_eq_map (members : List (String × Json)) :
    tokensMembers members =
      members.map fun member => .string member.1 :: .colon :: tokens member.2 := by
  induction members with
  | nil => rfl
  | cons member members inductionHypothesis =>
      rw [tokensMembers, inductionHypothesis, List.map_cons]

theorem rereadItems?_eq_mapM (codec : Codec) (items : List Json) :
    rereadItems? codec items = items.mapM (reread? codec) := by
  induction items with
  | nil => rfl
  | cons item items inductionHypothesis =>
      rw [rereadItems?, inductionHypothesis, List.mapM_cons]

/-- The member with its value re-read. -/
def rereadMember? (codec : Codec) (member : String × Json) : Option (String × Json) :=
  (reread? codec member.2).map fun read => (member.1, read)

theorem rereadMembers?_eq_mapM (codec : Codec) (members : List (String × Json)) :
    rereadMembers? codec members = members.mapM (rereadMember? codec) := by
  induction members with
  | nil => rfl
  | cons member members inductionHypothesis =>
      rw [rereadMembers?, inductionHypothesis, List.mapM_cons, rereadMember?]
      cases reread? codec member.2 <;> rfl

/-- A bound on the depth of items is one on the depth of each. -/
theorem depthItems_lt_iff {items : List Json} {base limit : Nat} (room : base < limit) :
    base + depthItems items < limit ↔ ∀ item ∈ items, base + item.depth < limit := by
  induction items with
  | nil => simpa [depthItems] using room
  | cons item items inductionHypothesis =>
      rw [depthItems, List.forall_mem_cons, ← inductionHypothesis]
      omega

theorem depthMembers_lt_iff {members : List (String × Json)} {base limit : Nat}
    (room : base < limit) :
    base + depthMembers members < limit ↔
      ∀ member ∈ members, base + member.2.depth < limit := by
  induction members with
  | nil => simpa [depthMembers] using room
  | cons member members inductionHypothesis =>
      rw [depthMembers, List.forall_mem_cons, ← inductionHypothesis]
      omega

theorem depth_lt_of_item {items : List Json} {item : Json} (member : item ∈ items) :
    item.depth < (Json.array items).depth := by
  have bounded := (@depthItems_lt_iff items 0 (depthItems items + 1) (Nat.succ_pos _)).1
    (by omega) item member
  rwa [Nat.zero_add] at bounded

theorem depth_lt_of_member {members : List (String × Json)} {member : String × Json}
    (isMember : member ∈ members) : member.2.depth < (Json.object members).depth := by
  have bounded := (@depthMembers_lt_iff members 0 (depthMembers members + 1) (Nat.succ_pos _)).1
    (by omega) member isMember
  rwa [Nat.zero_add] at bounded

end Parts

end DecisionNetwork.Json
