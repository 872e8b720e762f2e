import DecisionNetwork.Proofs.Json.Trees
import DecisionNetwork.Proofs.SortedMap.Listing

/-!
Contract: what the JSON format promises of any library.

Owns:
- `Codec.Lawful`, the laws of a library but for finite numbers, one for each kind of document;
- `Codec.reread?`, what a number is read as from its own text;
- `Codec.Lawful.read?_write`: a document comes back with every number read from its own text.

Nothing is promised of finite numbers. Which of them a library reads as themselves depends on how
many digits it writes and how often it rounds.
-/

namespace DecisionNetwork.Json.Codec

/-- What a number is read as from its own text. -/
def reread? (codec : Codec) (double : Binary64) : Option Binary64 :=
  (codec.read? (codec.write (.decimal double))).bind Json.asNumber?

/-- A library that reads `null`, booleans and strings as they were written, writes numbers that are
not finite as `null`, and reads arrays and objects that are not nested too deeply part by part. -/
structure Lawful (codec : Codec) : Prop where
  null : codec.read? (codec.write .null) = some .null
  boolean : ∀ flag, codec.read? (codec.write (.boolean flag)) = some (.boolean flag)
  string : ∀ text, codec.read? (codec.write (.string text)) = some (.string text)
  not_finite : ∀ double : Binary64, double.isFinite = false →
    codec.write (.decimal double) = codec.write .null
  array : ∀ items, (Json.array items).depth < nestingLimit →
    codec.read? (codec.write (.array items)) =
      (items.mapM fun item => codec.read? (codec.write item)).map .array
  object : ∀ members, (Json.object members).depth < nestingLimit →
    codec.read? (codec.write (.object members)) =
      (members.mapM fun member =>
        (codec.read? (codec.write member.2)).map fun read => (member.1, read)).map .object

namespace Lawful

variable {codec : Codec} (lawful : codec.Lawful)
include lawful

/-- A number that is not finite is read as none. -/
theorem reread?_of_not_finite {double : Binary64} (notFinite : double.isFinite = false) :
    codec.reread? double = none := by
  rw [reread?, lawful.not_finite double notFinite, lawful.null]
  rfl

/-- A document comes back with every number read from its own text. -/
theorem read?_write {json : Json} (shallow : json.depth < nestingLimit) :
    codec.read? (codec.write json) = json.reread? codec := by
  induction json using induct with
  | null => exact lawful.null
  | boolean flag => exact lawful.boolean flag
  | whole number => rfl
  | decimal double => rfl
  | string text => exact lawful.string text
  | array items inductionHypothesis =>
      rw [lawful.array items shallow, Json.reread?, rereadItems?_eq_mapM,
        mapM_congr fun item member =>
          inductionHypothesis item member (Nat.lt_trans (depth_lt_of_item member) shallow)]
  | object members inductionHypothesis =>
      rw [lawful.object members shallow, Json.reread?, rereadMembers?_eq_mapM]
      refine congrArg (Option.map Json.object) (mapM_congr fun member isMember => ?_)
      rw [inductionHypothesis member isMember (Nat.lt_trans (depth_lt_of_member isMember) shallow),
        rereadMember?]

end Lawful

end DecisionNetwork.Json.Codec
