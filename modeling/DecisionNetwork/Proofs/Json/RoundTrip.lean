import DecisionNetwork.Proofs.Json.Codec
import DecisionNetwork.Proofs.Json.Numbers
import DecisionNetwork.Proofs.Json.Scan
import DecisionNetwork.Proofs.Json.Strings

/-!
Contract: what is read from the compact text of a JSON document.

Owns:
- `isRead`: the tokens of a tree are read as that tree, if it is not nested too deeply;
- `scan?_render`: the text of a tree is scanned into the tokens of the re-read tree;
- `depth_eq_of_reread?`: re-reading keeps the nesting;
- `read?_write`, which joins the three, and `compact_lawful`, the laws of the library in use.
-/

namespace DecisionNetwork.Json

open Numeral

section Reading

/-- A value may come next. -/
def Phase.StartsValue (phase : Phase) : Prop := phase = .value ∨ phase = .valueOrClose

/-- The name of a member may come next. -/
def Phase.StartsName (phase : Phase) : Prop := phase = .name ∨ phase = .nameOrClose

/-- The state after a tree was read, if it is not nested too deeply. -/
def Reading.after (limit : Nat) (json : Json) (frames : List Frame) : Option Reading :=
  if frames.length + json.depth < limit then Reading.complete json frames else none

/-- The tokens of a tree are read as that tree, if it is not nested too deeply. -/
def IsRead (limit : Nat) (json : Json) : Prop :=
  ∀ (frames : List Frame) (phase : Phase), frames.length < limit → phase.StartsValue →
    json.tokens.foldlM (Reading.step limit) (.within frames phase) =
      Reading.after limit json frames

variable {limit : Nat} {frames : List Frame}

/-- Parts between commas are read one by one, if each of them is read where it may start. -/
theorem foldlM_intercalate {ι : Type*} (frame : List ι → Frame) (part : ι → List Token)
    (fits : ι → Prop) [DecidablePred fits] {starts : Phase → Prop} {next : Phase}
    (nextStarts : starts next)
    (comma : ∀ read, Reading.step limit (.within (frame read :: frames) .commaOrClose) .comma =
      some (.within (frame read :: frames) next))
    {items : List ι}
    (onePart : ∀ item ∈ items, ∀ read phase, starts phase →
      (part item).foldlM (Reading.step limit) (.within (frame read :: frames) phase) =
        if fits item then some (.within (frame (item :: read) :: frames) .commaOrClose) else none)
    (someItem : items ≠ []) (read : List ι) {phase : Phase} (phaseStarts : starts phase) :
    ([Token.comma].intercalate (items.map part)).foldlM (Reading.step limit)
        (.within (frame read :: frames) phase) =
      if ∀ item ∈ items, fits item then
        some (.within (frame (items.reverse ++ read) :: frames) .commaOrClose)
      else none := by
  induction items generalizing read phase with
  | nil => exact absurd rfl someItem
  | cons item items inductionHypothesis =>
      obtain ⟨first, others⟩ := List.forall_mem_cons.1 onePart
      cases items with
      | nil =>
          rw [List.map_singleton, List.intercalate_singleton, first read phase phaseStarts]
          simp
      | cons second items =>
          rw [List.map_cons, List.map_cons, List.intercalate_cons_cons, ← List.map_cons,
            List.foldlM_append, List.foldlM_append, first read phase phaseStarts]
          by_cases itemFits : fits item
          · have rest := inductionHypothesis others (by simp) (item :: read) nextStarts
            rw [if_pos itemFits]
            dsimp only [bind, Option.bind]
            rw [List.foldlM_cons, comma]
            dsimp only [bind, Option.bind, List.foldlM_nil, pure]
            rw [rest]
            simp [itemFits]
          · rw [if_neg itemFits, if_neg fun all => itemFits (all item List.mem_cons_self)]
            rfl

/-- The items of an array up to its end. -/
theorem foldlM_items {items : List Json} (areRead : ∀ item ∈ items, IsRead limit item)
    (room : frames.length + 1 < limit) :
    ([Token.comma].intercalate (items.map tokens) ++ [Token.closeArray]).foldlM
        (Reading.step limit) (.within (.array [] :: frames) .valueOrClose) =
      if ∀ item ∈ items, frames.length + 1 + item.depth < limit then
        Reading.complete (.array items) frames
      else none := by
  rcases eq_or_ne items [] with rfl | someItem
  · simp [Reading.step, Reading.close]
  · have isRead := foldlM_intercalate Frame.array tokens
      (fun item => frames.length + 1 + item.depth < limit) (Or.inl rfl) (fun _ => rfl)
      (fun item member read phase => areRead item member (.array read :: frames) phase room)
      someItem [] (Or.inr rfl)
    rw [List.foldlM_append, isRead]
    split
    next => simp [Reading.step, Reading.close]
    next => rfl

/-- The members of an object up to its end. -/
theorem foldlM_members {members : List (String × Json)}
    (areRead : ∀ member ∈ members, IsRead limit member.2) (room : frames.length + 1 < limit) :
    ([Token.comma].intercalate (members.map fun member =>
        Token.string member.1 :: .colon :: member.2.tokens) ++ [Token.closeObject]).foldlM
        (Reading.step limit) (.within (.object [] :: frames) .nameOrClose) =
      if ∀ member ∈ members, frames.length + 1 + member.2.depth < limit then
        Reading.complete (.object members) frames
      else none := by
  have named (member : String × Json) (isMember : member ∈ members)
      (read : List (String × Json)) (phase : Phase) (starts : phase.StartsName) :
      (Token.string member.1 :: .colon :: member.2.tokens).foldlM (Reading.step limit)
          (.within (.object read :: frames) phase) =
        if frames.length + 1 + member.2.depth < limit then
          some (.within (.object (member :: read) :: frames) .commaOrClose)
        else none := by
    have value := areRead member isMember (.member read member.1 :: frames) .value room
      (Or.inl rfl)
    rcases starts with rfl | rfl <;> exact value
  rcases eq_or_ne members [] with rfl | someMember
  · simp [Reading.step, Reading.close]
  · have isRead := foldlM_intercalate Frame.object _ _ (Or.inl rfl) (fun _ => rfl) named someMember
      [] (Or.inr rfl)
    rw [List.foldlM_append, isRead]
    split
    next => simp [Reading.step, Reading.close]
    next => rfl

/-- The tokens of a tree are read as that tree, if it is not nested too deeply. -/
theorem isRead (json : Json) : IsRead limit json := by
  induction json using induct with
  | null | boolean | whole | decimal | string =>
      intro frames phase room starts
      rcases starts with rfl | rfl <;>
        simp [tokens, Reading.after, depth, room, Reading.step, Reading.startValue]
  | array items inductionHypothesis =>
      intro frames phase room starts
      have opened : Reading.step limit (.within frames phase) .openArray =
          Reading.enter limit (.array []) .valueOrClose frames := by
        rcases starts with rfl | rfl <;> rfl
      rw [tokens, List.foldlM_cons, opened, Reading.enter, Reading.after, depth,
        tokensItems_eq_map, ← Nat.add_assoc, Nat.add_right_comm]
      by_cases deeper : frames.length + 1 < limit
      · rw [if_pos deeper]
        dsimp only [bind, Option.bind]
        rw [foldlM_items inductionHypothesis deeper]
        simp only [depthItems_lt_iff deeper]
      · rw [if_neg deeper, if_neg (by omega)]
        rfl
  | object members inductionHypothesis =>
      intro frames phase room starts
      have opened : Reading.step limit (.within frames phase) .openObject =
          Reading.enter limit (.object []) .nameOrClose frames := by
        rcases starts with rfl | rfl <;> rfl
      rw [tokens, List.foldlM_cons, opened, Reading.enter, Reading.after, depth,
        tokensMembers_eq_map, ← Nat.add_assoc, Nat.add_right_comm]
      by_cases deeper : frames.length + 1 < limit
      · rw [if_pos deeper]
        dsimp only [bind, Option.bind]
        rw [foldlM_members inductionHypothesis deeper]
        simp only [depthMembers_lt_iff deeper]
      · rw [if_neg deeper, if_neg (by omega)]
        rfl

end Reading

section Scanning

variable {rest : List Char}

theorem scan?_token {head : Char} {tail : List Char} {token : Token}
    (notBlank : isBlank head = false) (isToken : token? (head :: tail) = some (token, rest)) :
    scan? (head :: tail) = (scan? rest).map (token :: ·) := by
  rw [scan?_cons notBlank, isToken]
  rfl

theorem endsNumber_mark {mark : Char} (isMark : ¬ IsNumeralCharacter mark) (rest : List Char) :
    EndsNumber (mark :: rest) := by
  rintro character ⟨⟩
  exact isMark

theorem scan?_quote (text : String) (rest : List Char) :
    scan? (quote text ++ rest) = (scan? rest).map (.string text :: ·) := by
  refine scan?_token (by decide) ?_
  show (stringRest? (text.toList.flatMap quoteChar ++ ['\x22'] ++ rest)).map _ = _
  rw [List.append_assoc, List.singleton_append, stringRest?_quote]
  simp

/-- A number is scanned into its token. -/
theorem scan?_text (number : NumberText) (ends : EndsNumber rest) :
    scan? (number.text ++ rest) =
      number.token?.bind fun token => (scan? rest).map (token :: ·) := by
  obtain ⟨head, tail, isText, starts⟩ := number.exists_cons
  have isNumber := number?_text number ends
  have differs {mark : Char} (noStart : ¬ (mark = '-' ∨ mark.isDigit = true)) : head ≠ mark :=
    fun isMark => noStart (isMark ▸ starts)
  have notBlank : isBlank head = false := by
    simp only [isBlank, Bool.or_eq_false_iff, beq_eq_false_iff_ne]
    exact ⟨⟨⟨differs (by decide), differs (by decide)⟩, differs (by decide)⟩, differs (by decide)⟩
  have isToken : token? (head :: (tail ++ rest)) = number? (head :: (tail ++ rest)) := by
    unfold token?
    dsimp only
    iterate 10 rw [if_neg (differs (by decide))]
  rw [isText, List.cons_append] at isNumber ⊢
  rw [scan?_cons notBlank, isToken, isNumber]
  cases number.token? <;> rfl

/-- A number on its own is read as its token. -/
theorem read?_number {json : Json} {number : NumberText} (isText : number.text = json.render) :
    read? (write json) = number.token?.bind fun token =>
      (Reading.step nestingLimit Reading.start token).bind Reading.result? := by
  have nothing : EndsNumber [] := by simp [EndsNumber]
  have alone := scan?_text number nothing
  rw [List.append_nil, isText] at alone
  rw [read?, readWithin?, write, String.toList_ofList, alone]
  cases isToken : number.token? with
  | none => rfl
  | some token =>
      obtain ⟨whole, rfl⟩ | ⟨double, rfl⟩ := NumberText.kind_of_token? isToken <;> rfl

/-- A number is scanned into the token of what its text is read as. -/
theorem scan?_number {json : Json} {number : NumberText} (isText : number.text = json.render)
    (ends : EndsNumber rest) :
    scan? (json.render ++ rest) =
      (read? (write json)).bind fun read => (scan? rest).map (tokens read ++ ·) := by
  rw [read?_number isText, ← isText, scan?_text number ends]
  cases isToken : number.token? with
  | none => rfl
  | some token =>
      obtain ⟨whole, rfl⟩ | ⟨double, rfl⟩ := NumberText.kind_of_token? isToken <;> rfl

theorem depth_of_read?_number {json read : Json} {number : NumberText}
    (isText : number.text = json.render) (found : read? (write json) = some read) :
    read.depth = 0 := by
  rw [read?_number isText] at found
  obtain ⟨token, isToken, isScalar⟩ := Option.bind_eq_some_iff.1 found
  obtain ⟨whole, rfl⟩ | ⟨double, rfl⟩ := NumberText.kind_of_token? isToken <;>
    exact (Option.some.inj isScalar) ▸ rfl

/-- A number without a JSON text is read as `null`. -/
theorem reread?_decimal_eq_null {double : Binary64} (noText : double.jsonText? = none) :
    reread? compact (.decimal double) = some .null := by
  have isNull : render (.decimal double) = "null".toList := by
    rw [render, noText]
    rfl
  rw [reread?]
  show read? (write (.decimal double)) = some .null
  rw [write, isNull]
  rfl

/-- Texts between commas are scanned one by one. -/
theorem scan?_intercalate {ι κ : Type*} {text : ι → List Char} {reread? : ι → Option κ}
    {part : κ → List Token} {items : List ι}
    (onePart : ∀ item ∈ items, ∀ rest, EndsNumber rest → scan? (text item ++ rest) =
      (reread? item).bind fun read => (scan? rest).map (part read ++ ·))
    (ends : EndsNumber rest) :
    scan? ([','].intercalate (items.map text) ++ rest) = (items.mapM reread?).bind fun reads =>
      (scan? rest).map ([Token.comma].intercalate (reads.map part) ++ ·) := by
  induction items with
  | nil => cases isRest : scan? rest <;> simp [isRest]
  | cons item items inductionHypothesis =>
      obtain ⟨first, others⟩ := List.forall_mem_cons.1 onePart
      cases items with
      | nil =>
          rw [List.map_singleton, List.intercalate_singleton, first rest ends]
          cases isItem : reread? item <;> simp [isItem]
      | cons second items =>
          have isComma (rest : List Char) : scan? (',' :: rest) = (scan? rest).map (.comma :: ·) :=
            scan?_token (by decide) rfl
          rw [List.map_cons, List.map_cons, List.intercalate_cons_cons, ← List.map_cons,
            List.append_assoc, List.append_assoc, List.singleton_append,
            first _ (endsNumber_mark (by decide) _), isComma, inductionHypothesis others]
          conv_rhs => rw [List.mapM_cons]
          cases isItem : reread? item with
          | none => rfl
          | some read =>
              cases areOthers : (second :: items).mapM reread? with
              | none => rfl
              | some reads =>
                  obtain ⟨next, reads, rfl⟩ : ∃ next more, reads = next :: more := by
                    rw [List.mapM_cons] at areOthers
                    obtain ⟨next, _, areOthers⟩ := Option.bind_eq_some_iff.1 areOthers
                    obtain ⟨more, _, isReads⟩ := Option.bind_eq_some_iff.1 areOthers
                    exact ⟨next, more, (Option.some.inj isReads).symm⟩
                  cases scan? rest <;> simp [List.intercalate_cons_cons]

/-- The text of a tree is scanned into the tokens of the re-read tree. -/
theorem scan?_render (json : Json) (ends : EndsNumber rest) :
    scan? (json.render ++ rest) =
      (json.reread? compact).bind fun read => (scan? rest).map (read.tokens ++ ·) := by
  induction json using induct generalizing rest with
  | null => exact scan?_token (by decide) rfl
  | boolean flag =>
      cases flag with
      | true => exact scan?_token (by decide) rfl
      | false => exact scan?_token (by decide) rfl
  | string text => exact scan?_quote text rest
  | whole number =>
      obtain ⟨written, isText⟩ := exists_text_whole number
      exact scan?_number isText ends
  | decimal double =>
      cases isText : double.jsonText? with
      | some text =>
          obtain ⟨written, writes⟩ := exists_writes_decimal isText
          exact scan?_number (writes.text_eq.trans (by rw [render, isText]; rfl)) ends
      | none =>
          rw [reread?_decimal_eq_null isText, render, isText]
          exact scan?_token (by decide) rfl
  | array items inductionHypothesis =>
      have opened (rest : List Char) : scan? ('[' :: rest) = (scan? rest).map (.openArray :: ·) :=
        scan?_token (by decide) rfl
      have closed : scan? (']' :: rest) = (scan? rest).map (.closeArray :: ·) :=
        scan?_token (by decide) rfl
      have afterItems : EndsNumber (']' :: rest) := endsNumber_mark (by decide) rest
      rw [render, renderItems_eq_map, List.cons_append, opened, List.append_assoc,
        List.singleton_append, scan?_intercalate
          (fun item member rest ends => inductionHypothesis item member ends) afterItems, closed,
        reread?, rereadItems?_eq_mapM]
      cases items.mapM (reread? compact) with
      | none => rfl
      | some reads => cases scan? rest <;> simp [tokens, tokensItems_eq_map]
  | object members inductionHypothesis =>
      have opened (rest : List Char) :
          scan? ('\x7b' :: rest) = (scan? rest).map (.openObject :: ·) :=
        scan?_token (by decide) rfl
      have closed : scan? ('\x7d' :: rest) = (scan? rest).map (.closeObject :: ·) :=
        scan?_token (by decide) rfl
      have afterMembers : EndsNumber ('\x7d' :: rest) := endsNumber_mark (by decide) rest
      have named (member : String × Json) (isMember : member ∈ members) (rest : List Char)
          (ends : EndsNumber rest) :
          scan? (quote member.1 ++ ':' :: member.2.render ++ rest) =
            (rereadMember? compact member).bind fun read =>
              (scan? rest).map ((Token.string read.1 :: .colon :: read.2.tokens) ++ ·) := by
        have isColon (rest : List Char) : scan? (':' :: rest) = (scan? rest).map (.colon :: ·) :=
          scan?_token (by decide) rfl
        rw [List.append_assoc, List.cons_append, scan?_quote, isColon,
          inductionHypothesis member isMember ends, rereadMember?]
        cases member.2.reread? compact with
        | none => rfl
        | some read => cases scan? rest <;> rfl
      rw [render, renderMembers_eq_map, List.cons_append, opened, List.append_assoc,
        List.singleton_append, scan?_intercalate named afterMembers, closed, reread?,
        rereadMembers?_eq_mapM]
      cases members.mapM (rereadMember? compact) with
      | none => rfl
      | some reads => cases scan? rest <;> simp [tokens, tokensMembers_eq_map]

end Scanning

section Depth

theorem depthItems_eq_of_reread? {items reads : List Json}
    (kept : ∀ item ∈ items, ∀ {read}, item.reread? compact = some read → read.depth = item.depth)
    (areRead : rereadItems? compact items = some reads) : depthItems reads = depthItems items := by
  induction items generalizing reads with
  | nil =>
      cases areRead
      rfl
  | cons item items inductionHypothesis =>
      obtain ⟨first, others⟩ := List.forall_mem_cons.1 kept
      obtain ⟨read, isRead, areRead⟩ := Option.bind_eq_some_iff.1 areRead
      obtain ⟨more, areMore, isReads⟩ := Option.bind_eq_some_iff.1 areRead
      obtain rfl := Option.some.inj isReads
      rw [depthItems, depthItems, first isRead, inductionHypothesis others areMore]

theorem depthMembers_eq_of_reread? {members reads : List (String × Json)}
    (kept : ∀ member ∈ members, ∀ {read}, member.2.reread? compact = some read →
      read.depth = member.2.depth)
    (areRead : rereadMembers? compact members = some reads) :
    depthMembers reads = depthMembers members := by
  induction members generalizing reads with
  | nil =>
      cases areRead
      rfl
  | cons member members inductionHypothesis =>
      obtain ⟨first, others⟩ := List.forall_mem_cons.1 kept
      obtain ⟨read, isRead, areRead⟩ := Option.bind_eq_some_iff.1 areRead
      obtain ⟨more, areMore, isReads⟩ := Option.bind_eq_some_iff.1 areRead
      obtain rfl := Option.some.inj isReads
      rw [depthMembers, depthMembers, first isRead, inductionHypothesis others areMore]

/-- Re-reading keeps the nesting. -/
theorem depth_eq_of_reread? {json read : Json} (isRead : json.reread? compact = some read) :
    read.depth = json.depth := by
  induction json using induct generalizing read with
  | null | boolean | string =>
      cases isRead
      rfl
  | whole number =>
      obtain ⟨written, isText⟩ := exists_text_whole number
      exact depth_of_read?_number isText isRead
  | decimal double =>
      cases isText : double.jsonText? with
      | some text =>
          obtain ⟨written, writes⟩ := exists_writes_decimal isText
          exact depth_of_read?_number (writes.text_eq.trans (by rw [render, isText]; rfl)) isRead
      | none =>
          rw [reread?_decimal_eq_null isText] at isRead
          cases isRead
          rfl
  | array items inductionHypothesis =>
      obtain ⟨reads, areRead, rfl⟩ := Option.map_eq_some_iff.1 isRead
      rw [depth, depth, depthItems_eq_of_reread? inductionHypothesis areRead]
  | object members inductionHypothesis =>
      obtain ⟨reads, areRead, rfl⟩ := Option.map_eq_some_iff.1 isRead
      rw [depth, depth, depthMembers_eq_of_reread? inductionHypothesis areRead]

end Depth

/-- What is written is read with every number read from its own text, if it is not nested too
deeply. -/
theorem read?_write (json : Json) :
    read? (write json) = if json.depth < nestingLimit then json.reread? compact else none := by
  have nothing : EndsNumber [] := by simp [EndsNumber]
  have scanned := scan?_render json nothing
  rw [List.append_nil] at scanned
  rw [read?, readWithin?, write, String.toList_ofList, scanned]
  cases isReread : json.reread? compact with
  | none => simp
  | some read =>
      have isResult : read.tokens.foldlM (Reading.step nestingLimit) Reading.start =
          Reading.after nestingLimit read [] := isRead read [] .value (by decide) (Or.inl rfl)
      have noToken : scan? [] = some [] := rfl
      rw [noToken]
      dsimp only [bind, Option.bind, Option.map]
      rw [List.append_nil, isResult, Reading.after, depth_eq_of_reread? isReread, List.length_nil,
        Nat.zero_add]
      by_cases shallow : json.depth < nestingLimit
      · rw [if_pos shallow, if_pos shallow]
        rfl
      · rw [if_neg shallow, if_neg shallow]

/-- The library in use keeps the promises of the format. -/
theorem compact_lawful : compact.Lawful := by
  have written {json : Json} (shallow : json.depth < nestingLimit) :
      compact.read? (compact.write json) = json.reread? compact :=
    (read?_write json).trans (if_pos shallow)
  constructor
  case null => exact written (by decide)
  case boolean => exact fun _ => written (Nat.zero_lt_succ _)
  case string => exact fun _ => written (Nat.zero_lt_succ _)
  case not_finite =>
    intro double notFinite
    have noText : double.jsonText? = none := by
      unfold Binary64.jsonText?
      rw [notFinite]
      rfl
    have isNull : render (.decimal double) = "null".toList := by
      rw [render, noText]
      rfl
    exact congrArg String.ofList isNull
  case array =>
    intro items shallow
    rw [written shallow, reread?, rereadItems?_eq_mapM]
    refine congrArg (Option.map Json.array) (mapM_congr fun item member => ?_)
    exact (written ((depth_lt_of_item member).trans shallow)).symm
  case object =>
    intro members shallow
    rw [written shallow, reread?, rereadMembers?_eq_mapM]
    refine congrArg (Option.map Json.object) (mapM_congr fun member isMember => ?_)
    rw [written ((depth_lt_of_member isMember).trans shallow), rereadMember?]

end DecisionNetwork.Json
