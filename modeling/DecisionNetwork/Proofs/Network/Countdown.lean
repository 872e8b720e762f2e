import DecisionNetwork.Network.Order
import DecisionNetwork.Proofs.Network.Acyclic

/-!
Contract: what the countdown knows of the nodes that have not been placed.

Owns:
- `waiting`, the inputs of a node that have not been taken, and `IsReady`;
- `get?_foldl_release` and `mem_ready_foldl_release`, what a round of steps down does;
- `Tracks`, the counts and the ready nodes after some nodes were taken, with `tracks_start` and
  `Tracks.take`, by which the start and every round have it;
- `Tracks.exists_pending_succ`, by which no step down meets a count that is at its end;
- `Greedy`, orders that take the least ready node as long as there is one, and `greedy_sortedIds`.

A node that is taken is taken from the counts of its readers once.
-/

namespace DecisionNetwork.Network

variable {α : Type}

/-- How many inputs of a node have not been taken. -/
def waiting (taken : List String) (node : Node α) : Nat :=
  (node.inputs.toList.filter fun input => input ∉ taken).length

/-- A node that has not been taken while all its inputs have. -/
structure IsReady (network : Network α) (taken : List String) (id : String) : Prop where
  isNode : network.contains id = true
  untaken : id ∉ taken
  supplied : ∀ input, network.Reads id input → input ∈ taken

section Waiting

variable {taken : List String} {id : String} {node : Node α}

theorem waiting_nil (node : Node α) : waiting [] node = SortedMap.size node.inputs := by
  simp [waiting, SortedMap.size, SortedSet.toList, SortedMap.keys]

theorem waiting_eq_zero_iff :
    waiting taken node = 0 ↔ ∀ input ∈ node.inputs.toList, input ∈ taken := by
  simp [waiting, List.filter_eq_nil_iff]

/-- A node that reads one that is being taken has been waiting for it. -/
theorem waiting_of_reads (untaken : id ∉ taken) (reads : id ∈ node.inputs.toList) :
    waiting taken node = waiting (id :: taken) node + 1 := by
  have listed : id ∈ node.inputs.toList.filter fun input => input ∉ taken :=
    List.mem_filter.2 ⟨reads, by simpa using untaken⟩
  have distinct : (node.inputs.toList.filter fun input => input ∉ taken).Nodup :=
    (SortedMap.keys_nodup node.inputs).filter _
  have others : (node.inputs.toList.filter fun input => input ∉ taken).erase id =
      node.inputs.toList.filter fun input => input ∉ id :: taken := by
    rw [distinct.erase_eq_filter, List.filter_filter]
    refine List.filter_congr fun input _ => ?_
    by_cases same : input = id <;> simp [same]
  show (node.inputs.toList.filter fun input => input ∉ taken).length = _
  rw [(List.perm_cons_erase listed).length_eq, List.length_cons, others]
  rfl

theorem waiting_of_not_reads (apart : id ∉ node.inputs.toList) :
    waiting (id :: taken) node = waiting taken node := by
  unfold waiting
  congr 1
  refine List.filter_congr fun input reads => ?_
  have differ : input ≠ id := fun same => apart (same ▸ reads)
  simp [differ]

end Waiting

section Readers

private theorem readers_foldl_inputs (id : String) (inputs : List String) (distinct : inputs.Nodup)
    (readers : SortedMap String (List String)) (input : String) :
    ((inputs.foldl (fun readers input =>
        readers.insert input ((readers.get? input).getD [] ++ [id])) readers).get? input).getD [] =
      (readers.get? input).getD [] ++ if input ∈ inputs then [id] else [] := by
  induction inputs generalizing readers with
  | nil => simp
  | cons head tail inductionHypothesis =>
      obtain ⟨apart, tailDistinct⟩ := List.nodup_cons.1 distinct
      rw [List.foldl_cons, inductionHypothesis tailDistinct]
      by_cases same : input = head
      · subst same
        simp [SortedMap.get?_insert_self, apart]
      · simp [SortedMap.get?_insert_of_ne _ _ same, same]

private theorem readers_foldl_nodes (nodes : List (Node α))
    (readers : SortedMap String (List String)) (input : String) :
    ((nodes.foldl (fun readers node => node.inputs.toList.foldl (fun readers input =>
        readers.insert input ((readers.get? input).getD [] ++ [node.id])) readers)
          readers).get? input).getD [] =
      (readers.get? input).getD [] ++
        (nodes.filter fun node => input ∈ node.inputs.toList).map Node.id := by
  induction nodes generalizing readers with
  | nil => simp
  | cons node rest inductionHypothesis =>
      rw [List.foldl_cons, inductionHypothesis,
        readers_foldl_inputs node.id node.inputs.toList (SortedMap.keys_nodup node.inputs)]
      by_cases reads : input ∈ node.inputs.toList <;> simp [reads]

/-- The readers of an identifier are the nodes that have it among their inputs. -/
theorem readers_eq_filter (network : Network α) (input : String) :
    (network.readers.get? input).getD [] =
      (network.nodeList.filter fun node => input ∈ node.inputs.toList).map Node.id :=
  readers_foldl_nodes network.nodeList .empty input

variable {network : Network α}

/-- The nodes of a network are listed under different identifiers. -/
theorem nodeList_pairwise (built : network.Built) :
    network.nodeList.Pairwise fun left right => left.id ≠ right.id := by
  have distinct : (network.nodeList.map Node.id).Nodup := by
    rw [built.map_id_nodeList]
    exact SortedMap.keys_nodup network.nodes
  exact List.pairwise_map.1 distinct

theorem mem_readers_iff (built : network.Built) {id input : String} :
    id ∈ (network.readers.get? input).getD [] ↔ network.Reads id input := by
  rw [readers_eq_filter]
  constructor
  · intro member
    obtain ⟨node, listed, rfl⟩ := List.mem_map.1 member
    obtain ⟨inNetwork, reads⟩ := List.mem_filter.1 listed
    obtain ⟨id, found⟩ := mem_nodeList_iff.1 inNetwork
    exact ⟨node, built.node_id found ▸ found, by simpa using reads⟩
  · rintro ⟨node, found, reads⟩
    have listed : node ∈ network.nodeList.filter fun node => input ∈ node.inputs.toList :=
      List.mem_filter.2 ⟨mem_nodeList_iff.2 ⟨id, found⟩, by simpa using reads⟩
    exact List.mem_map.2 ⟨node, listed, built.node_id found⟩

theorem readers_nodup (built : network.Built) (input : String) :
    ((network.readers.get? input).getD []).Nodup := by
  rw [readers_eq_filter]
  exact List.pairwise_map.2 ((nodeList_pairwise built).sublist List.filter_sublist)

end Readers

namespace Countdown

section Release

theorem get?_release (state : Countdown) (id other : String) :
    (state.release id).pending.get? other =
      if other = id then (state.pending.get? other).map Nat.pred else state.pending.get? other := by
  unfold release
  split
  next remaining found =>
      dsimp only
      by_cases same : other = id
      · subst same
        simp [found, SortedMap.get?_insert_self]
      · rw [if_neg same, SortedMap.get?_insert_of_ne _ _ same]
  next noneLeft =>
      split
      next same =>
          subst same
          cases found : state.pending.get? other with
          | none => rfl
          | some count =>
              cases count with
              | zero => rfl
              | succ remaining => exact absurd found (noneLeft remaining)
      next => rfl

theorem mem_ready_release (state : Countdown) (id other : String) :
    other ∈ (state.release id).ready.toList ↔
      other ∈ state.ready.toList ∨ other = id ∧ state.pending.get? other = some 1 := by
  unfold release
  split
  next remaining found =>
      dsimp only
      split
      next isLast =>
          subst isLast
          rw [SortedSet.mem_toList_insert, or_comm]
          refine or_congr_right ⟨?_, And.left⟩
          rintro rfl
          exact ⟨rfl, found⟩
      next more =>
          refine (or_iff_left ?_).symm
          rintro ⟨rfl, last⟩
          rw [found, Option.some.injEq] at last
          omega
  next noneLeft =>
      refine (or_iff_left ?_).symm
      rintro ⟨rfl, last⟩
      exact noneLeft 0 last

/-- A round takes one from the counts of the nodes that it names. -/
theorem get?_foldl_release (state : Countdown) {ids : List String} (distinct : ids.Nodup)
    (other : String) :
    (ids.foldl release state).pending.get? other =
      if other ∈ ids then (state.pending.get? other).map Nat.pred
      else state.pending.get? other := by
  induction ids generalizing state with
  | nil => simp
  | cons id rest inductionHypothesis =>
      obtain ⟨apart, restDistinct⟩ := List.nodup_cons.1 distinct
      rw [List.foldl_cons, inductionHypothesis _ restDistinct, get?_release]
      by_cases same : other = id
      · subst same
        simp [apart]
      · simp [same]

/-- In a round those nodes get ready that wait for one input. -/
theorem mem_ready_foldl_release (state : Countdown) {ids : List String} (distinct : ids.Nodup)
    (other : String) :
    other ∈ (ids.foldl release state).ready.toList ↔
      other ∈ state.ready.toList ∨ other ∈ ids ∧ state.pending.get? other = some 1 := by
  induction ids generalizing state with
  | nil => simp
  | cons id rest inductionHypothesis =>
      obtain ⟨apart, restDistinct⟩ := List.nodup_cons.1 distinct
      rw [List.foldl_cons, inductionHypothesis _ restDistinct, mem_ready_release, get?_release]
      by_cases same : other = id
      · subst same
        simp [apart]
      · simp [same]

end Release

/-- What holds after some nodes were taken: the counts are those of the inputs that are left, the
ready nodes are listed, and what was taken had been ready. -/
structure Tracks (network : Network α) (taken : List String) (state : Countdown) : Prop where
  counts : ∀ id, state.pending.get? id = (network.node? id).map (waiting taken)
  lists : ∀ id, id ∈ state.ready.toList ↔ network.IsReady taken id
  closed : ∀ id ∈ taken, ∀ input, network.Reads id input → input ∈ taken

section Run

variable {network : Network α} {taken : List String} {state : Countdown} {id : String}

theorem get?_start (built : network.Built) (id : String) :
    (start network).pending.get? id = (network.node? id).map (waiting []) := by
  have distinct : (network.nodeList.map fun node => (node.id, SortedMap.size node.inputs)).Pairwise
      fun left right => compare left.1 right.1 ≠ .eq :=
    List.pairwise_map.2 ((nodeList_pairwise built).imp fun differ same =>
      differ (Std.LawfulEqOrd.eq_of_compare same))
  have listed (entry : String × Nat) :=
    @List.Perm.mem_iff _ entry _ _ (SortedMap.toList_ofList_perm distinct)
  apply Option.ext
  intro count
  show (SortedMap.ofList _).get? id = some count ↔ _
  rw [SortedMap.get?_eq_some_iff, listed, Option.map_eq_some_iff, List.mem_map]
  constructor
  · rintro ⟨node, inNetwork, same⟩
    cases same
    obtain ⟨id, found⟩ := mem_nodeList_iff.1 inNetwork
    exact ⟨node, built.node_id found ▸ found, waiting_nil node⟩
  · rintro ⟨node, found, rfl⟩
    refine ⟨node, mem_nodeList_iff.2 ⟨id, found⟩, ?_⟩
    rw [built.node_id found, waiting_nil]

theorem isReady_iff :
    network.IsReady taken id ↔
      id ∉ taken ∧ (network.node? id).map (waiting taken) = some 0 := by
  rw [Option.map_eq_some_iff]
  constructor
  · intro ready
    obtain ⟨node, found⟩ := contains_iff.1 ready.isNode
    exact ⟨ready.untaken, node, found,
      waiting_eq_zero_iff.2 fun input reads => ready.supplied input ⟨node, found, reads⟩⟩
  · rintro ⟨untaken, node, found, nothingLeft⟩
    refine ⟨contains_iff.2 ⟨node, found⟩, untaken, fun input reads => ?_⟩
    obtain ⟨same, sameFound, listed⟩ := reads
    rw [found] at sameFound
    cases sameFound
    exact waiting_eq_zero_iff.1 nothingLeft input listed

theorem tracks_start (built : network.Built) : Tracks network [] (start network) where
  counts := get?_start built
  lists id := by
    rw [isReady_iff, ← get?_start built]
    show id ∈ (SortedSet.ofList _).toList ↔ _
    rw [SortedSet.mem_toList_ofList, SortedMap.get?_eq_some_iff]
    simp [start]
  closed _ member := by cases member

/-- Once a node is taken the ready ones are the others of before and those that waited for it
alone. -/
theorem isReady_cons_iff (built : network.Built) (untaken : id ∉ taken)
    (closed : ∀ id ∈ taken, ∀ input, network.Reads id input → input ∈ taken) {other : String} :
    network.IsReady (id :: taken) other ↔
      other ≠ id ∧ network.IsReady taken other ∨
        network.Reads other id ∧ (network.node? other).map (waiting taken) = some 1 := by
  constructor
  · intro ready
    obtain ⟨differ, otherUntaken⟩ := not_or.1 (List.mem_cons.not.1 ready.untaken)
    by_cases reads : network.Reads other id
    · obtain ⟨node, found, listed⟩ := reads
      have nothingLeft : waiting (id :: taken) node = 0 := by
        simpa [found] using (isReady_iff.1 ready).2
      refine Or.inr ⟨⟨node, found, listed⟩, ?_⟩
      rw [found, Option.map_some, waiting_of_reads untaken listed, nothingLeft]
    · refine Or.inl ⟨differ, ready.isNode, otherUntaken, fun input readsInput => ?_⟩
      rcases List.mem_cons.1 (ready.supplied input readsInput) with rfl | inTaken
      · exact absurd readsInput reads
      · exact inTaken
  · rintro (⟨differ, ready⟩ | ⟨reads, oneLeft⟩)
    · exact ⟨ready.isNode, List.not_mem_cons_of_ne_of_not_mem differ ready.untaken,
        fun input reads => List.mem_cons_of_mem id (ready.supplied input reads)⟩
    · have differ : other ≠ id := by
        rintro rfl
        exact built.acyclic other (.single reads)
      have otherUntaken : other ∉ taken := fun member => untaken (closed other member id reads)
      obtain ⟨node, found, listed⟩ := reads
      rw [found, Option.map_some, waiting_of_reads untaken listed, Option.some.injEq] at oneLeft
      refine isReady_iff.2 ⟨List.not_mem_cons_of_ne_of_not_mem differ otherUntaken, ?_⟩
      rw [found, Option.map_some, Nat.succ.inj oneLeft]

/-- In a round every step down meets a positive count: the reader has waited for the node that is
taken, and the steps before it were those of other readers. -/
theorem Tracks.exists_pending_succ (built : network.Built) (tracks : Tracks network taken state)
    {rest : SortedSet String} (listed : state.ready.toList = id :: rest.toList)
    {before after : List String} {reader : String}
    (round : (network.readers.get? id).getD [] = before ++ reader :: after) :
    ∃ remaining, (before.foldl release { state with ready := rest }).pending.get? reader =
      some (remaining + 1) := by
  have ready : network.IsReady taken id := (tracks.lists id).1 (listed ▸ List.mem_cons_self)
  have isReader : reader ∈ (network.readers.get? id).getD [] := by simp [round]
  obtain ⟨distinct, _, apart⟩ := List.nodup_append.1 (round ▸ readers_nodup built id)
  have notBefore : reader ∉ before := fun member =>
    apart reader member reader List.mem_cons_self rfl
  obtain ⟨node, found, reads⟩ := (mem_readers_iff built).1 isReader
  refine ⟨waiting (id :: taken) node, ?_⟩
  rw [get?_foldl_release _ distinct, if_neg notBefore, tracks.counts, found, Option.map_some,
    waiting_of_reads ready.untaken reads]

/-- A round, in which a ready node is taken and its readers are counted down. -/
theorem Tracks.take (built : network.Built) (tracks : Tracks network taken state)
    {rest : SortedSet String} (listed : state.ready.toList = id :: rest.toList) :
    Tracks network (id :: taken)
      (((network.readers.get? id).getD []).foldl release { state with ready := rest }) := by
  have ready : network.IsReady taken id := (tracks.lists id).1 (listed ▸ List.mem_cons_self)
  have distinct := readers_nodup built id
  have inRest (other : String) :
      other ∈ rest.toList ↔ other ≠ id ∧ network.IsReady taken other := by
    have apart : id ∉ rest.toList :=
      (List.nodup_cons.1 (listed ▸ SortedMap.keys_nodup state.ready)).1
    rw [← tracks.lists other, listed, List.mem_cons]
    constructor
    · intro member
      exact ⟨fun same => apart (same ▸ member), Or.inr member⟩
    · rintro ⟨differ, same | member⟩
      · exact absurd same differ
      · exact member
  constructor
  case counts =>
    intro other
    rw [get?_foldl_release _ distinct, tracks.counts other]
    cases found : network.node? other with
    | none => simp
    | some node =>
        by_cases reads : id ∈ node.inputs.toList
        · rw [if_pos ((mem_readers_iff built).2 ⟨node, found, reads⟩), Option.map_some,
            Option.map_some, Option.map_some, waiting_of_reads ready.untaken reads, Nat.pred_succ]
        · have notReader : other ∉ (network.readers.get? id).getD [] := by
            rw [mem_readers_iff built]
            rintro ⟨same, sameFound, listed⟩
            rw [found] at sameFound
            cases sameFound
            exact reads listed
          rw [if_neg notReader, Option.map_some, Option.map_some, waiting_of_not_reads reads]
  case lists =>
    intro other
    rw [mem_ready_foldl_release _ distinct, inRest, mem_readers_iff built, tracks.counts other,
      isReady_cons_iff built ready.untaken tracks.closed]
  case closed =>
    intro other member input reads
    rcases List.mem_cons.1 member with rfl | inTaken
    · exact List.mem_cons_of_mem _ (ready.supplied input reads)
    · exact List.mem_cons_of_mem _ (tracks.closed other inTaken input reads)

end Run

end Countdown

/-- Orders of the nodes that have not been taken: the least ready one comes first, and none is
ready at the end. -/
inductive Greedy (network : Network α) : List String → List String → Prop
  | done {taken : List String} (noneReady : ∀ id, ¬ network.IsReady taken id) :
      Greedy network taken []
  | take {taken rest : List String} {id : String} (ready : network.IsReady taken id)
      (least : ∀ other, network.IsReady taken other → (compare id other).isLE)
      (remaining : Greedy network (id :: taken) rest) : Greedy network taken (id :: rest)

theorem greedy_placeAll {network : Network α} (built : network.Built) {taken : List String}
    {state : Countdown} (tracks : Countdown.Tracks network taken state) :
    network.Greedy taken (state.placeAll network.readers) := by
  fun_induction Countdown.placeAll network.readers state generalizing taken with
  | case1 state popped =>
      refine .done fun id ready => ?_
      have member := (tracks.lists id).2 ready
      rw [SortedSet.toList_of_popFirst?_eq_none popped] at member
      cases member
  | case2 state id rest popped inductionHypothesis =>
      have listed := SortedSet.toList_of_popFirst?_eq_some popped
      have ascending := SortedSet.ascending_toList state.ready
      rw [listed] at ascending
      refine .take ((tracks.lists id).1 (listed ▸ List.mem_cons_self)) (fun other ready => ?_)
        (inductionHypothesis (tracks.take built listed))
      have member := (tracks.lists other).2 ready
      rw [listed] at member
      rcases List.mem_cons.1 member with rfl | later
      · exact Std.ReflCmp.isLE_rfl
      · rw [(List.pairwise_cons.1 ascending).1 other later]
        rfl

theorem greedy_sortedIds {network : Network α} (built : network.Built) :
    network.Greedy [] network.sortedIds :=
  greedy_placeAll built (Countdown.tracks_start built)

end DecisionNetwork.Network
