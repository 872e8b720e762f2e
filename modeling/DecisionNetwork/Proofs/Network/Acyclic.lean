import DecisionNetwork.Proofs.Network.Built
import Mathlib.Logic.Relation

/-!
Contract: what holds of a network after every call that adds a node, granted or refused.

Owns:
- `offer` and `offerAll`, one such call and a run of them on a new network;
- `Refuses`, why a node is refused, with `add_eq_error_iff` and `isSome_fst_offer_iff`;
- `eq_of_run_addNode_eq_error`, by which a call that fails has changed nothing;
- `Reads`, the edges from nodes to their inputs, and `Sound`, the invariants of a network;
- `Built.offer` and `built_offerAll`, by which a call and a run keep them;
- `sound_offerAll`, the invariants after every call and what the next call does.

Cycles are not looked for. A node can only read nodes that were there before it, so the places in
which the nodes were added decrease along the edges.
-/

namespace DecisionNetwork.Network

variable {α : Type}

/-- A call that adds a node: why it was refused, if it was, and the network that it leaves. -/
def offer (network : Network α) (node : Node α) : Option ModelError × Network α :=
  match (addNode node).run.run network with
  | (.ok (), next) => (none, next)
  | (.error failure, next) => (some failure, next)

/-- The network after several calls on a new one. -/
def offerAll (nodes : List (Node α)) : Network α :=
  nodes.foldl (fun network node => (network.offer node).2) .empty

/-- Whether a node reads an identifier. -/
def Reads (network : Network α) (id input : String) : Prop :=
  ∃ node, network.node? id = some node ∧ input ∈ node.inputs.toList

/-- Nodes are stored under their identifiers, read nodes and do not depend on themselves. -/
structure Sound (network : Network α) : Prop where
  stored : ∀ id node, network.node? id = some node → node.id = id
  closed : ∀ id input, network.Reads id input → network.contains input = true
  acyclic : ∀ id, ¬ Relation.TransGen network.Reads id id

/-- Why a network refuses a node: its identifier is taken or, if it is not, an input is missing, of
which the smallest is named. -/
inductive Refuses (network : Network α) (node : Node α) : ModelError → Prop
  | taken (present : network.contains node.id = true) :
      Refuses network node (.duplicateNode node.id)
  | missing {input : String} (new : network.contains node.id = false)
      (reads : input ∈ node.inputs.toList) (absent : network.contains input = false)
      (least : ∀ other ∈ node.inputs.toList, network.contains other = false →
        (compare input other).isLE) :
      Refuses network node (.unknownInput node.id input)

/-- The first of ascending names that passes a test is the least that does. -/
theorem find?_ascending_eq_some_iff {names : List String} {test : String → Bool} {name : String}
    (ascending : names.Pairwise fun left right => compare left right = .lt) :
    names.find? test = some name ↔
      name ∈ names ∧ test name = true ∧
        ∀ other ∈ names, test other = true → (compare name other).isLE := by
  have asymmetric {left right : String} (below : compare left right = .lt) :
      compare right left ≠ .lt := fun above => by
    rw [Std.OrientedCmp.gt_of_lt below] at above
    cases above
  rw [find?_eq_some_iff_of_pairwise asymmetric ascending]
  refine and_congr_right fun _ => and_congr_right fun _ => forall_congr' fun other =>
    imp_congr_right fun _ => imp_congr_right fun _ => ?_
  rw [Ordering.isLE_iff_eq_lt_or_eq_eq, Std.LawfulEqOrd.compare_eq_iff_eq, or_comm,
    eq_comm (a := name)]

section Call

variable {network : Network α} {node : Node α} {failure : ModelError}

/-- A node is refused for the reasons above and for no others. -/
theorem add_eq_error_iff : network.add node = .error failure ↔ network.Refuses node failure := by
  have smallest (input : String) :=
    @find?_ascending_eq_some_iff node.inputs.toList (fun input => !network.contains input) input
      (SortedSet.ascending_toList node.inputs)
  simp only [Bool.not_eq_true'] at smallest
  rw [add_eq]
  cases taken : network.contains node.id with
  | true =>
      rw [if_pos rfl, Except.error.injEq]
      constructor
      · rintro rfl
        exact .taken taken
      · rintro (_ | ⟨new, _, _, _⟩)
        · rfl
        · rw [taken] at new
          cases new
  | false =>
      rw [if_neg Bool.false_ne_true]
      constructor
      · intro refused
        split at refused
        next input found =>
            cases refused
            obtain ⟨reads, absent, least⟩ := (smallest input).1 found
            exact .missing taken reads absent least
        next => cases refused
      · rintro (present | ⟨_, reads, absent, least⟩)
        · rw [taken] at present
          cases present
        · rw [(smallest _).2 ⟨reads, absent, least⟩]

/-- A call that fails leaves the network as it was. -/
theorem eq_of_run_addNode_eq_error {next : Network α}
    (failed : (addNode node).run.run network = (.error failure, next)) : next = network := by
  rw [run_addNode] at failed
  split at failed
  · cases failed
    rfl
  · split at failed <;> cases failed
    rfl

/-- A call is refused for the reasons above. -/
theorem fst_offer_eq_some_iff :
    (network.offer node).1 = some failure ↔ network.Refuses node failure := by
  rw [← add_eq_error_iff, offer, add]
  obtain ⟨_ | ⟨⟩, next⟩ := (addNode node).run.run network
  · simp
  · simp

theorem snd_offer_of_refused (refused : (network.offer node).1.isSome) :
    (network.offer node).2 = network := by
  unfold offer at refused ⊢
  match called : (addNode node).run.run network with
  | (.ok (), next) => simp [called] at refused
  | (.error failure, next) => exact eq_of_run_addNode_eq_error called

theorem add_eq_ok_of_granted (granted : (network.offer node).1 = none) :
    network.add node = .ok (network.offer node).2 := by
  unfold offer at granted ⊢
  unfold add
  match called : (addNode node).run.run network with
  | (.ok (), next) => rfl
  | (.error failure, next) => simp [called] at granted

/-- A call is refused when the identifier is taken or an input is missing. -/
theorem isSome_fst_offer_iff :
    (network.offer node).1.isSome ↔
      network.contains node.id = true ∨
        ∃ input ∈ node.inputs.toList, network.contains input = false := by
  cases answer : (network.offer node).1 with
  | none =>
      obtain ⟨new, present, _⟩ := add_eq_ok_iff.1 (add_eq_ok_of_granted answer)
      have noneMissing : ¬ ∃ input ∈ node.inputs.toList, network.contains input = false := by
        rintro ⟨input, reads, absent⟩
        rw [present input reads] at absent
        cases absent
      simp [new, noneMissing]
  | some failure =>
      simp only [Option.isSome_some, true_iff]
      cases fst_offer_eq_some_iff.1 answer with
      | taken present => exact Or.inl present
      | missing _ reads absent _ => exact Or.inr ⟨_, reads, absent⟩

/-- A node that reads itself is refused. -/
theorem isSome_fst_offer_of_reads_self (reads : node.id ∈ node.inputs.toList) :
    (network.offer node).1.isSome := by
  rw [isSome_fst_offer_iff]
  cases taken : network.contains node.id with
  | true => exact Or.inl rfl
  | false => exact Or.inr ⟨node.id, reads, taken⟩

end Call

section Run

/-- A call keeps a network among those that are built. -/
theorem Built.offer {network : Network α} (built : network.Built) (node : Node α) :
    (network.offer node).2.Built := by
  cases answer : (network.offer node).1 with
  | none => exact built.add (add_eq_ok_of_granted answer)
  | some failure =>
      rw [snd_offer_of_refused (Option.isSome_of_eq_some answer)]
      exact built

theorem offerAll_append_singleton (earlier : List (Node α)) (node : Node α) :
    offerAll (earlier ++ [node]) = ((offerAll earlier).offer node).2 :=
  List.foldl_append

theorem built_offerAll (nodes : List (Node α)) : (offerAll nodes).Built := by
  induction nodes using List.reverseRecOn with
  | nil => exact .empty
  | append_singleton earlier node inductionHypothesis =>
      rw [offerAll_append_singleton]
      exact inductionHypothesis.offer node

/-- No node depends on itself. -/
theorem Built.acyclic {network : Network α} (built : network.Built) (id : String) :
    ¬ Relation.TransGen network.Reads id id := by
  obtain ⟨rank, decreases⟩ := built.exists_rank
  have descends {source target : String} (path : Relation.TransGen network.Reads source target) :
      rank target < rank source := by
    induction path with
    | single reads =>
        obtain ⟨node, found, listed⟩ := reads
        exact decreases source node found _ listed
    | tail _ reads inductionHypothesis =>
        obtain ⟨node, found, listed⟩ := reads
        exact Nat.lt_trans (decreases _ node found _ listed) inductionHypothesis
  intro cycle
  exact Nat.lt_irrefl _ (descends cycle)

theorem Built.sound {network : Network α} (built : network.Built) : network.Sound where
  stored _ _ found := built.node_id found
  closed _ _ reads := by
    obtain ⟨node, found, listed⟩ := reads
    exact built.contains_input found listed
  acyclic := built.acyclic

/-- After every call, granted or refused, every node reads nodes and none depends on itself. The
next call is refused exactly when the identifier is taken or an input is missing, so always when the
node reads itself, and it names the reason. If it is refused the network stays as it was; if not,
the node is there and all others are what they were. -/
theorem sound_offerAll (earlier : List (Node α)) (node : Node α) :
    let network := offerAll earlier
    let called := network.offer node
    network.Sound ∧ called.2 = offerAll (earlier ++ [node]) ∧
      (called.1.isSome ↔ network.contains node.id = true ∨
        ∃ input ∈ node.inputs.toList, network.contains input = false) ∧
      (∀ failure, called.1 = some failure ↔ network.Refuses node failure) ∧
      (node.id ∈ node.inputs.toList → called.1.isSome) ∧
      (called.1.isSome → called.2 = network) ∧
      (called.1 = none → ∀ id,
        called.2.node? id = if id = node.id then some node else network.node? id) := by
  intro network called
  refine ⟨(built_offerAll earlier).sound, (offerAll_append_singleton earlier node).symm,
    isSome_fst_offer_iff, fun failure => fst_offer_eq_some_iff, isSome_fst_offer_of_reads_self,
    snd_offer_of_refused, ?_⟩
  intro granted id
  obtain ⟨_, _, added⟩ := add_eq_ok_iff.1 (add_eq_ok_of_granted granted)
  rw [show called.2 = _ from added]
  exact node?_insert network node id

end Run

end DecisionNetwork.Network
