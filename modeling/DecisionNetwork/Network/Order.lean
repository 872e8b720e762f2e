import DecisionNetwork.Network.Basic
import DecisionNetwork.SortedMap.Lemmas

/-!
Contract: the nodes of a network with inputs before the nodes that read them.

Owns:
- `Countdown`, for each node the number of its inputs that have not been placed, and the nodes that
  are ready to be placed because there are none left;
- `Countdown.placeAll`, which places the ready node with the smallest identifier and counts down
  the nodes that read it, until no node is ready;
- `sortedIds`, the identifiers in the order in which they are placed.

Every node that is placed takes one from `Countdown.work`, and so does every step down.
-/

namespace DecisionNetwork.Network

variable {α : Type}

/-- For each identifier the nodes that read it, in the order of the nodes. -/
def readers (network : Network α) : SortedMap String (List String) :=
  network.nodeList.foldl
    (fun readers node =>
      node.inputs.toList.foldl
        (fun readers input => readers.insert input ((readers.get? input).getD [] ++ [node.id]))
        readers)
    .empty

/-- How many inputs the nodes wait for, and which nodes are ready. -/
structure Countdown where
  pending : SortedMap String Nat
  ready : SortedSet String

namespace Countdown

/-- The nodes of a network before any of them is placed. -/
def start (network : Network α) : Countdown :=
  let pending : SortedMap String Nat :=
    .ofList (network.nodeList.map fun node => (node.id, SortedMap.size node.inputs))
  ⟨pending, .ofList ((pending.toList.filter fun entry => entry.2 = 0).map Prod.fst)⟩

/-- Takes one from the number of inputs that a node waits for. -/
def release (state : Countdown) (id : String) : Countdown :=
  match state.pending.get? id with
  | some (remaining + 1) =>
    ⟨state.pending.insert id remaining,
      if remaining = 0 then SortedMap.insert state.ready id () else state.ready⟩
  | _ => state

/-- The sum of all numbers in a list of entries. -/
def total : List (String × Nat) → Nat
  | [] => 0
  | entry :: entries => entry.2 + total entries

/-- What is left to do: a step down may make a node ready, so it counts for two. -/
def work (state : Countdown) : Nat :=
  2 * total state.pending.entries + state.ready.entries.length

theorem total_insertEntry {key : String} {old : Nat} {entries : List (String × Nat)}
    (found : SortedMap.lookupEntry key entries = some old) (new : Nat) :
    total (SortedMap.insertEntry key new entries) + old = total entries + new := by
  induction entries with
  | nil => cases found
  | cons head tail inductionHypothesis =>
      unfold SortedMap.lookupEntry at found
      unfold SortedMap.insertEntry
      split at found
      next => cases found
      next same =>
          cases found
          simp only [total]
          omega
      next above =>
          have rest := inductionHypothesis found
          simp only [total]
          omega

theorem length_insertEntry_le (key : String) (entries : List (String × Unit)) :
    (SortedMap.insertEntry key () entries).length ≤ entries.length + 1 := by
  induction entries with
  | nil => exact Nat.le_refl _
  | cons head tail inductionHypothesis =>
      unfold SortedMap.insertEntry
      split
      · exact Nat.le_refl _
      · exact Nat.le_succ _
      · exact Nat.succ_le_succ inductionHypothesis

theorem work_release_le (state : Countdown) (id : String) :
    (state.release id).work ≤ state.work := by
  unfold release
  split
  next remaining found =>
      have counted : total (state.pending.insert id remaining).entries + (remaining + 1) =
          total state.pending.entries + remaining := total_insertEntry found remaining
      have listed := length_insertEntry_le id state.ready.entries
      simp only [work]
      split
      · show 2 * _ + (SortedMap.insertEntry id () state.ready.entries).length ≤ _
        omega
      · omega
  next => exact Nat.le_refl _

theorem work_foldl_release_le (state : Countdown) (ids : List String) :
    (ids.foldl release state).work ≤ state.work := by
  induction ids generalizing state with
  | nil => exact Nat.le_refl _
  | cons id rest inductionHypothesis =>
      exact Nat.le_trans (inductionHypothesis _) (work_release_le state id)

theorem work_pop_lt {state : Countdown} {id : String} {rest : SortedSet String}
    (popped : state.ready.popFirst? = some (id, rest)) :
    work { state with ready := rest } < state.work := by
  unfold SortedSet.popFirst? at popped
  cases entries : state.ready.entries with
  | nil => simp [entries] at popped
  | cons head tail =>
      simp only [entries, List.head?_cons, List.tail_cons, Option.map_some, Option.some.injEq,
        Prod.mk.injEq] at popped
      obtain ⟨_, rfl⟩ := popped
      simp only [work, entries, List.length_cons]
      omega

/-- The nodes in the order in which they are placed. -/
def placeAll (readers : SortedMap String (List String)) (state : Countdown) : List String :=
  match _popped : state.ready.popFirst? with
  | none => []
  | some (id, rest) =>
    id :: placeAll readers (((readers.get? id).getD []).foldl release { state with ready := rest })
termination_by state.work
decreasing_by exact Nat.lt_of_le_of_lt (work_foldl_release_le _ _) (work_pop_lt _popped)

end Countdown

/-- The identifiers, each after those of its inputs. -/
def sortedIds (network : Network α) : List String :=
  (Countdown.start network).placeAll network.readers

end DecisionNetwork.Network
