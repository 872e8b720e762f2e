import DecisionNetwork.Network.Basic

/-!
Contract: what can be reached along the edges of a network.

Owns:
- `closure`, the identifiers found from a queue along given edges;
- `ancestors`, along edges from a node to its inputs;
- `connectedIds`, along edges in either direction between nodes other than utilities.
-/

namespace DecisionNetwork.Network

variable {α : Type}

/-- The identifiers next to each identifier. -/
abbrev Neighbours := SortedMap String (SortedSet String)

namespace Neighbours

def of (neighbours : Neighbours) (id : String) : List String :=
  match neighbours.get? id with
  | some next => next.toList
  | none => []

/-- Adds an edge from one identifier to another. -/
def addEdge (neighbours : Neighbours) (source target : String) : Neighbours :=
  neighbours.insert source (((neighbours.get? source).getD .empty).insert target ())

/-- Lists an identifier, with no edges yet if it is new. -/
def addId (neighbours : Neighbours) (id : String) : Neighbours := neighbours.insertIfNew id .empty

-- The zero that a sum starts with is the numeral, whatever else is imported.
attribute [local instance (high)] Zero.ofOfNat0

/-- The edges of the listed identifiers that have not been visited. -/
def unfollowed (neighbours : Neighbours) (visited : List String) : Nat :=
  ((neighbours.keys.filter fun id => !visited.contains id).map
    fun id => (neighbours.of id).length).sum

theorem sum_unvisited_le (size : String → Nat) (ids visited : List String) (id : String) :
    ((ids.filter fun other => !(id :: visited).contains other).map size).sum ≤
      ((ids.filter fun other => !visited.contains other).map size).sum := by
  induction ids with
  | nil => exact Nat.le_refl 0
  | cons head tail inductionHypothesis =>
      simp only [List.filter_cons, List.contains_cons, Bool.not_or, Bool.and_eq_true]
      grind

theorem sum_unvisited_add_le (size : String → Nat) {ids visited : List String} {id : String}
    (listed : id ∈ ids) (new : id ∉ visited) :
    ((ids.filter fun other => !(id :: visited).contains other).map size).sum + size id ≤
      ((ids.filter fun other => !visited.contains other).map size).sum := by
  induction ids with
  | nil => cases listed
  | cons head tail inductionHypothesis =>
      have rest := sum_unvisited_le size tail visited id
      rcases List.mem_cons.1 listed with rfl | inTail
      · simp [new] at rest ⊢
        omega
      · have found := inductionHypothesis inTail
        simp only [List.filter_cons, List.contains_cons, Bool.not_or, Bool.and_eq_true] at found ⊢
        grind

end Neighbours

/-- The identifiers visited once the queue has been worked off, the last one first. -/
def closure (neighbours : Neighbours) (visited queue : List String) : List String :=
  match queue with
  | [] => visited
  | current :: rest =>
    if _seen : visited.contains current then closure neighbours visited rest
    else if _listed : neighbours.keys.contains current then
      closure neighbours (current :: visited) (rest ++ neighbours.of current)
    else closure neighbours (current :: visited) rest
-- Edges join the queue when they are followed, which is once.
termination_by neighbours.unfollowed visited + queue.length
decreasing_by
  · simp
  · have fewer := Neighbours.sum_unvisited_add_le (fun id => (neighbours.of id).length)
      (List.contains_iff_mem.1 _listed) (mt List.contains_iff_mem.2 _seen)
    unfold Neighbours.unfollowed
    simp only [List.length_append, List.length_cons]
    omega
  · have noMore := Neighbours.sum_unvisited_le (fun id => (neighbours.of id).length)
      neighbours.keys visited current
    unfold Neighbours.unfollowed
    simp only [List.length_cons]
    omega

/-- The inputs of every node. -/
def inputEdges (network : Network α) : Neighbours := network.nodes.mapValues Node.inputs

/-- The identifiers from which a node can be reached along one or more input edges. -/
def ancestors (network : Network α) (id : String) : Except ModelError (SortedSet String) :=
  match network.node id with
  | .ok node => .ok (.ofList (closure network.inputEdges [] node.inputs.toList))
  | .error failure => .error failure

/-- The inputs of the nodes other than utilities, and the nodes that read them. -/
def undirectedEdges (network : Network α) : Neighbours :=
  (network.nodeList.filter fun node => node.kind ≠ .utility).foldl
    (fun neighbours node =>
      node.inputs.toList.foldl
        (fun neighbours input => (neighbours.addEdge input node.id).addEdge node.id input)
        (neighbours.addId node.id))
    .empty

/-- The identifiers joined to one by a path of any length. -/
def connectedIds (neighbours : Neighbours) (id : String) : List String :=
  closure neighbours [] [id]

end DecisionNetwork.Network
