import DecisionNetwork.Error
import DecisionNetwork.Network.Node

/-!
Contract: networks of chance, action and utility nodes.

Owns:
- `Network`, nodes in the order of their identifiers;
- `addNode`, the call that adds a node to a network. It refuses an identifier that is taken and
  inputs that are not there yet, so that inputs come before the nodes that read them and no node
  depends on itself;
- `add`, the network that the call leaves if it is granted.

A network is told by its nodes. It has no identity beside them, and calls are not logged.
-/

namespace DecisionNetwork

structure Network (α : Type) where
  nodes : SortedMap String (Node α)

namespace Network

variable {α : Type}

def empty : Network α := ⟨.empty⟩

def contains (network : Network α) (id : String) : Bool := network.nodes.contains id

/-- Adds a node to the network that it is called on. Of several missing inputs the first one is
named. -/
def addNode (node : Node α) : ExceptT ModelError (StateM (Network α)) Unit := do
  let network ← get
  if network.contains node.id then
    throw (.duplicateNode node.id)
  if let some missing := node.inputs.toList.find? fun input => !network.contains input then
    throw (.unknownInput node.id missing)
  set (Network.mk (network.nodes.insert node.id node))

/-- The network with one more node. -/
def add (network : Network α) (node : Node α) : Except ModelError (Network α) :=
  match (addNode node).run.run network with
  | (.ok (), next) => .ok next
  | (.error failure, _) => .error failure

def node? (network : Network α) (id : String) : Option (Node α) := network.nodes.get? id

def node (network : Network α) (id : String) : Except ModelError (Node α) :=
  match network.node? id with
  | some node => .ok node
  | none => .error (.unknownNode id)

def chanceNode? (network : Network α) (id : String) : Option (ChanceNode α) :=
  match network.node? id with
  | some (.chance node) => some node
  | _ => none

/-- The nodes in the order of their identifiers. -/
def nodeList (network : Network α) : List (Node α) := network.nodes.values

def ids (network : Network α) : List String := network.nodes.keys

def chanceNodes (network : Network α) : List (ChanceNode α) :=
  network.nodeList.filterMap fun node =>
    match node with
    | .chance node => some node
    | _ => none

def actionNodes (network : Network α) : List ActionNode :=
  network.nodeList.filterMap fun node =>
    match node with
    | .action node => some node
    | _ => none

def utilityNodes (network : Network α) : List (UtilityNode α) :=
  network.nodeList.filterMap fun node =>
    match node with
    | .utility node => some node
    | _ => none

def size (network : Network α) : Nat := network.nodes.size

def isEmpty (network : Network α) : Bool := network.nodes.isEmpty

end Network

end DecisionNetwork
