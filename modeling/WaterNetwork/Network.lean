import Std.Data.HashMap
import WaterNetwork.Builder

/-!
# Networks

The builder that keeps the model in memory: the registered nodes in order, an index from
terminals to identifiers, and the log of every call that succeeded. A call either succeeds or
leaves the network as it was, since its update yields no new network when it fails.
-/

namespace WaterNetwork

deriving instance Hashable for SubIndex
deriving instance Hashable for Terminal

/-- A registered terminal and the values set on it so far. -/
structure NodeRecord where
  id : Ident
  terminal : Terminal
  kind : NodeKind
  cost : Option ConstraintValue := none
  maxFlow : Option ConstraintValue := none
  minFlow : Option ConstraintValue := none

/-- The record with a flow bound set. -/
def NodeRecord.withBound (record : NodeRecord) (value : ConstraintValue) :
    ConstraintRole → NodeRecord
  | .maxFlow => { record with maxFlow := some value }
  | .minFlow => { record with minFlow := some value }

/-- A call that succeeded. -/
inductive BuilderCall where
  | addNode (kind : NodeKind) (terminal : Terminal)
  | setCost (terminal : Terminal) (value : ConstraintValue)
  | setConstraint (terminal : Terminal) (role : ConstraintRole) (value : ConstraintValue)

/-- Nodes in the order of registration, and the calls that made them. -/
structure Network where
  nodes : List NodeRecord := []
  /-- The identifier of every registered terminal. -/
  index : Std.HashMap Terminal Ident := ∅
  calls : List BuilderCall := []
  acceptsLiterals : Bool := true

namespace Network

/-- A network without nodes that takes numbers as they are. -/
def empty : Network := {}

/-- The same network, taking or refusing numbers. -/
def withLiterals (n : Network) (accept : Bool) : Network := { n with acceptsLiterals := accept }

/-! ### Looking up -/

/-- The record of an identifier. -/
def node? (n : Network) (id : Ident) : Option NodeRecord := n.nodes[id.index]?

/-- The record of a terminal. -/
def find? (n : Network) (t : Terminal) : Option NodeRecord := n.index[t]?.bind n.node?

/-- Whether a terminal is registered. -/
def containsNode (n : Network) (t : Terminal) : Bool := n.index.contains t

/-- Whether any terminal of a node is registered. -/
def containsName (n : Network) (name : String) : Bool := n.nodes.any (·.terminal.node == name)

/-! ### Changing -/

/-- A terminal clashes with itself, with the whole node of its name, and, if it stands for a
whole node, with every terminal of that name. -/
def clashes (n : Network) (t : Terminal) : Bool :=
  n.containsNode t || n.containsNode ⟨t.node, none⟩ || (t.sub.isNone && n.containsName t.node)

/-- Register a terminal. -/
def addNode (kind : NodeKind) (t : Terminal) (n : Network) :
    Except NetworkError (Ident × Network) :=
  if n.clashes t then .error (.duplicateNode t)
  else match Ident.ofIndex n.nodes.length with
    | .error source => .error (.capacity t.node source)
    | .ok id => .ok (id, { n with
        nodes := n.nodes ++ [{ id, terminal := t, kind }]
        index := n.index.insert t id
        calls := n.calls ++ [.addNode kind t] })

/-- Change the record of a terminal and log the call. -/
def update (t : Terminal) (change : NodeRecord → NodeRecord) (call : BuilderCall) (n : Network) :
    Except NetworkError (Unit × Network) :=
  match n.index[t]? with
  | none => .error (.nodeNotFound t)
  | some id => .ok ((), { n with
      nodes := n.nodes.modify id.index change
      calls := n.calls ++ [call] })

/-- Set the cost of a terminal. -/
def setCost (t : Terminal) (value : ConstraintValue) :
    Network → Except NetworkError (Unit × Network) :=
  update t (fun r => { r with cost := some value }) (.setCost t value)

/-- Set a flow bound of a terminal. -/
def setConstraint (t : Terminal) (role : ConstraintRole) (value : ConstraintValue) :
    Network → Except NetworkError (Unit × Network) :=
  update t (fun r => r.withBound value role) (.setConstraint t role value)

/-- A network as a builder. -/
def builder : Builder Network where
  addNode kind t := .ofUpdate (addNode kind t)
  setCost t value := .ofUpdate (setCost t value)
  setConstraint t role value := .ofUpdate (setConstraint t role value)
  containsNode := containsNode
  containsName := containsName
  acceptsLiterals := acceptsLiterals

end Network

end WaterNetwork
