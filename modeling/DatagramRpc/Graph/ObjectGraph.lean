import DatagramRpc.Graph.Schema

/-!
# Object graphs

Nodes refer to each other by their place in the graph, so that two nodes with equal fields are still
two nodes, and a field may point back at an ancestor. A field keeps its name and its sort of value.
-/

namespace DatagramRpc

/-- One instance of a composite type: the fields with their values, in declaration order. -/
structure Node where
  typeName : String
  fields : List (String × Value)
  deriving Repr

namespace Node

/-- The value of the first field of that name. -/
def get? (n : Node) (field : String) : Option Value :=
  (n.fields.find? fun f => f.1 == field).map (·.2)

/-- Overwrites the first field of that name. -/
def putFirst (field : String) (v : Value) : List (String × Value) → List (String × Value)
  | [] => []
  | f :: fs => if f.1 = field then (f.1, v) :: fs else f :: putFirst field v fs

def put (n : Node) (field : String) (v : Value) : Node :=
  { n with fields := putFirst field v n.fields }

/-- Overwrites a field, which must exist and keep its sort of value. -/
def set (n : Node) (field : String) (v : Value) : Except Fault Node :=
  match n.get? field with
  | none => .error (.schema (.noField n.typeName field))
  | some old =>
    if old.sort = v.sort then .ok (n.put field v)
    else .error (.schema (.cannotHold n.typeName field v))

/-- A new instance: every field is zero. -/
def ofType (t : TypeDef) : Node where
  typeName := t.name
  fields := t.fields.map fun f => (f.name, Value.zero f.type)

end Node

structure ObjectGraph where
  nodes : Array Node
  deriving Repr

namespace ObjectGraph

def empty : ObjectGraph := ⟨#[]⟩

def size (g : ObjectGraph) : Nat := g.nodes.size

def get? (g : ObjectGraph) (id : NodeId) : Option Node := g.nodes[id.index]?

/-- Adds a new instance of a type. -/
def instantiate (g : ObjectGraph) (t : TypeDef) : ObjectGraph × NodeId :=
  let id : NodeId := ⟨g.nodes.size⟩
  (⟨g.nodes.push (Node.ofType t)⟩, id)

def node (g : ObjectGraph) (id : NodeId) : Except Fault Node :=
  match g.get? id with
  | some n => .ok n
  | none => .error (.internal (.danglingNode id))

def field (g : ObjectGraph) (id : NodeId) (name : String) : Except Fault Value := do
  let n ← g.node id
  match n.get? name with
  | some v => return v
  | none => throw (.schema (.noField n.typeName name))

/-- Overwrites a node; one that is not in the graph is left out. -/
def put (g : ObjectGraph) (id : NodeId) (n : Node) : ObjectGraph :=
  ⟨g.nodes.setIfInBounds id.index n⟩

/-- The node with a field overwritten. -/
def nodeWith (g : ObjectGraph) (id : NodeId) (name : String) (v : Value) : Except Fault Node := do
  (← g.node id).set name v

/-- Overwrites a field of a node. -/
def set (g : ObjectGraph) (id : NodeId) (name : String) (v : Value) : Except Fault ObjectGraph := do
  return g.put id (← g.nodeWith id name v)

def int (g : ObjectGraph) (id : NodeId) (name : String) : Except Fault Int32 := do
  match (← g.field id name).asInt with
  | some v => return v
  | none => throw (.schema (.notAnInt name))

def text (g : ObjectGraph) (id : NodeId) (name : String) : Except Fault (Option String) := do
  match (← g.field id name).asText with
  | some v => return v
  | none => throw (.schema (.notText name))

def reference (g : ObjectGraph) (id : NodeId) (name : String) : Except Fault (Option NodeId) := do
  match (← g.field id name).asRef with
  | some v => return v
  | none => throw (.schema (.notAReference name))

@[simp] theorem size_put (g : ObjectGraph) (id : NodeId) (n : Node) :
    (g.put id n).size = g.size := by
  simp [put, size]

@[simp] theorem size_instantiate (g : ObjectGraph) (t : TypeDef) :
    (g.instantiate t).1.size = g.size + 1 := by
  simp [instantiate, size]

end ObjectGraph

end DatagramRpc
