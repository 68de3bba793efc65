import DatagramRpc.Graph.ObjectGraph
import DatagramRpc.Wire.Parity
import DatagramRpc.Wire.Writer

/-!
# Writing a graph as a frame

The nodes that are reachable from a root, depth first, each with the names and types of its fields:

* a presence byte, 0 for an absent reference;
* a back-reference byte, 1 and a handle for a node that has begun before;
* else 0, the type name, the number of fields, name and type of each field, and then the values.

A node takes the next handle before its fields are written, so that a field may point back at an
ancestor. The handles of a frame are the places of its nodes in the order of their first visit. The
body is followed by the parity trailer.
-/

namespace DatagramRpc.Frame

open Wire

/-- A reference that points nowhere, and one that points at a node. -/
def absent : UInt8 := 0
def present : UInt8 := 1

/-- A node that begins here, and one that began before. -/
def newNode : UInt8 := 0
def backReference : UInt8 := 1

/-- Writing keeps the nodes that have a handle, in the order of their handles. -/
abbrev Encoder := StateT (List NodeId) (Except Fault)

/-- Writes a reference: the node it points at, or a short form of it. -/
abbrev NodeWriter := Option NodeId → Encoder (List UInt8)

/-- Writes a value of a declared type. The writers are those for references inside the value, one
for each further level of nesting; an array and a reference each go one level deeper. -/
def encodeValue : FieldType → List NodeWriter → Value → Encoder (List UInt8)
  | _, _, .bool v => return [if v then 1 else 0]
  | _, _, .byte v => return [v.toUInt8]
  | _, _, .int v => return putInt v
  | _, _, .long v => return putLong v
  | _, _, .double bits => return putDouble bits
  | _, _, .text none => return [absent]
  | _, _, .text (some s) => return present :: (← putText s)
  | _, _, .absentArray => return putInt (-1)
  | .array element, below, .array items => do
    if greatestLength < items.length then throw (.framing .arrayTooLong)
    return putCount items.length ++ (← items.mapM (encodeValue element below.tail)).flatten
  | t, _, .array _ => throw (.schema (.arrayDeclaredAs t))
  | _, write :: _, .ref target => write target
  | _, [], .ref _ => throw (.framing (.nestedTooDeep nestingLimit))

/-- The name and the declared type of a field. -/
def encodeFieldMeta (f : FieldDef) : Except Fault (List UInt8) := do
  return (← putText f.name) ++ (← putText f.type.wireName)

/-- The value that a node holds for a declared field, at the place where the field is declared. -/
def slotValue (t : TypeDef) (n : Node) (f : FieldDef × Nat) : Except Fault Value :=
  match n.fields[f.2]? with
  | some (name, v) =>
    if name = f.1.name ∧ v.conformsTo f.1.type then .ok v
    else .error (.schema (.fieldMismatch t.name f.1.name f.1.type))
  | none => .error (.schema (.fieldMismatch t.name f.1.name f.1.type))

/-- A node that begins here: type, fields and values. -/
def encodeNewNode (s : Schema) (below : List NodeWriter) (n : Node) : Encoder (List UInt8) := do
  let t ← s.resolve n.typeName
  if n.fields.length ≠ t.fields.length then
    throw (.schema (.nodeFieldCount t.name n.fields.length t.fields.length))
  let name ← putText t.name
  let metadata ← t.persisted.mapM fun f => encodeFieldMeta f.1
  let values ← t.persisted.mapM fun f => do
    encodeValue f.1.type below (← slotValue t n f)
  return name ++ putCount t.persistedCount ++ metadata.flatten ++ values.flatten

/-- A reference, at the level above the given writers. -/
def encodeRef (s : Schema) (g : ObjectGraph) (below : List NodeWriter) : NodeWriter
  | none => return [absent]
  | some id => do
    let seen ← get
    match seen.idxOf? id with
    | some handle => return present :: backReference :: putCount handle
    | none =>
      if greatestLength < seen.length then throw (.framing .tooManyNodes)
      set (seen ++ [id])
      return present :: newNode :: (← encodeNewNode s below (← g.node id))

/-- The writers for `n` levels of nesting, outermost first. -/
def nodeWriters (s : Schema) (g : ObjectGraph) : Nat → List NodeWriter
  | 0 => []
  | n + 1 => encodeRef s g (nodeWriters s g n) :: nodeWriters s g n

/-- The body of a frame. -/
def encodeBody (s : Schema) (g : ObjectGraph) (root : Option NodeId) : Except Fault (List UInt8) :=
  (encodeRef s g (nodeWriters s g nestingLimit) root).run' []

/-- The frame of what is reachable from the root. -/
def encode (s : Schema) (g : ObjectGraph) (root : Option NodeId) : Except Fault (List UInt8) := do
  return withTrailer (← encodeBody s g root)

end DatagramRpc.Frame
