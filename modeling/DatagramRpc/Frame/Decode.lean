import DatagramRpc.Frame.Encode
import DatagramRpc.Graph.Schema
import DatagramRpc.Wire.Reader

/-!
# Reading a frame

The graph that a frame describes. Every type and field must be known to the receiver with the same
declared type; the fields of a node may come in any order. A new node is in the graph before its
fields are read, so that a handle can stand for it from then on: handle `k` is node `k`.
-/

namespace DatagramRpc.Frame

open Wire

/-- What is left of the body, and the nodes so far. -/
structure DecodeState where
  input : List UInt8
  graph : ObjectGraph

abbrev Decoder := EStateM Fault DecodeState

namespace Decoder

/-- Reads from the input alone. -/
def read {α : Type} (r : Reader α) : Decoder α := fun st =>
  match r st.input with
  | .ok a rest => .ok a { st with input := rest }
  | .error e rest => .error e { st with input := rest }

/-- Does what can fail without touching the state. -/
def lift {α : Type} (x : Except Fault α) : Decoder α := fun st =>
  match x with
  | .ok a => .ok a st
  | .error e => .error e st

/-- The results of `n` runs. -/
def times {α : Type} (n : Nat) (d : Decoder α) : Decoder (List α) :=
  (List.replicate n ()).mapM fun _ => d

/-- Refuses if fewer than `n` bytes are left; the cause is told how many there are. -/
def demand (n : Nat) (short : Nat → FramingCause) : Decoder Unit := fun st =>
  if (st.input.take n).length < n then .error (.framing (short st.input.length)) st
  else .ok () st

/-- Adds a node to the graph. -/
def instantiate (t : TypeDef) : Decoder NodeId := fun st =>
  let (graph, id) := st.graph.instantiate t
  .ok id { st with graph }

/-- Fills in a field of a node. -/
def setField (id : NodeId) (name : String) (v : Value) : Decoder Unit := fun st =>
  match st.graph.nodeWith id name v with
  | .ok n => .ok () { st with graph := st.graph.put id n }
  | .error e => .error e st

/-- The node that a handle stands for. -/
def ofHandle (handle : Int32) : Decoder NodeId := fun st =>
  if 0 ≤ handle.toInt ∧ handle.toInt < st.graph.size then .ok ⟨handle.toInt.toNat⟩ st
  else .error (.framing (.unknownHandle handle)) st

end Decoder

open Decoder

/-- Reads a reference and, if it begins here, the node it points at. -/
abbrev NodeReader := Decoder (Option NodeId)

/-- Reads a value of a declared type, with readers for the references inside it. An array must not
announce more elements than there are bytes left. -/
def decodeValue : FieldType → List NodeReader → Decoder Value
  | .bool, _ => return .bool ((← read getByte) != 0)
  | .byte, _ => return .byte (← read getByte).toInt8
  | .int, _ => return .int (← read getInt)
  | .long, _ => return .long (← read getLong)
  | .double, _ => return .double (← read getDouble)
  | .text, _ => do
    let flag ← read getByte
    if flag = absent then return .text none
    else if flag = present then return .text (some (← read getText))
    else throw (.framing (.textPresenceFlag flag))
  | .array element, below => do
    let n ← read getInt
    if n = -1 then return .absentArray
    if n < 0 then throw (.framing (.arrayLength n))
    let count := n.toInt.toNat
    demand count (.arrayBeyondFrame count)
    return .array (← times count (decodeValue element below.tail))
  | .object _, readRef :: _ => return .ref (← readRef)
  | .object _, [] => throw (.framing (.nestedTooDeep nestingLimit))

/-- A declared field of the receiver, by its place, that the frame lists under this name and
type. -/
def matchField (t : TypeDef) (seen : List Nat) (name : String) (sent : FieldType) :
    Except Fault (FieldDef × Nat) :=
  match t.persisted.find? fun f => f.1.name == name with
  | none => .error (.schema (.noField t.name name))
  | some f =>
    if f.2 ∈ seen then .error (.schema (.fieldRepeated t.name name))
    else if sent ≠ f.1.type then .error (.schema (.fieldTypeDiffers t.name name sent f.1.type))
    else .ok f

/-- The fields that a frame lists for a node; `seen` are the places of the fields listed before. -/
def decodeLayout (t : TypeDef) : Nat → List Nat → Decoder (List (FieldDef × Nat))
  | 0, _ => return []
  | n + 1, seen => do
    let name ← read getText
    let sent ← lift (FieldType.ofWireName (← read getText))
    let f ← lift (matchField t seen name sent)
    return f :: (← decodeLayout t n (f.2 :: seen))

/-- A node that begins here. -/
def decodeNewNode (s : Schema) (below : List NodeReader) : Decoder NodeId := do
  let t ← lift (s.resolve (← read getText))
  let id ← instantiate t
  let count ← read (getLength .negativeFieldCount)
  if count ≠ t.persistedCount then
    throw (.schema (.frameFieldCount t.name count t.persistedCount))
  let layout ← decodeLayout t count []
  layout.forM fun f => do
    setField id f.1.name (← decodeValue f.1.type below)
  return id

/-- A reference, at the level above the given readers. -/
def decodeRef (s : Schema) (below : List NodeReader) : NodeReader := do
  let flag ← read getByte
  if flag = absent then return none
  if flag ≠ present then throw (.framing (.presenceFlag flag))
  let flag ← read getByte
  if flag = backReference then return some (← ofHandle (← read getInt))
  if flag ≠ newNode then throw (.framing (.backReferenceFlag flag))
  return some (← decodeNewNode s below)

/-- The readers for `n` levels of nesting, outermost first. -/
def nodeReaders (s : Schema) : Nat → List NodeReader
  | 0 => []
  | n + 1 => decodeRef s (nodeReaders s n) :: nodeReaders s n

/-- A graph and where it begins. -/
structure Rooted where
  graph : ObjectGraph
  root : Option NodeId
  deriving Repr

/-- What a body describes; nothing may follow it. -/
def decodeBody (s : Schema) (body : List UInt8) : Except Fault Rooted :=
  match decodeRef s (nodeReaders s nestingLimit) ⟨body, .empty⟩ with
  | .error e _ => .error e
  | .ok root st =>
    if st.input.isEmpty then .ok ⟨st.graph, root⟩
    else .error (.framing (.trailingBytes st.input.length))

/-- What a frame describes. -/
def decode (s : Schema) (frame : List UInt8) : Except Fault Rooted := do
  decodeBody s (← checkTrailer frame)

end DatagramRpc.Frame
