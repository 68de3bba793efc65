import DatagramRpc.Fault
import DatagramRpc.Frame.Decode
import DatagramRpc.Text.Pieces

/-!
# Messages

Requests, replies and notifications: the operations that they name and the envelopes that carry
them.
-/

namespace DatagramRpc

/-! ## Operations

What a request asks for. A code that belongs to no operation is kept as it is, and means `none`.
-/

inductive Operation where
  | none | read | write | update | delete | monitor | echo | rating
  deriving DecidableEq, Repr

namespace Operation

def all : List Operation := [none, read, write, update, delete, monitor, echo, rating]

def code : Operation → Int32
  | none => -1
  | read => 0
  | write => 1
  | update => 2
  | delete => 3
  | monitor => 4
  | echo => 5
  | rating => 6

def name : Operation → String
  | none => "NONE"
  | read => "READ"
  | write => "WRITE"
  | update => "UPDATE"
  | delete => "DELETE"
  | monitor => "MONITOR"
  | echo => "ECHO"
  | rating => "RATING"

/-- The operation of a code, `none` for codes of no operation. -/
def ofCode (c : Int32) : Operation := (all.find? fun op => op.code == c).getD none

/-- Operations that may change a monitored resource. -/
def isMutating : Operation → Bool
  | write | update | delete => true
  | none | read | monitor | echo | rating => false

/-- The operation of a name in any case of letters. -/
def ofName (s : String) : Except Fault Operation :=
  match all.find? fun op => Text.sameFolded op.name s with
  | some op => .ok op
  | Option.none => .error (.badRequest (.unknownOperation s))

theorem ofCode_code (op : Operation) : ofCode op.code = op := by cases op <;> decide

end Operation

/-! ## Envelopes

The message of three fields that requests, replies and notifications share. In a frame it is one
node of the only type that both sides know.
-/

structure Envelope where
  /-- The code of the operation as it came, known or not. -/
  code : Int32
  /-- The number by which a reply is matched with its request. -/
  id : Int32
  payload : String
  deriving DecidableEq, Repr

namespace Envelope

def of (op : Operation) (id : Int32) (payload : String) : Envelope := ⟨op.code, id, payload⟩

def operation (e : Envelope) : Operation := .ofCode e.code

/-- An answer, with the same code and number. -/
def reply (e : Envelope) (payload : String) : Envelope := { e with payload }

/-- The envelope as logs show it. -/
def describe (e : Envelope) : String :=
  e.operation.name ++ "#" ++ toString e.id.toInt ++ " " ++ Text.quoted e.payload

def codeField : String := "requestType"
def idField : String := "requestID"
def payloadField : String := "data"

/-- The type of an envelope in a frame. -/
def typeDef : TypeDef where
  name := "Server.RequestMessage"
  fields := [⟨codeField, .int, false⟩, ⟨idField, .int, false⟩, ⟨payloadField, .text, false⟩]

/-- The schema of every datagram. -/
def schema : Schema where
  types := [typeDef]
  distinct := by simp [typeDef, TypeDef.fieldNames, codeField, idField, payloadField]

/-- Adds the envelope to a graph. -/
def store (e : Envelope) (g : ObjectGraph) : Except Fault (ObjectGraph × NodeId) := do
  let (g, id) := g.instantiate typeDef
  let g ← g.set id codeField (.int e.code)
  let g ← g.set id idField (.int e.id)
  let g ← g.set id payloadField (.text (some e.payload))
  return (g, id)

/-- The envelope at a node. An absent payload is the empty text. -/
def load (g : ObjectGraph) (id : NodeId) : Except Fault Envelope := do
  return ⟨← g.int id codeField, ← g.int id idField, (← g.text id payloadField).getD ""⟩

/-- The envelope as a frame. -/
def toFrame (e : Envelope) : Except Fault (List UInt8) := do
  let (g, id) ← e.store .empty
  Frame.encode schema g (some id)

/-- The envelope in a frame. -/
def ofFrame (frame : List UInt8) : Except Fault Envelope := do
  let decoded ← Frame.decode schema frame
  match decoded.root with
  | some id => load decoded.graph id
  | none => throw (.schema (.absentRoot typeDef.name))

end Envelope

end DatagramRpc
