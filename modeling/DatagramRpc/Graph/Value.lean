import DatagramRpc.Double.Text
import DatagramRpc.Graph.FieldType
import DatagramRpc.Text.Quoted

/-!
# Values of fields

What a field or an array element can hold. Text, arrays and references may be absent; doubles are
kept as their bits, so that two values are equal only if they are the same bit for bit.
-/

namespace DatagramRpc

/-- The place of a node in its graph. It is the identity of the node. -/
structure NodeId where
  index : Nat
  deriving DecidableEq, Repr

/-- The value of a field or of an array element. -/
inductive Value where
  | bool (v : Bool)
  | byte (v : Int8)
  | int (v : Int32)
  | long (v : Int64)
  | double (bits : UInt64)
  | text (v : Option String)
  | absentArray
  | array (items : List Value)
  | ref (target : Option NodeId)
  deriving Repr

/-- The sorts of values that a field cannot change between. -/
inductive ValueSort where
  | bool | byte | int | long | double | text | array | ref
  deriving DecidableEq, Repr

namespace Value

def sort : Value → ValueSort
  | bool _ => .bool
  | byte _ => .byte
  | int _ => .int
  | long _ => .long
  | double _ => .double
  | text _ => .text
  | absentArray | array _ => .array
  | ref _ => .ref

/-- What a field of the given type holds at first: zero, or nothing. -/
def zero : FieldType → Value
  | .bool => bool false
  | .byte => byte 0
  | .int => int 0
  | .long => long 0
  | .double => double Double.zeroBits
  | .text => text none
  | .array _ => absentArray
  | .object _ => ref none

/-- Whether a value has the shape of a type, array elements included. A reference fits every object
type, whatever it points at. -/
def conformsTo (v : Value) : FieldType → Bool
  | .bool => v.sort == .bool
  | .byte => v.sort == .byte
  | .int => v.sort == .int
  | .long => v.sort == .long
  | .double => v.sort == .double
  | .text => v.sort == .text
  | .object _ => v.sort == .ref
  | .array element =>
    match v with
    | absentArray => true
    | array items => items.all fun item => item.conformsTo element
    | _ => false

theorem conformsTo_zero (t : FieldType) : (zero t).conformsTo t = true := by
  cases t <;> rfl

def asBool : Value → Option Bool
  | bool v => some v
  | _ => none

def asInt : Value → Option Int32
  | int v => some v
  | _ => none

def asLong : Value → Option Int64
  | long v => some v
  | _ => none

def asDouble : Value → Option UInt64
  | double bits => some bits
  | _ => none

/-- The text of a text value, which may be absent. -/
def asText : Value → Option (Option String)
  | text v => some v
  | _ => none

/-- The target of a reference, which may be absent. -/
def asRef : Value → Option (Option NodeId)
  | ref target => some target
  | _ => none

/-- The items of an array, which may be absent. -/
def asArray : Value → Option (Option (List Value))
  | absentArray => some none
  | array items => some (some items)
  | _ => none

/-- An optional part of a described value. -/
def describeOption : Option String → String
  | none => "None"
  | some s => "Some(" ++ s ++ ")"

/-- The value as messages show it. -/
def describe : Value → String
  | bool v => "Bool(" ++ toString v ++ ")"
  | byte v => "Byte(" ++ toString v.toInt ++ ")"
  | int v => "Int(" ++ toString v.toInt ++ ")"
  | long v => "Long(" ++ toString v.toInt ++ ")"
  | double bits => "Double(" ++ Double.tagged bits ++ ")"
  | text v => "Str(" ++ describeOption (v.map Text.quoted) ++ ")"
  | absentArray => "Array(None)"
  | array items => "Array(Some([" ++ ", ".intercalate (items.map describe) ++ "]))"
  | ref target =>
    "Ref(" ++ describeOption (target.map fun id => "NodeId(" ++ toString id.index ++ ")") ++ ")"

end Value

end DatagramRpc
