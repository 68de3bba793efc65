/-!
# Field types and their names

The types that a field or an array element can be declared with. A frame names them: primitives by a
word, composite types by their own name, and arrays by a descriptor, in which each level of nesting
is one opening bracket.
-/

namespace DatagramRpc

/-- How deep references and arrays may be nested in a frame. -/
def nestingLimit : Nat := 128

/-- The declared type of a field or of an array element. -/
inductive FieldType where
  | bool
  | byte
  | int
  | long
  | double
  | text
  | array (element : FieldType)
  /-- A reference to a node of the named composite type. -/
  | object (typeName : String)
  deriving DecidableEq, Repr

namespace FieldType

/-- The name of the text type in a frame. -/
def textName : String := "java.lang.String"

/-- Primitive values are written without a presence flag. -/
def isPrimitive : FieldType → Bool
  | bool | byte | int | long | double => true
  | text | array _ | object _ => false

/-- The name of a type inside an array descriptor. -/
def descriptor : FieldType → String
  | bool => "Z"
  | byte => "B"
  | int => "I"
  | long => "J"
  | double => "D"
  | text => "L" ++ textName ++ ";"
  | object name => "L" ++ name ++ ";"
  | array element => "[" ++ element.descriptor

/-- The name of a type in the metadata of a frame. -/
def wireName : FieldType → String
  | bool => "boolean"
  | byte => "byte"
  | int => "int"
  | long => "long"
  | double => "double"
  | text => textName
  | object name => name
  | array element => (array element).descriptor

/-- The type inside all arrays. -/
def leaf : FieldType → FieldType
  | array element => element.leaf
  | t => t

/-- How many arrays are around the leaf. -/
def nesting : FieldType → Nat
  | array element => element.nesting + 1
  | _ => 0

/-- The type `t` inside `n` arrays. -/
def nested (t : FieldType) : Nat → FieldType
  | 0 => t
  | n + 1 => array (nested t n)

theorem nested_leaf (t : FieldType) : nested t.leaf t.nesting = t := by
  induction t with
  | array element ih => simp [leaf, nesting, nested, ih]
  | _ => rfl

end FieldType

end DatagramRpc
