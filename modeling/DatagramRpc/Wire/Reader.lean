import DatagramRpc.Wire.Writer

/-!
# Reading values from bytes

A reader takes bytes from the front of what is left. It also says what is left after a failure: a
value of fixed width that is cut off consumes nothing, and a text that fails has consumed its
length, and its body too when the body is there but is not UTF-8.
-/

namespace DatagramRpc.Wire

/-- Reads from the bytes that are left. -/
abbrev Reader := EStateM Fault (List UInt8)

/-- Exactly `n` bytes. -/
def take (n : Nat) (what : String) : Reader (List UInt8) := fun input =>
  let (body, rest) := input.splitAt n
  if body.length < n then .error (.framing (.truncated what n input.length)) input
  else .ok body rest

def getByte : Reader UInt8 := fun input =>
  match input with
  | [] => .error (.framing (.truncated "byte" 1 0)) input
  | b :: rest => .ok b rest

def getInt : Reader Int32 := do
  return (UInt32.ofNat (ofBigEndian (← take 4 "i32"))).toInt32

def getLong : Reader Int64 := do
  return (UInt64.ofNat (ofBigEndian (← take 8 "i64"))).toInt64

def getDouble : Reader UInt64 := do
  return UInt64.ofNat (ofBigEndian (← take 8 "i64"))

/-- A length or count: a number of 32 bits that must not be negative. -/
def getLength (fault : Int32 → FramingCause) : Reader Nat := do
  let n ← getInt
  if n < 0 then throw (.framing (fault n))
  return n.toInt.toNat

def getText : Reader String := do
  let n ← getLength .negativeTextLength
  let body ← take n "string body"
  match Text.decodeUtf8 body with
  | .ok s => return s
  | .error fault => throw (.framing (.notUtf8 fault))

/-- The kinds of items. -/
inductive ItemKind where
  | byte | int | long | double | text
  deriving DecidableEq, Repr

def Item.kind : Item → ItemKind
  | byte _ => .byte
  | int _ => .int
  | long _ => .long
  | double _ => .double
  | text _ => .text

def getItem : ItemKind → Reader Item
  | .byte => Item.byte <$> getByte
  | .int => Item.int <$> getInt
  | .long => Item.long <$> getLong
  | .double => Item.double <$> getDouble
  | .text => Item.text <$> getText

/-- Reads items of some kinds, each with the number of bytes that are left. After a failure, reading
goes on from where it then is. -/
def getItems : List ItemKind → List UInt8 → List (Except Fault Item × Nat)
  | [], _ => []
  | k :: ks, input =>
    match getItem k input with
    | .ok v rest => (.ok v, rest.length) :: getItems ks rest
    | .error e rest => (.error e, rest.length) :: getItems ks rest

end DatagramRpc.Wire
