import DatagramRpc.Facility.Calendar
import DatagramRpc.Graph.Value
import DatagramRpc.Text.Utf8

/-!
# Faults

Everything that can go wrong, by kind and cause. A fault has one stable code, that of its kind, and
one message. In each kind `stated` carries a cause in the words of whoever raised it, such as a
handler that is not part of this library.
-/

namespace DatagramRpc

/-- Byte streams that are cut off or malformed. -/
inductive FramingCause where
  | textTooLong (bytes : Nat)
  | truncated (what : String) (needed left : Nat)
  | negativeTextLength (length : Int32)
  | notUtf8 (fault : Text.Utf8Fault)
  | emptyFrame
  | trailingBytes (count : Nat)
  | nestedTooDeep (limit : Nat)
  | tooManyNodes
  | arrayTooLong
  | presenceFlag (flag : UInt8)
  | backReferenceFlag (flag : UInt8)
  | textPresenceFlag (flag : UInt8)
  | unknownHandle (handle : Int32)
  | negativeFieldCount (count : Int32)
  | arrayLength (length : Int32)
  | arrayBeyondFrame (length left : Nat)
  | stated (text : String)
  deriving DecidableEq, Repr

namespace FramingCause

def message : FramingCause → String
  | textTooLong n => s!"string of {n} bytes is too long"
  | truncated what n left => s!"truncated frame: {what} needs {n} bytes, {left} left"
  | negativeTextLength n => s!"negative string length {n.toInt}"
  | notUtf8 fault => s!"string is not utf-8: {fault.message}"
  | emptyFrame => "empty frame"
  | trailingBytes n => s!"{n} trailing bytes after root node"
  | nestedTooDeep limit => s!"nesting deeper than {limit}"
  | tooManyNodes => "too many nodes in one frame"
  | arrayTooLong => "array too long"
  | presenceFlag b => s!"bad presence flag {b.toNat}"
  | backReferenceFlag b => s!"bad back-reference flag {b.toNat}"
  | textPresenceFlag b => s!"bad string presence flag {b.toNat}"
  | unknownHandle h => s!"unknown handle {h.toInt}"
  | negativeFieldCount n => s!"negative field count {n.toInt}"
  | arrayLength n => s!"bad array length {n.toInt}"
  | arrayBeyondFrame n left => s!"array of {n} elements exceeds remaining {left} bytes"
  | stated text => text

end FramingCause

/-- Types and fields that the two sides do not agree on, or that do not exist. -/
inductive SchemaCause where
  | emptyTypeName
  | malformedDescriptor (name : String)
  | descriptorTooDeep (limit : Nat)
  | fieldDeclaredTwice (typeName field : String)
  | unknownType (typeName : String)
  | noField (typeName field : String)
  | cannotHold (typeName field : String) (value : Value)
  | notAnInt (field : String)
  | notText (field : String)
  | notAReference (field : String)
  /-- A node that has another number of fields than its type. -/
  | nodeFieldCount (typeName : String) (held declared : Nat)
  | fieldMismatch (typeName field : String) (declared : FieldType)
  | arrayDeclaredAs (declared : FieldType)
  /-- A frame that carries another number of fields than the receiver expects. -/
  | frameFieldCount (typeName : String) (carried expected : Nat)
  | fieldRepeated (typeName field : String)
  | fieldTypeDiffers (typeName field : String) (sent expected : FieldType)
  | absentRoot (expected : String)
  | stated (text : String)
  deriving Repr

namespace SchemaCause

def message : SchemaCause → String
  | emptyTypeName => "empty type name"
  | malformedDescriptor s => s!"malformed array type descriptor: {s}"
  | descriptorTooDeep limit => s!"array type nested deeper than {limit}"
  | fieldDeclaredTwice t f => s!"type {t} declares field {f} twice"
  | unknownType t => s!"unknown type: {t}"
  | noField t f => s!"type {t} has no field {f}"
  | cannotHold t f v => s!"field {t}.{f} cannot hold {v.describe}"
  | notAnInt f => s!"field {f} is not an int"
  | notText f => s!"field {f} is not a string"
  | notAReference f => s!"field {f} is not a reference"
  | nodeFieldCount t held declared =>
    s!"node of type {t} has {held} fields, schema declares {declared}"
  | fieldMismatch t f declared =>
    s!"field {t}.{f} does not match its declared type {declared.wireName}"
  | arrayDeclaredAs declared => s!"array value declared as {declared.wireName}"
  | frameFieldCount t carried expected =>
    s!"type {t}: frame carries {carried} fields, receiver expects {expected}"
  | fieldRepeated t f => s!"type {t}: field {f} repeated"
  | fieldTypeDiffers t f sent expected =>
    s!"type {t}: field {f} is {sent.wireName} on the wire, {expected.wireName} here"
  | absentRoot expected => s!"expected {expected}, frame holds null"
  | stated text => text

end SchemaCause

/-- Requests that a handler refuses. -/
inductive HandlerCause where
  | invalidDay (text : String)
  | invalidTime (hour minute : Nat)
  | emptySlot (start finish : ClockTime)
  | ratingOutOfRange (bits : UInt64)
  | facilityTaken
  | bookingNotFound
  | bookingNotHeld (owner : String)
  | facilityNotFound
  | monitorUnknownFacility
  | requestFormat
  | updateType
  | invalidRating (text : String)
  | invalidNumber (text : String)
  | invalidInterval (text : String)
  | unknownOperation
  | stated (text : String)
  deriving DecidableEq, Repr

namespace HandlerCause

def message : HandlerCause → String
  | invalidDay s => s!"Invalid day: {s}"
  | invalidTime h m => s!"Invalid time {Text.padded 2 h}:{Text.padded 2 m}"
  | emptySlot a b => s!"Invalid time slot {a.render} - {b.render}: start must be before end"
  | ratingOutOfRange bits => s!"Rating must be between 0 and 5, got {Double.plain bits}"
  | facilityTaken => "Facility not available at the requested time"
  | bookingNotFound => "Booking not found"
  | bookingNotHeld owner => s!"Booking not successful or booking by {owner} is not found"
  | facilityNotFound => "Facility not found"
  | monitorUnknownFacility => "Invalid facilityName provided"
  | requestFormat => "Invalid request format"
  | updateType => "Invalid update type"
  | invalidRating s => s!"Invalid rating: {s}"
  | invalidNumber s => s!"Invalid number: {s}"
  | invalidInterval s => s!"Invalid monitor interval: {s}"
  | unknownOperation => "Unknown operation"
  | stated text => text

end HandlerCause

/-- Input from outside the wire format that cannot be used: configuration and names. -/
inductive InputCause where
  | unknownOperation (name : String)
  | invalidClock (text : String)
  | hoursReversed (facility : String) (day : Weekday) (opens closes : ClockTime)
  | duplicateFacility (name : String)
  | configVersion (version : Nat)
  | configSyntax
  | listenAddress (text : String)
  | datagramSize
  | dropRate
  | delayOrder
  | facilityRepeated (name : String)
  | facilityName (name : String)
  | closesBeforeOpening (facility : String) (day : Weekday)
  | dayRepeated (facility : String) (day : Weekday)
  | stated (text : String)
  deriving DecidableEq, Repr

namespace InputCause

def message : InputCause → String
  | unknownOperation name => s!"unknown operation: {name}"
  | invalidClock s => s!"invalid time {Text.quoted s}, expected HH:MM"
  | hoursReversed f day a b =>
    s!"facility {f}: {day.name} opens at {a.render} but closes at {b.render}"
  | duplicateFacility name => s!"duplicate facility {name}"
  | configVersion v => s!"unsupported config version {v}"
  | configSyntax => "invalid yaml"
  | listenAddress s =>
    s!"server.listen {Text.quoted s} is not a socket address: invalid socket address syntax"
  | datagramSize => "server.max_datagram_bytes must be between 64 and 65507"
  | dropRate => "simulation.drop_rate must be between 0.0 and 1.0"
  | delayOrder => "simulation.min_delay_ms must not exceed max_delay_ms"
  | facilityRepeated name => s!"facilities: duplicate name {name}"
  | facilityName name => s!"facilities: invalid name {Text.quoted name}"
  | closesBeforeOpening f day => s!"facility {f}: {day.name} closes before it opens"
  | dayRepeated f day => s!"facility {f}: {day.name} listed twice"
  | stated text => text

end InputCause

/-- Conditions that the operating system reports, with its numbers for them. -/
inductive SystemError where
  | notFound
  | isDirectory
  | nameTooLong
  | nulInName
  | messageTooLong
  | addressInUse
  | addressNotAvailable
  | networkUnreachable
  | notUtf8
  deriving DecidableEq, Repr

namespace SystemError

def message : SystemError → String
  | notFound => "No such file or directory (os error 2)"
  | isDirectory => "Is a directory (os error 21)"
  | nameTooLong => "File name too long (os error 36)"
  | nulInName => "file name contained an unexpected NUL byte"
  | messageTooLong => "Message too long (os error 90)"
  | addressInUse => "Address already in use (os error 98)"
  | addressNotAvailable => "Cannot assign requested address (os error 99)"
  | networkUnreachable => "Network is unreachable (os error 101)"
  | notUtf8 => "stream did not contain valid UTF-8"

end SystemError

/-- Sockets and files that fail. -/
inductive IoCause where
  | system (error : SystemError)
  | noReply (attempts : Nat)
  | stated (text : String)
  deriving DecidableEq, Repr

namespace IoCause

def message : IoCause → String
  | system e => e.message
  | noReply n => s!"request failed after {n} attempts"
  | stated text => text

end IoCause

/-- What should not happen, and the configuration file that cannot be read. -/
inductive InternalCause where
  | danglingNode (id : NodeId)
  | configUnreadable (path : String) (error : SystemError)
  | stated (text : String)
  deriving DecidableEq, Repr

namespace InternalCause

def message : InternalCause → String
  | danglingNode id => s!"dangling node id {id.index}"
  | configUnreadable path e => s!"read config {path} failed: {e.message}"
  | stated text => text

end InternalCause

/-- The kinds of faults. -/
inductive FaultKind where
  | framing | integrity | schema | handler | badRequest | io | internal
  deriving DecidableEq, Repr

/-- The stable code of a kind, in logs, counters and answers. -/
def FaultKind.code : FaultKind → String
  | framing => "FRAMING_ERROR"
  | integrity => "INTEGRITY_ERROR"
  | schema => "SCHEMA_ERROR"
  | handler => "HANDLER_ERROR"
  | badRequest => "BAD_REQUEST"
  | io => "IO_ERROR"
  | internal => "INTERNAL"

theorem FaultKind.code_injective {a b : FaultKind} (h : a.code = b.code) : a = b := by
  cases a <;> cases b <;> first | rfl | exact absurd h (by decide)

/-- What went wrong. -/
inductive Fault where
  | framing (cause : FramingCause)
  /-- The parity that the body has, and the trailer that came with it. -/
  | integrity (computed received : UInt8)
  | schema (cause : SchemaCause)
  | handler (cause : HandlerCause)
  | badRequest (cause : InputCause)
  | io (cause : IoCause)
  | internal (cause : InternalCause)
  deriving Repr

namespace Fault

def kind : Fault → FaultKind
  | framing _ => .framing
  | integrity .. => .integrity
  | schema _ => .schema
  | handler _ => .handler
  | badRequest _ => .badRequest
  | io _ => .io
  | internal _ => .internal

/-- The faults of a datagram that is no envelope. -/
def isDecodeError (f : Fault) : Bool :=
  match f.kind with
  | .framing | .integrity | .schema => true
  | .handler | .badRequest | .io | .internal => false

/-- The whole message. The causes that a handler gives stand alone. -/
def message : Fault → String
  | framing cause => "framing error: " ++ cause.message
  | integrity computed received =>
    "integrity error: parity trailer 0x" ++ Text.hexByte received ++ ", computed 0x" ++
      Text.hexByte computed
  | schema cause => "schema error: " ++ cause.message
  | handler cause => cause.message
  | badRequest cause => "bad request: " ++ cause.message
  | io cause => "io: " ++ cause.message
  | internal cause => "internal: " ++ cause.message

end Fault

end DatagramRpc
