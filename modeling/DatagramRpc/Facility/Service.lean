import DatagramRpc.Config.Settings
import DatagramRpc.Double.Numeral
import DatagramRpc.Facility.Catalog
import DatagramRpc.Server.Dispatch
import DatagramRpc.Simulation.Generator
import DatagramRpc.Text.Numeral

/-!
# Booking service

The handler of a server that takes bookings, with the supply of their ids.
-/

namespace DatagramRpc

/-! ## Booking ids

Bookings get their ids from a supply. The usual ids are random numbers of 128 bits in hexadecimal,
with dashes between five groups of digits and marks for their kind in the third and fourth group.
They have 36 characters.
-/

/-- The `n`-th booking id to be given out. -/
abbrev IdSupply := Nat → String

namespace IdSupply

/-- The last so many hexadecimal digits of a number. -/
def digits (count n : Nat) : String :=
  String.ofList ((List.range count).reverse.map fun i => Nat.digitChar (n / Nat.pow 16 i % 16))

/-- The id of a number: the digit 4 begins the third group, and one of 8, 9, a and b the fourth. -/
def written (high low : UInt64) : String :=
  let h := high.toNat
  let l := low.toNat
  digits 8 (h / Nat.pow 16 8) ++ "-" ++ digits 4 (h / Nat.pow 16 4) ++ "-4" ++ digits 3 h ++ "-" ++
    digits 1 (8 + l / Nat.pow 2 60 % 4) ++ digits 3 (l / Nat.pow 16 12) ++ "-" ++ digits 12 l

/-- Random ids. -/
def random (high low : Generator) : IdSupply := fun n =>
  written (high.skip n).next.1 (low.skip n).next.1

end IdSupply

/-! ## The booking service

The handler behind the server: requests are words between commas, and answers are lines. Booking ids
come from a supply; the service counts how many it has used.
-/

/-- The facilities, and the number of ids used so far. -/
structure BookingService where
  catalog : Catalog
  issued : Nat

namespace BookingService

def words (payload : String) : List String := (Text.pieces ',' payload).map Text.trim

def requestFormat : Fault := .handler .requestFormat

def numberOf (s : String) : Except Fault Nat :=
  match Text.readUnsigned (Text.greatestUnsigned 32) s with
  | some n => .ok n
  | none => .error (.handler (.invalidNumber s))

/-- The slot of a request: the day, and the hour and minute of start and end. -/
def slotOf (day startHour startMinute endHour endMinute : String) : Except Fault Slot := do
  let day ← Weekday.ofName day
  let start ← ClockTime.of (← numberOf startHour) (← numberOf startMinute)
  let finish ← ClockTime.of (← numberOf endHour) (← numberOf endMinute)
  Slot.of day start finish

/-- The free slots of a day as a line, and no line when there are none. -/
def dayListing (f : Facility) (day : Weekday) : String :=
  match f.freeSlots day with
  | [] => ""
  | free => day.name ++ ":" ++ String.join (free.map fun s => s.render ++ ",") ++ "\n"

/-- The days that a request names, all when it names none, in the order of the week. -/
def selected (days : List Weekday) : List Weekday :=
  Weekday.all.filter fun d => days.isEmpty || days.contains d

/-- What is free at a facility. -/
def availability (c : Catalog) (name : String) (days : List Weekday) : Except Fault String := do
  let f ← c.require name
  return "status:SUCCESS\nfacility:" ++ f.name ++ "\navailableTimeslots:\n" ++
    String.join ((selected days).map (dayListing f))

/-- The lines of a slot that has been booked. -/
def slotLines (s : Slot) : String :=
  "\nday:" ++ s.day.name ++ "\nstartTime:" ++ s.start.render ++ "\nendTime:" ++ s.finish.render

def read (c : Catalog) : List String → Except Fault Outcome
  | ["facility", "ALL"] =>
    .ok (.plain ("status:SUCCESS\nfacilityNames:" ++ String.join (c.names.map (· ++ ","))))
  | "facility" :: name :: days => do
    return .plain (← availability c name (← days.mapM Weekday.ofName))
  | ["booking", id] =>
    match c.findBooking? id with
    | none => .error (.handler .bookingNotFound)
    | some (f, b) =>
      .ok (.plain ("status:SUCCESS\nbookingID:" ++ b.id ++ "\nuser:" ++ b.owner ++ "\nfacility:" ++
        f.name ++ slotLines b.slot ++ "\n"))
  | ["rating", name] => do
    let f ← c.require name
    return .plain ("status:SUCCESS\nfacility:" ++ f.name ++ "\nrating:" ++
      Double.fixed 1 f.rating.average.toBits)
  | _ => .error requestFormat

variable (supply : IdSupply)

def book (s : BookingService) (owner : String) :
    List String → Except Fault (Outcome × BookingService)
  | [name, day, sh, sm, eh, em] => do
    let slot ← slotOf day sh sm eh em
    let f ← s.catalog.require name
    let id := supply s.issued
    let f ← f.book id owner slot
    return (⟨"status:SUCCESS\nbookingID:" ++ id ++ "\nuser:" ++ owner ++ "\nfacility:" ++ name ++
      slotLines slot, some name⟩, ⟨s.catalog.replace f, s.issued + 1⟩)
  | _ => .error requestFormat

def move (s : BookingService) (owner previous name : String) (slot : Slot) :
    Except Fault (Outcome × BookingService) := do
  let f ← s.catalog.require name
  let id := supply s.issued
  let f ← f.reschedule id previous owner slot
  return (⟨"status:SUCCESS\noldBookingID:" ++ previous ++ "\nnewBookingID:" ++ id ++ "\nuser:" ++
    owner ++ "\nfacility:" ++ name ++ slotLines slot ++ "\n", some name⟩,
    ⟨s.catalog.replace f, s.issued + 1⟩)

def rate (s : BookingService) (owner name value : String) :
    Except Fault (Outcome × BookingService) := do
  match Double.readNumeral value with
  | none => throw (.handler (.invalidRating value))
  | some bits =>
    let f ← s.catalog.require name
    let f ← f.rate (Float.ofBits bits)
    return (.plain ("status:SUCCESS\nuser:" ++ owner ++ "\nfacility:" ++ name ++ "\nrating:" ++
      Double.fixed 1 bits), { s with catalog := s.catalog.replace f })

def update (s : BookingService) (owner : String) :
    List String → Except Fault (Outcome × BookingService)
  | ["booking", previous, name, day, sh, sm, eh, em] => do
    s.move supply owner previous name (← slotOf day sh sm eh em)
  | ["rating", name, value] => s.rate owner name value
  | "booking" :: _ => .error requestFormat
  | "rating" :: _ => .error requestFormat
  | _ => .error (.handler .updateType)

def cancel (s : BookingService) (owner : String) :
    List String → Except Fault (Outcome × BookingService)
  | [id, name] => do
    let f ← s.catalog.require name
    let (f, removed) ← f.cancel id owner
    return (⟨"status:SUCCESS\nbookingID:" ++ removed.id ++ "\nuser:" ++ owner, some name⟩,
      { s with catalog := s.catalog.replace f })
  | _ => .error requestFormat

/-- The subscription that a request asks for, with the answer. -/
def subscribe (c : Catalog) (call : Call) (request : Envelope) :
    List String → Except Fault (Outcome × MonitorRecord)
  | ["register", name, secs] =>
    match Text.readUnsigned (Text.greatestUnsigned 64) secs with
    | none => .error (.handler (.invalidInterval secs))
    | some n =>
      if (c.get? name).isNone then .error (.handler .monitorUnknownFacility)
      else .ok (.plain ("status:SUCCESS\nfacility:" ++ name ++ "\ninterval:" ++ toString n),
        ⟨name, request.id, call.client, call.now, .ofSeconds n⟩)
  | _ => .error requestFormat

/-- The facilities of some settings. -/
def ofSettings (facilities : List Config.FacilitySettings) : Except Fault BookingService := do
  let catalog ← facilities.foldlM (fun c settings => do
    let f ← settings.opening.foldlM (fun f o => do
      let (opens, closes) ← o.times
      f.setHours o.day opens closes) (Facility.named settings.name)
    c.add f) Catalog.empty
  return ⟨catalog, 0⟩

/-- Keeps the state when a request fails. -/
def commit (s : BookingService) (monitors : Registry)
    (r : Except Fault (Outcome × BookingService)) :
    Except Fault Outcome × BookingService × Registry :=
  match r with
  | .ok (outcome, s) => (.ok outcome, s, monitors)
  | .error f => (.error f, s, monitors)

/-- Executes a request. -/
def handle (call : Call) (request : Envelope) (state : BookingService × Registry) :
    Except Fault Outcome × BookingService × Registry :=
  let (s, monitors) := state
  let owner := call.client.render
  let args := words request.payload
  match request.operation with
  | .read => (read s.catalog args, s, monitors)
  | .write => commit s monitors (s.book supply owner args)
  | .update => commit s monitors (s.update supply owner args)
  | .rating =>
    match args with
    | [name, value] => commit s monitors (s.rate owner name value)
    | _ => (.error requestFormat, s, monitors)
  | .delete => commit s monitors (s.cancel owner args)
  | .monitor =>
    match subscribe s.catalog call request args with
    | .ok (outcome, r) => (.ok outcome, s, monitors.register r)
    | .error f => (.error f, s, monitors)
  | .none | .echo => (.error (.handler .unknownOperation), s, monitors)

/-- The booking service as a handler. -/
def handler : Handler BookingService where
  handle := handle supply
  snapshot s resource := availability s.catalog resource []

end BookingService

end DatagramRpc
