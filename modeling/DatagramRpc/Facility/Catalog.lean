import DatagramRpc.Facility.Calendar
import DatagramRpc.Facility.Slot

/-!
# Facilities and their catalog

Facilities with their hours, bookings and ratings, and the catalog that holds them all.
-/

namespace DatagramRpc

/-! ## Facilities

A facility has a name, opening hours on some days, bookings in the order they were made, and a
rating. A booking fits the opening hours of its day and conflicts with no other.
-/

structure OpeningHours where
  opens : ClockTime
  closes : ClockTime
  deriving DecidableEq, Repr

structure Booking where
  id : String
  /-- The address of the client who made the booking, as text. -/
  owner : String
  slot : Slot
  deriving DecidableEq, Repr

/-- The ratings so far, as their sum and their number, which is a word of 32 bits. -/
structure Rating where
  sum : Float
  number : UInt32

namespace Rating

def none : Rating := ⟨0.0, 0⟩

def add (r : Rating) (value : Float) : Rating := ⟨r.sum + value, r.number + 1⟩

def count (r : Rating) : Nat := r.number.toNat

/-- The mean of the ratings, zero while there is none. -/
def average (r : Rating) : Float :=
  if r.number = 0 then 0.0 else r.sum / r.number.toFloat

end Rating

structure Facility where
  name : String
  hours : Week (Option OpeningHours)
  bookings : Week (List Booking)
  rating : Rating

namespace Facility

/-- A facility that is never open. -/
def named (name : String) : Facility := ⟨name, .all Option.none, .all [], .none⟩

def setHours (f : Facility) (day : Weekday) (opens closes : ClockTime) : Except Fault Facility :=
  if opens < closes then .ok { f with hours := f.hours.set day (some ⟨opens, closes⟩) }
  else .error (.badRequest (.hoursReversed f.name day opens closes))

/-- Ratings go from 0 to 5. -/
def rate (f : Facility) (value : Float) : Except Fault Facility :=
  if 0.0 ≤ value ∧ value ≤ 5.0 then .ok { f with rating := f.rating.add value }
  else .error (.handler (.ratingOutOfRange value.toBits))

/-- Open at that time and free, but for the booking to be ignored. -/
def isBookable (f : Facility) (slot : Slot) (ignoring : Option String) : Bool :=
  match f.hours.get slot.day with
  | Option.none => false
  | some hours =>
    slot.within hours.opens hours.closes &&
      ((f.bookings.get slot.day).filter fun b => some b.id != ignoring).all fun b =>
        !b.slot.conflicts slot

/-- Adds a booking under a fresh id. -/
def book (f : Facility) (fresh owner : String) (slot : Slot) : Except Fault Facility :=
  if f.isBookable slot Option.none then
    .ok { f with bookings :=
            f.bookings.set slot.day (f.bookings.get slot.day ++ [⟨fresh, owner, slot⟩]) }
  else .error (.handler .facilityTaken)

def booking? (f : Facility) (id : String) : Option Booking :=
  f.bookings.flatten.find? fun b => b.id == id

/-- Whether it is this owner's booking. -/
def holds (id owner : String) (b : Booking) : Bool := b.id == id && b.owner == owner

/-- Removes an owner's booking. -/
def cancel (f : Facility) (id owner : String) : Except Fault (Facility × Booking) :=
  let found := Weekday.all.findSome? fun day =>
    ((f.bookings.get day).find? (holds id owner)).map fun b => (day, b)
  match found with
  | some (day, b) =>
    .ok ({ f with bookings :=
            f.bookings.set day ((f.bookings.get day).eraseP (holds id owner)) }, b)
  | Option.none => .error (.handler .bookingNotFound)

/-- Moves an owner's booking to another slot, under a fresh id, or changes nothing. The old booking
does not stand in the way of the new one. -/
def reschedule (f : Facility) (fresh previous owner : String) (slot : Slot) :
    Except Fault Facility := do
  if !(f.booking? previous).any fun b => b.owner == owner then
    throw (.handler (.bookingNotHeld owner))
  if !f.isBookable slot (some previous) then throw (.handler .facilityTaken)
  let (f, _) ← f.cancel previous owner
  f.book fresh owner slot

/-- The gaps between bookings that are in the order of their starts, from `cursor` until closing. -/
def gaps (day : Weekday) (closes : ClockTime) : ClockTime → List Slot → List Slot
  | cursor, [] => if cursor < closes then [⟨day, cursor, closes⟩] else []
  | cursor, s :: rest =>
    let after := gaps day closes (cursor.later s.finish) rest
    if cursor < s.start then ⟨day, cursor, s.start⟩ :: after else after

/-- What is free on a day, in order. -/
def freeSlots (f : Facility) (day : Weekday) : List Slot :=
  match f.hours.get day with
  | Option.none => []
  | some hours =>
    let booked :=
      ((f.bookings.get day).map (·.slot)).mergeSort fun a b => decide (a.start ≤ b.start)
    gaps day hours.closes hours.opens booked

end Facility

/-! ## The catalog

All facilities, in the order they were added. No two have the same name.
-/

structure Catalog where
  facilities : List Facility

namespace Catalog

def empty : Catalog := ⟨[]⟩

def names (c : Catalog) : List String := c.facilities.map (·.name)

def get? (c : Catalog) (name : String) : Option Facility :=
  c.facilities.find? fun f => f.name == name

def add (c : Catalog) (f : Facility) : Except Fault Catalog :=
  if (c.get? f.name).isSome then .error (.badRequest (.duplicateFacility f.name))
  else .ok ⟨c.facilities ++ [f]⟩

def require (c : Catalog) (name : String) : Except Fault Facility :=
  match c.get? name with
  | some f => .ok f
  | none => .error (.handler .facilityNotFound)

/-- Puts a facility in the place of the one with its name. -/
def replace (c : Catalog) (f : Facility) : Catalog :=
  ⟨c.facilities.map fun g => if g.name = f.name then f else g⟩

/-- The booking with that id, and its facility. -/
def findBooking? (c : Catalog) (id : String) : Option (Facility × Booking) :=
  c.facilities.findSome? fun f => (f.booking? id).map fun b => (f, b)

end Catalog

end DatagramRpc
