import DatagramRpc.Facility.Slot
import DatagramRpc.Net.Address
import DatagramRpc.Text.Pieces

/-!
# What a server is configured with

The semantics of invocations, all other settings with their defaults, and the rules that settings
have to keep.
-/

namespace DatagramRpc

/-! ## Invocation semantics

What a server does with a request that it sees again.
-/

inductive Semantics where
  /-- Answers a request that is seen again from memory. -/
  | atMostOnce
  /-- Executes every request, also one that is seen again. -/
  | atLeastOnce
  deriving DecidableEq, Repr

namespace Semantics

def default : Semantics := .atMostOnce

def name : Semantics → String
  | atMostOnce => "at-most-once"
  | atLeastOnce => "at-least-once"

def all : List Semantics := [atMostOnce, atLeastOnce]

/-- The semantics of exactly that name. -/
def ofName (s : String) : Option Semantics := all.find? fun x => x.name == s

/-- The semantics of a command line flag, or what the command line says of an unknown one. -/
def ofFlag (s : String) (anyCase : Bool) : Except String Semantics :=
  match all.find? fun x => x.name == s || (anyCase && Text.sameFolded x.name s) with
  | some x => .ok x
  | none => .error ("invalid variant: " ++ s)

end Semantics

end DatagramRpc

namespace DatagramRpc.Config

/-! ## Settings

All that a server is configured with, and the values that hold where nothing is said.
-/

/-- The opening hours of one day, as they are written. -/
structure Opening where
  day : Weekday
  start : String
  finish : String
  deriving DecidableEq, Repr

structure FacilitySettings where
  name : String
  opening : List Opening
  deriving DecidableEq, Repr

/-- Faults to be simulated: the share of datagrams to lose, and delays in milliseconds. -/
structure Simulation where
  dropRate : Float
  minDelay : Nat
  maxDelay : Nat

structure Settings where
  version : Nat
  /-- The address to listen on, as it is written. -/
  listen : String
  maxDatagramBytes : Nat
  semantics : Semantics
  /-- The most requests to remember, zero for no bound. -/
  maxEntries : Nat
  simulation : Simulation
  facilities : List FacilitySettings

/-- The same hours on several days. -/
def openOn (days : List Weekday) (start finish : String) : List Opening :=
  days.map fun day => ⟨day, start, finish⟩

def defaultFacilities : List FacilitySettings := [
  ⟨"Weekday1", openOn [.monday, .tuesday, .wednesday] "08:00" "17:00"⟩,
  ⟨"Weekday2", openOn [.wednesday, .thursday, .friday] "08:30" "23:30"⟩,
  ⟨"Weekends", openOn [.saturday, .sunday] "09:00" "18:00"⟩]

def Simulation.default : Simulation := ⟨0.0, 0, 0⟩

def Settings.default : Settings where
  version := 1
  listen := "0.0.0.0:6789"
  maxDatagramBytes := 1024
  semantics := .default
  maxEntries := 0
  simulation := .default
  facilities := defaultFacilities

/-- The times of an opening. -/
def Opening.times (o : Opening) : Except Fault (ClockTime × ClockTime) := do
  return (← ClockTime.ofText o.start, ← ClockTime.ofText o.finish)

/-- Openings that end after they start, each on a day of its own; `seen` are the days before. -/
def checkOpenings (facility : String) : List Weekday → List Opening → Except Fault Unit
  | _, [] => .ok ()
  | seen, o :: rest => do
    let (start, finish) ← o.times
    if finish ≤ start then throw (.badRequest (.closesBeforeOpening facility o.day))
    if o.day ∈ seen then throw (.badRequest (.dayRepeated facility o.day))
    checkOpenings facility (o.day :: seen) rest

/-- A facility's name is not empty and can stand between commas. -/
def FacilitySettings.check (f : FacilitySettings) : Except Fault Unit := do
  if f.name.isEmpty || f.name.toList.contains ',' then
    throw (.badRequest (.facilityName f.name))
  checkOpenings f.name [] f.opening

/-- Facilities that are right one by one, each with a name of its own; `seen` are the names
before. -/
def checkFacilities : List String → List FacilitySettings → Except Fault Unit
  | _, [] => .ok ()
  | seen, f :: rest => do
    f.check
    if f.name ∈ seen then throw (.badRequest (.facilityRepeated f.name))
    checkFacilities (f.name :: seen) rest

def Simulation.check (s : Simulation) : Except Fault Unit := do
  if ¬ (0.0 ≤ s.dropRate ∧ s.dropRate ≤ 1.0) then throw (.badRequest .dropRate)
  if s.maxDelay < s.minDelay then throw (.badRequest .delayOrder)

namespace Settings

def listenAddress (s : Settings) : Except Fault Address :=
  match Address.ofText s.listen with
  | some a => .ok a
  | none => .error (.badRequest (.listenAddress s.listen))

/-- The least and greatest size of a receive buffer. -/
def leastDatagram : Nat := 64
def greatestDatagram : Nat := 65507

/-- All rules, in the order in which they are reported. -/
def check (s : Settings) : Except Fault Unit := do
  if s.version ≠ 1 then throw (.badRequest (.configVersion s.version))
  let _ ← s.listenAddress
  if s.maxDatagramBytes < leastDatagram ∨ greatestDatagram < s.maxDatagramBytes then
    throw (.badRequest .datagramSize)
  s.simulation.check
  checkFacilities [] s.facilities

end Settings

end DatagramRpc.Config
