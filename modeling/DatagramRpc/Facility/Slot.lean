import DatagramRpc.Fault
import DatagramRpc.Text.Pieces

/-!
# Slots

Days and times as requests and configuration write them, and slots: half-open intervals on one day.
-/

namespace DatagramRpc

/-- The day of a name in any case of letters, blanks around it apart. -/
def Weekday.ofName (s : String) : Except Fault Weekday :=
  let s := Text.trim s
  match Weekday.all.find? fun d => Text.sameFolded d.name s with
  | some d => .ok d
  | none => .error (.handler (.invalidDay s))

/-- A time from an hour and a minute that may be out of range. -/
def ClockTime.of (hour minute : Nat) : Except Fault ClockTime :=
  if h : hour < 24 ∧ minute < 60 then .ok ⟨⟨hour, h.1⟩, ⟨minute, h.2⟩⟩
  else .error (.handler (.invalidTime hour minute))

/-- A time with a colon, as configuration writes it. -/
def ClockTime.ofText (s : String) : Except Fault ClockTime :=
  let time : Option ClockTime := do
    let (h, m) ← Text.cutOnce ':' (Text.trim s)
    let hour ← Text.readUnsigned (Text.greatestUnsigned 32) h
    let minute ← Text.readUnsigned (Text.greatestUnsigned 32) m
    (ClockTime.of hour minute).toOption
  match time with
  | some t => .ok t
  | none => .error (.badRequest (.invalidClock s))

/-- The times from `start` up to but not including `finish`, on one day. -/
structure Slot where
  day : Weekday
  start : ClockTime
  finish : ClockTime
  deriving DecidableEq, Repr

namespace Slot

/-- A slot that holds at least one minute. -/
def of (day : Weekday) (start finish : ClockTime) : Except Fault Slot :=
  if start < finish then .ok ⟨day, start, finish⟩
  else .error (.handler (.emptySlot start finish))

/-- Two slots of a day overlap unless one ends before or when the other starts. -/
def conflicts (a b : Slot) : Bool :=
  a.day == b.day && !(decide (a.finish ≤ b.start) || decide (b.finish ≤ a.start))

/-- The whole slot lies between two times. -/
def within (a : Slot) (opens closes : ClockTime) : Bool :=
  decide (opens ≤ a.start) && decide (a.finish ≤ closes)

def render (a : Slot) : String := a.start.render ++ " - " ++ a.finish.render

end Slot

end DatagramRpc
