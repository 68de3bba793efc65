import DatagramRpc.Metrics.Counter
import DatagramRpc.Metrics.Histogram

/-!
# The metrics of a server

One counter for each kind of event, and the time that requests take.
-/

namespace DatagramRpc.Metrics

/-- The events that are counted. -/
inductive Event where
  | requests | replays | decodeErrors | handlerErrors | notifications | simulatedDrops
  deriving DecidableEq, Repr

namespace Event

def name : Event → String
  | requests => "requests"
  | replays => "replays"
  | decodeErrors => "decode_errors"
  | handlerErrors => "handler_errors"
  | notifications => "notifications"
  | simulatedDrops => "simulated_drops"

/-- All events, in the order in which their counters are shown. -/
def all : List Event :=
  [requests, replays, decodeErrors, handlerErrors, notifications, simulatedDrops]

theorem mem_all (e : Event) : e ∈ all := by cases e <;> decide

theorem name_injective {a b : Event} (h : a.name = b.name) : a = b := by
  cases a <;> cases b <;> first | rfl | exact absurd h (by decide)

end Event

/-- Everything a server counts. -/
structure Rpc where
  requests : Counter
  replays : Counter
  decodeErrors : Counter
  handlerErrors : Counter
  notifications : Counter
  simulatedDrops : Counter
  dispatchDuration : Histogram
  deriving DecidableEq, Repr

namespace Rpc

def empty : Rpc := ⟨.empty, .empty, .empty, .empty, .empty, .empty, .empty⟩

def counter (m : Rpc) : Event → Counter
  | .requests => m.requests
  | .replays => m.replays
  | .decodeErrors => m.decodeErrors
  | .handlerErrors => m.handlerErrors
  | .notifications => m.notifications
  | .simulatedDrops => m.simulatedDrops

/-- Counts so many events. -/
def add (m : Rpc) (e : Event) (labels : Labels) (n : UInt64) : Rpc :=
  match e with
  | .requests => { m with requests := m.requests.add labels n }
  | .replays => { m with replays := m.replays.add labels n }
  | .decodeErrors => { m with decodeErrors := m.decodeErrors.add labels n }
  | .handlerErrors => { m with handlerErrors := m.handlerErrors.add labels n }
  | .notifications => { m with notifications := m.notifications.add labels n }
  | .simulatedDrops => { m with simulatedDrops := m.simulatedDrops.add labels n }

/-- Counts one event. -/
def count (m : Rpc) (e : Event) (labels : Labels) : Rpc := m.add e labels 1

def observe (m : Rpc) (labels : Labels) (d : Span) : Rpc :=
  { m with dispatchDuration := m.dispatchDuration.observe labels d }

@[simp] theorem counter_add (m : Rpc) (e f : Event) (labels : Labels) (n : UInt64) :
    (m.add e labels n).counter f = if f = e then (m.counter f).add labels n else m.counter f := by
  cases e <;> cases f <;> rfl

@[simp] theorem dispatchDuration_add (m : Rpc) (e : Event) (labels : Labels) (n : UInt64) :
    (m.add e labels n).dispatchDuration = m.dispatchDuration := by
  cases e <;> rfl

@[simp] theorem counter_observe (m : Rpc) (e : Event) (labels : Labels) (d : Span) :
    (m.observe labels d).counter e = m.counter e := by
  cases e <;> rfl

/-- The sections of all metrics, one after another. -/
def entries (m : Rpc) : List String :=
  (Event.all.flatMap fun e => (m.counter e).render ("udprpc_" ++ e.name ++ "_total")) ++
    m.dispatchDuration.render "udprpc_dispatch_duration_micros"

/-- All metrics as text. -/
def render (m : Rpc) : String := String.join (m.entries.map (· ++ "\n"))

end Rpc

end DatagramRpc.Metrics
