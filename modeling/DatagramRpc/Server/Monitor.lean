import DatagramRpc.Message.Envelope
import DatagramRpc.Net.Address
import DatagramRpc.Server.Time

/-!
# Monitors

Clients subscribe to changes of a resource for some time. Records that have expired stay until the
next sweep but no longer count. A change is announced to every live subscriber in the order of
registration, and a send that fails does not keep the others from going out.
-/

namespace DatagramRpc

/-- A client's subscription to a resource. -/
structure MonitorRecord where
  resource : String
  /-- The number of the request that subscribed; notifications carry it back. -/
  requestId : Int32
  client : Address
  createdAt : Instant
  interval : Span
  deriving DecidableEq, Repr

/-- Expired once more time than the interval has passed. -/
def MonitorRecord.isExpired (r : MonitorRecord) (now : Instant) : Bool :=
  decide (r.interval.nanos < (now.since r.createdAt).nanos)

/-- A frame on its way. -/
structure Datagram where
  receiver : Address
  frame : List UInt8
  deriving DecidableEq, Repr

/-- Whether the `n`-th send of a series succeeds. -/
abbrev Sink := Nat → Datagram → Bool

/-- A send that was tried. -/
structure Attempt where
  datagram : Datagram
  delivered : Bool
  deriving DecidableEq, Repr

/-- What came of announcing a change. -/
structure Publication where
  attempts : List Attempt
  /-- Notifications that could not be written as a frame. -/
  unwritten : Nat
  deriving DecidableEq, Repr

namespace Publication

def none : Publication := ⟨[], 0⟩

def sent (p : Publication) : Nat := (p.attempts.filter (·.delivered)).length

def failed (p : Publication) : Nat := (p.attempts.filter (!·.delivered)).length + p.unwritten

end Publication

/-- All subscriptions, in the order of registration. -/
structure Registry where
  records : List MonitorRecord
  deriving DecidableEq, Repr

namespace Registry

def empty : Registry := ⟨[]⟩

/-- Expired records are counted until they are swept. -/
def size (g : Registry) : Nat := g.records.length

/-- A client may subscribe to the same resource more than once. -/
def register (g : Registry) (r : MonitorRecord) : Registry := ⟨g.records ++ [r]⟩

/-- Drops the expired records. -/
def sweep (g : Registry) (now : Instant) : Registry := ⟨g.records.filter fun r => !r.isExpired now⟩

/-- How many records a sweep drops. -/
def expiredCount (g : Registry) (now : Instant) : Nat :=
  (g.records.filter fun r => r.isExpired now).length

/-- The records that count for a resource. -/
def live (g : Registry) (resource : String) (now : Instant) : List MonitorRecord :=
  g.records.filter fun r => r.resource == resource && !r.isExpired now

/-- The notification for a subscriber. -/
def notice (r : MonitorRecord) (message : String) : Envelope := .of .monitor r.requestId message

/-- Announces a change of a resource to its live subscribers. -/
def publish (g : Registry) (sink : Sink) (now : Instant) (resource message : String) :
    Publication :=
  let frames := (g.live resource now).map fun r => (r.client, (notice r message).toFrame)
  let datagrams := frames.filterMap fun f => f.2.toOption.map fun frame => ⟨f.1, frame⟩
  { attempts := datagrams.zipIdx.map fun d => ⟨d.1, sink d.2 d.1⟩
    unwritten := frames.length - datagrams.length }

end Registry

end DatagramRpc
