import DatagramRpc.Facility.Service
import DatagramRpc.Net.Network
import DatagramRpc.Server.Dispatch
import DatagramRpc.Simulation.Disturbance

/-!
# Servers that run

A server is built from its settings, or refused with the first rule that they break. Then it works
at a socket, where datagrams may be lost and answers may fail to be sent.
-/

namespace DatagramRpc.Server

/-! ## Starting a server -/

/-- A server around a handler. -/
def ofSettings {σ : Type} (s : Config.Settings) (handler : σ) : Except Fault (Server σ) := do
  s.check
  return .start s.semantics s.maxEntries handler

/-- A server of the booking service. Its facilities are built before the other settings are looked
at, so what keeps them from being built is reported first. -/
def ofBookings (s : Config.Settings) : Except Fault (Server BookingService) := do
  ofSettings s (← BookingService.ofSettings s.facilities)

end DatagramRpc.Server

namespace DatagramRpc

/-! ## A server at its socket

A server receives datagrams into a buffer of a fixed size, loses some of them if faults are
simulated, and answers the others one by one. Answers and notifications that cannot be sent are
given up.
-/

structure Station (σ : Type) where
  address : Address
  bufferSize : Nat
  server : Server σ
  disturbance : Disturbance

namespace Station

variable {σ : Type}

/-- Binds a server to its address. -/
def bind (n : Network) (s : Config.Settings) (server : Server σ) (g : Generator) :
    Except Fault (Exchange (Station σ)) := do
  let (network, address) ← n.bind (← s.listenAddress)
  return ⟨network, ⟨address, s.maxDatagramBytes, server, .of s.simulation g⟩⟩

/-- Counts a datagram that is lost on purpose. -/
def countDrop (s : Station σ) : Station σ :=
  { s with server.metrics := s.server.metrics.count .simulatedDrops [] }

/-- Decides whether a datagram is lost, and if not, how long it is delayed. -/
def roll (s : Station σ) : Option Span × Station σ :=
  let (lost, disturbance) := s.disturbance.rollDrop
  if lost then (none, { s with disturbance }.countDrop)
  else
    let (delay, disturbance) := disturbance.rollDelay
    (some delay, { s with disturbance })

/-- Handles a datagram, with all that is sent because of it: first the notifications, then the
answer. -/
def handle (h : Handler σ) (t : Readings) (n : Network) (s : Station σ) (p : Parcel) :
    Station σ × List (Address × List UInt8) :=
  let sink : Sink := fun _ d => (n.checkSend d.receiver.host d.frame.length).isOk
  let (server, publication, reply) :=
    s.server.handleDatagram h sink t p.source (p.cut s.bufferSize).bytes
  let notices := publication.attempts.map fun a => (a.datagram.receiver, a.datagram.frame)
  ({ s with server }, notices ++ (reply.toOption.map fun frame => (p.source, frame)).toList)

/-- What comes of a datagram. -/
def process (h : Handler σ) (t : Readings) (n : Network) (s : Station σ) (p : Parcel) :
    Station σ × List (Address × List UInt8) :=
  match s.roll with
  | (none, s) => (s, [])
  | (some _, s) => s.handle h t n p

/-- The server handles everything that was sent to it. -/
def serve (h : Handler σ) (t : Readings) (x : Exchange (Station σ)) : Exchange (Station σ) :=
  x.settle x.party.address (process h t)

end Station

end DatagramRpc
