import DatagramRpc.Fault
import DatagramRpc.Net.Address

/-!
# The network of one host

Sockets and the datagrams that wait at them. A datagram arrives whole, behind those that came before
it, and waits to be received; one that goes to an address without a socket is lost. While the
interface is down, no host can be reached. Only what goes to the address of any host, which stands
for the host itself, is still accepted, and then it is lost.
-/

namespace DatagramRpc

/-- A datagram at its receiver. -/
structure Parcel where
  source : Address
  bytes : List UInt8
  deriving DecidableEq, Repr

/-- What a receiver with a buffer of some size gets of it. -/
def Parcel.cut (p : Parcel) (bufferSize : Nat) : Parcel :=
  { p with bytes := p.bytes.take bufferSize }

structure Socket where
  address : Address
  waiting : List Parcel
  deriving DecidableEq, Repr

structure Network where
  isUp : Bool
  sockets : List Socket
  deriving DecidableEq, Repr

namespace Network

/-- The most bytes a datagram can carry. -/
def greatestPayload : Nat := 65507

/-- The most bytes that are looked at before the way to the receiver is. -/
def greatestLength : Nat := 65535

/-- The loopback host. -/
def loopback : Host := .v4 127 0 0 1

/-- Any host, as an address to listen on. -/
def anyHost : Host := .v4 0 0 0 0

/-- The hosts that sockets can be bound to. A host whose interface is down has no address of version
4 to tell from others, and refuses none. -/
def canBind (n : Network) : Host → Bool
  | .v4 a b c d => !n.isUp || a = 127 || .v4 a b c d = anyHost
  | .v6 groups _ =>
    groups.toList = [0, 0, 0, 0, 0, 0, 0, 0] || (n.isUp && groups.toList = [0, 0, 0, 0, 0, 0, 0, 1])

/-- Whether two sockets cannot have these addresses at the same time. -/
def collide (a b : Address) : Bool :=
  a.port == b.port && (a.host == b.host || a.host == anyHost || b.host == anyHost)

/-- The least port from some point on that no socket has. -/
def freePort (n : Network) : Nat → UInt16 → UInt16
  | 0, port => port
  | fuel + 1, port =>
    if n.sockets.any fun s => s.address.port == port then freePort n fuel (port + 1) else port

/-- Opens a socket. The port zero stands for one that is free. -/
def bind (n : Network) (a : Address) : Except Fault (Network × Address) :=
  let a := if a.port = 0 then { a with port := n.freePort n.sockets.length 32768 } else a
  if !n.canBind a.host then .error (.io (.system .addressNotAvailable))
  else if n.sockets.any fun s => collide s.address a then .error (.io (.system .addressInUse))
  else .ok ({ n with sockets := n.sockets ++ [⟨a, []⟩] }, a)

/-- Whether so many bytes can be sent to a host. -/
def checkSend (n : Network) (receiver : Host) (length : Nat) : Except Fault Unit :=
  if greatestLength < length then .error (.io (.system .messageTooLong))
  else if !n.isUp && receiver ≠ anyHost then .error (.io (.system .networkUnreachable))
  else if greatestPayload < length then .error (.io (.system .messageTooLong))
  else .ok ()

/-- Replaces what waits at an address. -/
def setWaiting (n : Network) (a : Address) (f : List Parcel → List Parcel) : Network :=
  { n with sockets :=
      n.sockets.map fun s => if s.address = a then { s with waiting := f s.waiting } else s }

/-- Sends a datagram. -/
def send (n : Network) (source receiver : Address) (bytes : List UInt8) : Except Fault Network := do
  n.checkSend receiver.host bytes.length
  return if n.isUp then n.setWaiting receiver (· ++ [⟨source, bytes⟩]) else n

/-- What waits at an address. -/
def waiting (n : Network) (a : Address) : List Parcel :=
  ((n.sockets.find? fun s => s.address == a).map (·.waiting)).getD []

end Network

/-- A network with a party on it that has a state. -/
structure Exchange (ρ : Type) where
  network : Network
  party : ρ

namespace Exchange

variable {ρ : Type}

/-- Sends some datagrams. Those that cannot be sent are given up. -/
def sendAll (network : Network) (source : Address) (out : List (Address × List UInt8)) : Network :=
  out.foldl (fun n d => (n.send source d.1 d.2).toOption.getD n) network

/-- The party handles everything that waits at its address, in order. -/
def settle (address : Address)
    (process : Network → ρ → Parcel → ρ × List (Address × List UInt8)) (x : Exchange ρ) :
    Exchange ρ :=
  let start := { x with network := x.network.setWaiting address fun _ => [] }
  (x.network.waiting address).foldl (fun x p =>
    let (party, out) := process x.network x.party p
    ⟨sendAll x.network address out, party⟩) start

end Exchange

end DatagramRpc
