import DatagramRpc.Command
import DatagramRpc.Config.Load
import DatagramRpc.Server.Station
import Std.Async.Timer
import Std.Async.UDP

/-!
# The program

Carries out the command of the command line on real sockets. The settings of a server come from
standard input; where it is empty, they are the defaults.
-/

namespace DatagramRpc.Main

open Std.Async

def toSocketAddress (a : Address) : Std.Net.SocketAddress :=
  match a.host with
  | .v4 w x y z => .v4 ⟨⟨#v[w, x, y, z]⟩, a.port⟩
  | .v6 groups _ => .v6 ⟨⟨groups⟩, a.port⟩

def ofSocketAddress : Std.Net.SocketAddress → Address
  | .v4 ⟨⟨octets⟩, port⟩ => ⟨.v4 octets[0] octets[1] octets[2] octets[3], port⟩
  | .v6 ⟨⟨segments⟩, port⟩ => ⟨.v6 segments 0, port⟩

def clock : IO Instant := return ⟨← IO.monoNanosNow⟩

def generator : IO Generator := return .seeded (UInt64.ofNat (← IO.rand 0 (UInt64.size - 1)))

/-- A fault as an error of the program. -/
def orFail {α : Type} : Except Fault α → IO α
  | .ok a => pure a
  | .error f => throw (IO.userError (f.kind.code ++ ": " ++ f.message))

/-- The host's network, on which the system itself finds out what cannot be sent. -/
def network : Network := ⟨true, []⟩

def sendTo (socket : UDP.Socket) (receiver : Address) (frame : List UInt8) : IO Unit :=
  (socket.send ⟨frame.toArray⟩ (some (toSocketAddress receiver))).block

partial def readAll (input : IO.FS.Stream) (before : ByteArray) : IO ByteArray := do
  let more ← input.read 65536
  if more.isEmpty then return before
  readAll input (before ++ more)

/-! ## Serving -/

partial def serveOn (socket : UDP.Socket) (h : Handler BookingService)
    (station : Station BookingService) : IO Unit := do
  let (bytes, source) ← (socket.recv (UInt64.ofNat station.bufferSize)).block
  let some source := source | serveOn socket h station
  match station.roll with
  | (none, station) => serveOn socket h station
  | (some delay, station) =>
    IO.sleep (UInt32.ofNat (delay.nanos / 1000000))
    let parcel : Parcel := ⟨ofSocketAddress source, bytes.toList⟩
    let (station, out) := station.handle h (.at (← clock)) network parcel
    for (receiver, frame) in out do
      try sendTo socket receiver frame
      catch e => IO.eprintln ("send to " ++ receiver.render ++ " failed: " ++ toString e)
    serveOn socket h station

def serve (options : ServeOptions) : IO Unit := do
  let content ← readAll (← IO.getStdin) .empty
  let file : Config.Reading := if content.isEmpty then .error .notFound else .ok content.toList
  let s ← orFail (Config.loadFileOrDefault "standard input" file)
  let s := { s with
    semantics := options.semantics.getD s.semantics
    listen := options.listen.getD s.listen }
  let server ← orFail (Server.ofBookings s)
  let address ← orFail s.listenAddress
  let socket ← UDP.Socket.mk
  socket.bind (toSocketAddress address)
  let h := BookingService.handler (.random (← generator) (← generator))
  serveOn socket h ⟨address, s.maxDatagramBytes, server, .of s.simulation (← generator)⟩

/-! ## Calling -/

/-- Passes on the datagrams that come before a moment, until `use` gives something. -/
partial def receiveBefore {α : Type} (socket : UDP.Socket) (client : Client) (moment : Instant)
    (use : Parcel → IO (Option α)) : IO (Option α) := do
  let left := (moment.since (← clock)).nanos / 1000000
  if left = 0 then return none
  let size := UInt64.ofNat client.options.bufferSize
  let event : Async (Option (ByteArray × Option Std.Net.SocketAddress)) := do
    Selectable.one #[
      .case (socket.recvSelector size) fun d => return some d,
      .case (← Selector.sleep (.ofNat left)) fun _ => return none]
  match ← event.block with
  | none => return none
  | some (bytes, source) =>
    let source := (source.map ofSocketAddress).getD client.server
    match ← use ⟨source, bytes.toList⟩ with
    | some a => return some a
    | none => receiveBefore socket client moment use

/-- Sends a request until its reply comes. -/
def reply (socket : UDP.Socket) (client : Client) (id : Int32) (frame : List UInt8) :
    Nat → IO Envelope
  | 0 => orFail (.error (.io (.noReply client.options.attempts)))
  | left + 1 => do
    sendTo socket client.server frame
    let moment := (← clock).plus client.options.timeout.nanos
    let accept (p : Parcel) : IO (Option Envelope) :=
      return (client.firstAmong (fun e => e.id == id) [p]).1
    match ← receiveBefore socket client moment accept with
    | some e => return e
    | none => reply socket client id frame left

/-- Prints the notifications that come before a moment. -/
def printNotifications (socket : UDP.Socket) (client : Client) (moment : Instant) : IO Unit := do
  let print (p : Parcel) : IO (Option Unit) := do
    match (client.firstAmong (fun e => e.operation == .monitor) [p]).1 with
    | some e =>
      IO.println ("--- update (monitor #" ++ toString e.id.toInt ++ ")\n" ++ e.payload)
      return none
    | none => return none
  discard (receiveBefore socket client moment print)

def call (options : CallOptions) : IO Unit := do
  let socket ← UDP.Socket.mk
  socket.bind (toSocketAddress ⟨Network.anyHost, 0⟩)
  let address := ofSocketAddress (← socket.getSockName)
  let (id, client) := (Client.mk address options.server options.client 1).takeId
  let frame ← orFail (Envelope.of options.operation id options.payload).toFrame
  let answer ← reply socket client id frame client.options.attempts
  IO.println answer.payload
  if options.listening.nanos ≠ 0 then
    printNotifications socket client ((← clock).plus options.listening.nanos)

def run : Command → IO Unit
  | .serve options => serve options
  | .call options => call options

end DatagramRpc.Main

def main (args : List String) : IO UInt32 := do
  match DatagramRpc.Command.ofWords args with
  | .error message =>
    IO.eprintln message
    return 2
  | .ok command =>
    try
      DatagramRpc.Main.run command
      return 0
    catch e =>
      IO.eprintln (toString e)
      return 1
