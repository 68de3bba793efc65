import DatagramRpc.Config.Settings
import DatagramRpc.Metrics.Rpc
import DatagramRpc.Server.History
import DatagramRpc.Server.Monitor

/-!
# Dispatching requests

What executes requests is a parameter of the server. The server itself recognizes requests that it
has seen, remembers replies, announces changes and counts.
-/

namespace DatagramRpc

/-! ## Handlers

What executes requests. A handler has a state of its own, sees who calls and when, and may register
monitors. It alone knows what payloads mean.
-/

/-- What a handler sees besides the request. -/
structure Call where
  client : Address
  now : Instant
  deriving DecidableEq, Repr

/-- The payload of the reply, and the resource that was changed, if any. -/
structure Outcome where
  payload : String
  changed : Option String
  deriving DecidableEq, Repr

def Outcome.plain (payload : String) : Outcome := ⟨payload, none⟩

/-- A handler with states in `σ`. -/
structure Handler (σ : Type) where
  /-- Executes a request; what it leaves behind counts also when it fails. -/
  handle : Call → Envelope → σ × Registry → Except Fault Outcome × σ × Registry
  /-- What subscribers are told after a change of a resource. -/
  snapshot : σ → String → Except Fault String

/-! ## Dispatching datagrams

A datagram is decoded, looked up in the history, executed, recorded, announced and answered. Each of
these is a step of its own on the state of the server, so that the steps of several datagrams can
also be taken in turns; `dispatch` takes the steps of one datagram one after another.
-/

/-- How a datagram was answered. -/
inductive Disposition where
  | executed
  | replayed
  | echoed
  | rejected
  /-- The same request is still being executed. -/
  | inProgress
  deriving DecidableEq, Repr

def Disposition.name : Disposition → String
  | executed => "Executed"
  | replayed => "Replayed"
  | echoed => "Echoed"
  | rejected => "Rejected"
  | inProgress => "InProgress"

/-- The clock readings that are taken while a datagram is processed. -/
structure Readings where
  received : Instant
  handled : Instant
  swept : Instant
  published : Instant
  finished : Instant
  deriving DecidableEq, Repr

/-- The same reading each time. -/
def Readings.at (now : Instant) : Readings := ⟨now, now, now, now, now⟩

/-- The state of a server around a handler. -/
structure Server (σ : Type) where
  semantics : Semantics
  history : History
  monitors : Registry
  metrics : Metrics.Rpc
  handler : σ

/-- An answer, with the notifications that went out before it. -/
structure Dispatched where
  reply : Envelope
  disposition : Disposition
  publication : Publication
  deriving DecidableEq, Repr

namespace Server

variable {σ : Type}

def start (semantics : Semantics) (historyLimit : Nat) (handler : σ) : Server σ :=
  ⟨semantics, .empty historyLimit, .empty, .empty, handler⟩

/-- The label of an operation. -/
def opLabel (op : Operation) : Metrics.Labels := [("op", op.name)]

def errorPayload (f : Fault) : String := "status:ERROR\nmessage:" ++ f.message

/-- The answer to what is no envelope. Its number is zero, since none was read. -/
def rejection (f : Fault) : Envelope :=
  .of .read 0 ("status:ERROR\nmessage:Bad request: " ++ f.message)

def inProgressPayload : String := "status:ERROR\nmessage:Request in progress"

/-- Counts a datagram that is no envelope. -/
def countRejected (s : Server σ) (f : Fault) : Server σ :=
  { s with metrics := s.metrics.count .decodeErrors [("code", f.kind.code)] }

/-- Counts a request. -/
def countRequest (s : Server σ) (op : Operation) : Server σ :=
  { s with metrics := s.metrics.count .requests (opLabel op) }

/-- Looks a request up. Unless every request is to be executed, only a fresh one is. -/
def claim (s : Server σ) (request : Envelope) (client : Address) : Server σ × Claim :=
  match s.semantics with
  | .atMostOnce =>
    let (history, claim) := s.history.claim request client
    let s := { s with history }
    match claim with
    | .done _ =>
      ({ s with metrics := s.metrics.count .replays (opLabel request.operation) }, claim)
    | _ => (s, claim)
  | .atLeastOnce => ({ s with history := s.history.begin request client }, .fresh)

/-- Has the handler execute a request. A fault becomes a reply like any other. -/
def execute (s : Server σ) (h : Handler σ) (request : Envelope) (call : Call) :
    Server σ × Envelope × Option String :=
  let (result, handler, monitors) := h.handle call request (s.handler, s.monitors)
  let s := { s with handler, monitors }
  match result with
  | .ok outcome => (s, request.reply outcome.payload, outcome.changed)
  | .error f =>
    ({ s with metrics := s.metrics.count .handlerErrors (opLabel request.operation) },
      request.reply (errorPayload f), none)

/-- Remembers the reply to a request. -/
def record (s : Server σ) (request : Envelope) (client : Address) (reply : Envelope) : Server σ :=
  { s with history := s.history.record request client reply }

/-- Sweeps the monitors and announces a change of a resource, if there is something to say. -/
def notify (s : Server σ) (h : Handler σ) (sink : Sink) (t : Readings) (resource : String) :
    Server σ × Publication :=
  let s := { s with monitors := s.monitors.sweep t.swept }
  match h.snapshot s.handler resource with
  | .error _ => (s, .none)
  | .ok message =>
    let p := s.monitors.publish sink t.published resource message
    let metrics :=
      (s.metrics.add .notifications [("result", "sent")] (UInt64.ofNat p.sent)).add
        .notifications [("result", "failed")] (UInt64.ofNat p.failed)
    ({ s with metrics }, p)

/-- Announces what a request changed. -/
def announce (s : Server σ) (h : Handler σ) (sink : Sink) (t : Readings) (op : Operation)
    (changed : Option String) : Server σ × Publication :=
  match op.isMutating, changed with
  | true, some resource => s.notify h sink t resource
  | _, _ => (s, .none)

/-- Notes how long a request took. -/
def finish (s : Server σ) (t : Readings) (op : Operation) : Server σ :=
  { s with metrics := s.metrics.observe (opLabel op) (t.finished.since t.received) }

/-- All steps of a request that is to be executed. -/
def run (s : Server σ) (h : Handler σ) (sink : Sink) (t : Readings) (client : Address)
    (request : Envelope) : Server σ × Dispatched :=
  let (s, reply, changed) := s.execute h request ⟨client, t.handled⟩
  let s := s.record request client reply
  let (s, publication) := s.announce h sink t request.operation changed
  (s.finish t request.operation, ⟨reply, .executed, publication⟩)

/-- Answers a request. -/
def answer (s : Server σ) (h : Handler σ) (sink : Sink) (t : Readings) (client : Address)
    (request : Envelope) : Server σ × Dispatched :=
  let s := s.countRequest request.operation
  if request.operation = .echo then (s, ⟨request, .echoed, .none⟩)
  else
    match s.claim request client with
    | (s, .fresh) => s.run h sink t client request
    | (s, .done reply) => (s, ⟨reply, .replayed, .none⟩)
    | (s, .inFlight) => (s, ⟨request.reply inProgressPayload, .inProgress, .none⟩)

/-- Processes a datagram. -/
def dispatch (s : Server σ) (h : Handler σ) (sink : Sink) (t : Readings) (client : Address)
    (frame : List UInt8) : Server σ × Dispatched :=
  match Envelope.ofFrame frame with
  | .error f => (s.countRejected f, ⟨rejection f, .rejected, .none⟩)
  | .ok request => s.answer h sink t client request

/-- Processes a datagram and writes the reply as a frame. -/
def handleDatagram (s : Server σ) (h : Handler σ) (sink : Sink) (t : Readings) (client : Address)
    (frame : List UInt8) : Server σ × Publication × Except Fault (List UInt8) :=
  let (s, d) := s.dispatch h sink t client frame
  (s, d.publication, d.reply.toFrame)

end Server

end DatagramRpc
