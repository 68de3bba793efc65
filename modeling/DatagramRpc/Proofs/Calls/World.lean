import DatagramRpc.Client.Call
import DatagramRpc.Proofs.Net.Delivery
import DatagramRpc.Proofs.Server.Answers
import DatagramRpc.Server.Station

/-!
# Clients and a server on a lossy network

Any number of calls are under way, and a server handles one datagram after another. A run is a list
of actions: a client begins a call, sends its request, looks at the next datagram or gives up
waiting; the server takes up the next datagram; the network loses, repeats and reorders what waits
somewhere. A datagram that is late is one that waits while others are brought before it. Actions
that are not possible change nothing.
-/

namespace DatagramRpc

variable {σ ρ : Type}

/-! ## A call step by step -/

/-- What a client asks a server for. -/
structure Query where
  client : Client
  request : Envelope
  deriving DecidableEq

def Query.key (q : Query) : CallKey := ⟨q.request.id, q.client.address⟩

/-- How far a call has come, with the number of sends that are left. -/
inductive Progress where
  | sending (left : Nat)
  | waiting (left : Nat)
  | returned (result : Except Fault Envelope)

structure OpenCall where
  query : Query
  progress : Progress

/-- The next thing to happen in a call. -/
inductive Move where
  | send
  | receive
  /-- The time to wait is over. -/
  | expire
  /-- The socket reports a fault. -/
  | fail (fault : Fault)

namespace OpenCall

/-- A call that begins as `Client.callWithId` does. -/
def begin (client : Client) (op : Operation) (id : Int32) (payload : String) : OpenCall where
  query := ⟨client, .of op id payload⟩
  progress :=
    match (Envelope.of op id payload).toFrame with
    | .ok _ => .sending client.options.attempts
    | .error f => .returned (.error f)

def reply? (c : OpenCall) : Option Envelope :=
  match c.progress with
  | .returned (.ok reply) => some reply
  | _ => none

/-- Sends the request once. -/
def send (c : OpenCall) (n : Network) : OpenCall × Network :=
  match c.progress with
  | .sending 0 =>
    ({ c with progress := .returned (.error (.io (.noReply c.query.client.options.attempts))) }, n)
  | .sending (left + 1) =>
    match c.query.request.toFrame >>= fun frame => c.query.client.sendRaw frame n with
    | .ok n => ({ c with progress := .waiting left }, n)
    | .error f => ({ c with progress := .returned (.error f) }, n)
  | _ => (c, n)

/-- Takes the next datagram, and returns what is in it if it has the number of the request. -/
def receive (c : OpenCall) (n : Network) : OpenCall × Network :=
  match c.progress with
  | .waiting _ =>
    let address := c.query.client.address
    let rest := n.setWaiting address fun _ => (n.waiting address).tail
    match c.query.client.firstAmong
      (fun e => e.id == c.query.request.id) ((n.waiting address).take 1) with
    | (some reply, _) => ({ c with progress := .returned (.ok reply) }, rest)
    | (none, _) => (c, rest)
  | _ => (c, n)

def expire (c : OpenCall) : OpenCall :=
  match c.progress with
  | .waiting left => { c with progress := .sending left }
  | _ => c

def fail (c : OpenCall) (f : Fault) : OpenCall :=
  match c.progress with
  | .waiting _ => { c with progress := .returned (.error f) }
  | _ => c

def move (c : OpenCall) (n : Network) : Move → OpenCall × Network
  | .send => c.send n
  | .receive => c.receive n
  | .expire => (c.expire, n)
  | .fail f => (c.fail f, n)

end OpenCall

/-! ## Everybody together -/

/-- The server takes up a datagram: it loses it on purpose, or handles it. -/
def Station.takeUp (h : Handler σ) (t : Readings) (n : Network) (s : Station σ) (lost : Bool)
    (disturbance : Disturbance) (p : Parcel) : Station σ × List (Address × List UInt8) :=
  let s := { s with disturbance }
  if lost then (s.countDrop, []) else s.handle h t n p

theorem Station.process_eq_takeUp (h : Handler σ) (t : Readings) (n : Network) (s : Station σ)
    (p : Parcel) :
    ∃ lost disturbance, s.process h t n p = s.takeUp h t n lost disturbance p := by
  unfold process roll
  simp only
  cases s.disturbance.rollDrop.1 with
  | true => exact ⟨true, s.disturbance.rollDrop.2, rfl⟩
  | false => exact ⟨false, s.disturbance.rollDrop.2.rollDelay.2, rfl⟩

/-- The network, the server with a list of its executions, and all calls that were begun. -/
structure World (σ : Type) where
  network : Network
  station : Station (σ × List Execution)
  calls : List OpenCall

namespace World

inductive Action where
  | call (client : Client) (op : Operation) (id : Int32) (payload : String)
  /-- The `i`-th call goes on. -/
  | move (i : Nat) (m : Move)
  /-- The server takes up the next datagram. -/
  | serve (t : Readings) (lost : Bool) (disturbance : Disturbance)
  /-- The network loses, repeats and reorders what waits at an address. -/
  | shuffle (a : Address) (parcels : List Parcel)
  /-- The interface goes up or down. -/
  | link (isUp : Bool)

/-- Before anything is sent. -/
def start (isUp : Bool) (sockets : List Address) (address : Address) (bufferSize : Nat)
    (disturbance : Disturbance) (handler : σ) : World σ where
  network := ⟨isUp, sockets.map fun a => ⟨a, []⟩⟩
  station := ⟨address, bufferSize, .start .atMostOnce 0 (handler, []), disturbance⟩
  calls := []

def queries (w : World σ) : List Query := w.calls.map (·.query)

/-- Clients of the server have sockets of their own, and use no number twice, nor the number
zero. -/
def MayCall (w : World σ) (client : Client) (id : Int32) : Prop :=
  client.server = w.station.address ∧ client.address ≠ w.station.address ∧ id ≠ 0 ∧
    ∀ q ∈ w.queries, q.key ≠ ⟨id, client.address⟩

instance (w : World σ) (client : Client) (id : Int32) : Decidable (w.MayCall client id) :=
  inferInstanceAs (Decidable (_ ∧ _))

def began (w : World σ) (c : OpenCall) : World σ := { w with calls := w.calls ++ [c] }

def moved (w : World σ) (i : Nat) (after : OpenCall × Network) : World σ :=
  { w with network := after.2, calls := w.calls.set i after.1 }

/-- What waits at the server's socket without the datagram that it takes up. -/
def taken (w : World σ) (rest : List Parcel) : Network :=
  w.network.setWaiting w.station.address fun _ => rest

def served (w : World σ) (rest : List Parcel)
    (after : Station (σ × List Execution) × List (Address × List UInt8)) : World σ :=
  { w with station := after.1, network := Exchange.sendAll (w.taken rest) after.1.address after.2 }

def step (h : Handler σ) (w : World σ) : Action → World σ
  | .call client op id payload =>
    if w.MayCall client id then w.began (.begin client op id payload) else w
  | .move i m =>
    match w.calls[i]? with
    | none => w
    | some c => w.moved i (c.move w.network m)
  | .serve t lost disturbance =>
    match w.network.waiting w.station.address with
    | [] => w
    | p :: rest => w.served rest (w.station.takeUp h.logged t (w.taken rest) lost disturbance p)
  | .shuffle a parcels =>
    if parcels ⊆ w.network.waiting a then
      { w with network := w.network.setWaiting a fun _ => parcels }
    else w
  | .link isUp => { w with network := { w.network with isUp } }

def run (h : Handler σ) (w : World σ) (actions : List Action) : World σ := actions.foldl (step h) w

/-- The requests that the server has executed under a key. -/
def executions (w : World σ) (k : CallKey) : List Envelope := w.station.server.executions k

end World

end DatagramRpc
