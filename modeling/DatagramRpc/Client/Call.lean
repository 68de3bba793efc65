import DatagramRpc.Message.Envelope
import DatagramRpc.Net.Network
import DatagramRpc.Server.Time

/-!
# Clients and their calls

A client at its socket, and the requests that it sends until there is a reply.
-/

namespace DatagramRpc

/-! ## Clients

A client has a socket of its own, and numbers its requests. It knows replies by these numbers alone,
and passes over datagrams that are no envelopes.
-/

structure ClientOptions where
  /-- How long to wait for a reply after each send. -/
  timeout : Span
  /-- How often a request is sent before it is given up. -/
  attempts : Nat
  bufferSize : Nat
  deriving DecidableEq, Repr

def ClientOptions.default : ClientOptions := ⟨.ofSeconds 5, 5, 65507⟩

structure Client where
  address : Address
  server : Address
  options : ClientOptions
  /-- The number of the next request. After the greatest number comes the least. -/
  nextId : Int32
  deriving DecidableEq, Repr

namespace Client

/-- Opens a socket for a client of some server. -/
def connect (n : Network) (server : Address) (options : ClientOptions) :
    Except Fault (Network × Client) := do
  let (n, address) ← n.bind ⟨Network.loopback, 0⟩
  return (n, ⟨address, server, options, 1⟩)

/-- Uses up a number. -/
def takeId (c : Client) : Int32 × Client := (c.nextId, { c with nextId := c.nextId + 1 })

/-- The envelope in a datagram, as far as the buffer holds it. -/
def envelope? (c : Client) (p : Parcel) : Option Envelope :=
  (Envelope.ofFrame (p.cut c.options.bufferSize).bytes).toOption

/-- The first acceptable envelope among the datagrams that wait, and those behind it. All before it
are passed over. -/
def firstAmong (c : Client) (accept : Envelope → Bool) :
    List Parcel → Option Envelope × List Parcel
  | [] => (none, [])
  | p :: rest =>
    match (c.envelope? p).filter accept with
    | some e => (some e, rest)
    | none => firstAmong c accept rest

/-- Receives the first acceptable envelope, if one waits. -/
def receive (c : Client) (accept : Envelope → Bool) (n : Network) : Option Envelope × Network :=
  let (e, rest) := c.firstAmong accept (n.waiting c.address)
  (e, n.setWaiting c.address fun _ => rest)

/-- Whatever its number. -/
def receiveAny (c : Client) (n : Network) : Option Envelope × Network := c.receive (fun _ => true) n

def receiveReply (c : Client) (id : Int32) (n : Network) : Option Envelope × Network :=
  c.receive (fun e => e.id == id) n

/-- Receives all that waits, of which only notifications are kept. -/
def receiveNotifications (c : Client) (n : Network) : List Envelope × Network :=
  let notes := (n.waiting c.address).filterMap fun p =>
    (c.envelope? p).filter fun e => e.operation = .monitor
  (notes, n.setWaiting c.address fun _ => [])

/-- Sends bytes once. -/
def sendRaw (c : Client) (bytes : List UInt8) (n : Network) : Except Fault Network :=
  n.send c.address c.server bytes

theorem firstAmong_accepts {c : Client} {accept : Envelope → Bool} {ps rest : List Parcel}
    {e : Envelope} (h : c.firstAmong accept ps = (some e, rest)) : accept e = true := by
  induction ps with
  | nil => simp [firstAmong] at h
  | cons p ps ih =>
    simp only [firstAmong] at h
    split at h
    · next e' he =>
      simp only [Prod.mk.injEq, Option.some.injEq] at h
      obtain ⟨rfl, -⟩ := h
      exact (Option.filter_eq_some_iff.1 he).2
    · exact ih h

end Client

end DatagramRpc

namespace DatagramRpc.Client

/-! ## Calls

A request is sent again, under the same number, each time that no reply to it has come, until there
have been as many sends as the client makes. Between a send and the wait for the reply, whoever is
on the other side of the network has its turn.
-/

variable {ρ : Type}

/-- Sends a request at most so often, and gives the reply. -/
def attempt (c : Client) (turn : Exchange ρ → Exchange ρ) (id : Int32) (frame : List UInt8) :
    Nat → Exchange ρ → Except Fault Envelope × Exchange ρ
  | 0, x => (.error (.io (.noReply c.options.attempts)), x)
  | left + 1, x =>
    match c.sendRaw frame x.network with
    | .error f => (.error f, x)
    | .ok network =>
      let x := turn { x with network }
      match c.receiveReply id x.network with
      | (some reply, network) => (.ok reply, { x with network })
      | (none, network) => attempt c turn id frame left { x with network }

/-- Calls the server under a given number. -/
def callWithId (c : Client) (turn : Exchange ρ → Exchange ρ) (op : Operation) (id : Int32)
    (payload : String) (x : Exchange ρ) : Except Fault Envelope × Exchange ρ :=
  match (Envelope.of op id payload).toFrame with
  | .error f => (.error f, x)
  | .ok frame => c.attempt turn id frame c.options.attempts x

/-- A reply has the number of the request. -/
theorem id_of_attempt {c : Client} {turn : Exchange ρ → Exchange ρ} {id : Int32}
    {frame : List UInt8} {left : Nat} {x y : Exchange ρ} {reply : Envelope}
    (h : c.attempt turn id frame left x = (.ok reply, y)) : reply.id = id := by
  induction left generalizing x with
  | zero => simp [attempt] at h
  | succ left ih =>
    simp only [attempt] at h
    split at h
    · simp at h
    · split at h
      · next he =>
        simp only [Prod.mk.injEq, Except.ok.injEq] at h
        obtain ⟨rfl, -⟩ := h
        simp only [receiveReply, receive, Prod.mk.injEq] at he
        simpa using firstAmong_accepts (Prod.ext he.1 rfl)
      · exact ih h

end DatagramRpc.Client
