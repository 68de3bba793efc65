import DatagramRpc.Message.Envelope
import DatagramRpc.Net.Address

/-!
# The invocation history

What the server remembers of the requests it has seen, by request number and client. A bounded
history also keeps the order in which its keys came, and forgets the oldest when there are too many;
the request of a forgotten key counts as new when it comes again.
-/

namespace DatagramRpc

/-- What tells one call from another. -/
structure CallKey where
  id : Int32
  client : Address
  deriving DecidableEq, Repr

structure InvocationRecord where
  request : Envelope
  client : Address
  /-- None while the request is being executed. -/
  response : Option Envelope
  deriving DecidableEq, Repr

def InvocationRecord.key (r : InvocationRecord) : CallKey := ⟨r.request.id, r.client⟩

/-- What the history knows of a request that comes in. -/
inductive Claim where
  /-- Not seen before: whoever made the claim now has to execute it. -/
  | fresh
  | inFlight
  | done (reply : Envelope)
  deriving DecidableEq, Repr

structure History where
  /-- The most keys to be held, zero for no bound. -/
  limit : Nat
  records : List InvocationRecord
  /-- The keys that are held, oldest first; not kept up without a bound. -/
  queue : List CallKey
  deriving DecidableEq, Repr

namespace History

def empty (limit : Nat) : History := ⟨limit, [], []⟩

def size (h : History) : Nat := h.records.length

def find? (h : History) (key : CallKey) : Option InvocationRecord :=
  h.records.find? fun r => r.key == key

def lookup (h : History) (id : Int32) (client : Address) : Option InvocationRecord :=
  h.find? ⟨id, client⟩

/-- Puts a record in the place of the one with its key. -/
def overwrite (r : InvocationRecord) (records : List InvocationRecord) : List InvocationRecord :=
  records.map fun old => if old.key = r.key then r else old

/-- Queues a key that is new, and forgets the oldest keys beyond the bound. -/
def track (h : History) (key : CallKey) : History :=
  if h.limit = 0 then h
  else
    let queue := h.queue ++ [key]
    let excess := queue.length - h.limit
    let forgotten := queue.take excess
    { h with
      records := h.records.filter fun r => !forgotten.contains r.key
      queue := queue.drop excess }

/-- Stores a record under its key. -/
def insert (h : History) (r : InvocationRecord) : History :=
  match h.find? r.key with
  | some _ => { h with records := overwrite r h.records }
  | none => ({ h with records := h.records ++ [r] }).track r.key

/-- Looks a request up and, if it is new, marks it as being executed. -/
def claim (h : History) (request : Envelope) (client : Address) : History × Claim :=
  match h.find? ⟨request.id, client⟩ with
  | some ⟨_, _, some reply⟩ => (h, .done reply)
  | some ⟨_, _, none⟩ => (h, .inFlight)
  | none => (h.insert ⟨request, client, none⟩, .fresh)

/-- Marks a request as being executed, whatever is known of it. -/
def begin (h : History) (request : Envelope) (client : Address) : History :=
  h.insert ⟨request, client, none⟩

/-- Stores the reply to a request. -/
def record (h : History) (request : Envelope) (client : Address) (reply : Envelope) : History :=
  h.insert ⟨request, client, some reply⟩

end History

end DatagramRpc
