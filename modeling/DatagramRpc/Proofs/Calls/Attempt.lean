import DatagramRpc.Proofs.Calls.World

/-!
# A call on its own

The moves of a call, made one after another, are what `Client.callWithId` does: to send, to let the
other side have its turn, to look at all that waits, and to give up waiting if the reply was not
among it.
-/

namespace DatagramRpc

variable {ρ : Type} {n : Network} {a : Address}

private theorem Network.setWaiting_setWaiting (n : Network) (a : Address)
    (f g : List Parcel → List Parcel) :
    (n.setWaiting a f).setWaiting a g = n.setWaiting a (g ∘ f) := by
  have hsocket : ∀ s : Socket,
      (if (if s.address = a then { s with waiting := f s.waiting } else s).address = a then
        { (if s.address = a then { s with waiting := f s.waiting } else s) with
          waiting := g (if s.address = a then { s with waiting := f s.waiting } else s).waiting }
      else if s.address = a then { s with waiting := f s.waiting } else s) =
        if s.address = a then { s with waiting := g (f s.waiting) } else s := by
    intro s
    by_cases hs : s.address = a
    · simp only [if_pos hs]
    · simp only [if_neg hs]
  simp only [setWaiting, List.map_map, Function.comp_def, hsocket]

/-- Where something waits there is a socket, so what is put there waits there. -/
theorem Network.waiting_setWaiting_self (h : n.waiting a ≠ []) (parcels : List Parcel) :
    (n.setWaiting a fun _ => parcels).waiting a = parcels := by
  rw [waiting_setWaiting]
  rw [waiting] at h
  cases hfind : n.sockets.find? fun s => s.address == a with
  | none =>
    rw [hfind] at h
    exact absurd rfl h
  | some s =>
    have hs : s.address = a := by simpa using List.find?_some hfind
    simp only [Option.map_some, Option.getD_some, if_pos hs]

namespace OpenCall

variable {c : OpenCall} {q : Query}

def perform (c : OpenCall) (n : Network) (moves : List Move) : OpenCall × Network :=
  moves.foldl (fun x m => x.1.move x.2 m) (c, n)

/-- A call that has returned does nothing more. -/
theorem perform_returned {result : Except Fault Envelope} (n : Network) (moves : List Move) :
    perform ⟨q, .returned result⟩ n moves = (⟨q, .returned result⟩, n) := by
  induction moves with
  | nil => rfl
  | cons m moves ih => cases m <;> exact ih

/-- Looking at the datagrams one by one finds what `Client.receiveReply` finds among all of them. -/
theorem perform_receive (q : Query) (left : Nat) (n : Network) :
    perform ⟨q, .waiting left⟩ n
        (List.replicate ((n.waiting q.client.address).length + 1) .receive) =
      match q.client.receiveReply q.request.id n with
      | (some reply, n) => (⟨q, .returned (.ok reply)⟩, n)
      | (none, n) => (⟨q, .waiting left⟩, n) := by
  simp only [Client.receiveReply, Client.receive]
  generalize hqueue : n.waiting q.client.address = parcels
  induction parcels generalizing n with
  | nil =>
    show perform (receive ⟨q, .waiting left⟩ n).1 (receive ⟨q, .waiting left⟩ n).2 [] = _
    simp only [receive, hqueue]
    rfl
  | cons p parcels ih =>
    have hthere : n.waiting q.client.address ≠ [] := by
      rw [hqueue]
      exact List.cons_ne_nil _ _
    show perform (receive ⟨q, .waiting left⟩ n).1 (receive ⟨q, .waiting left⟩ n).2
      (List.replicate (parcels.length + 1) .receive) = _
    simp only [receive, hqueue, List.tail_cons, List.take_succ_cons, List.take_zero,
      Client.firstAmong]
    cases (q.client.envelope? p).filter fun e => e.id == q.request.id with
    | some reply => exact perform_returned _ _
    | none =>
      have hnext := ih (n.setWaiting q.client.address fun _ => parcels)
        (Network.waiting_setWaiting_self hthere parcels)
      simp only [Network.setWaiting_setWaiting, Function.comp_def] at hnext
      exact hnext

/-- A call in which the other side has its turn after each send, and all that waits is looked at. -/
def alone (turn : Exchange ρ → Exchange ρ) : Nat → OpenCall → Exchange ρ → OpenCall × Exchange ρ
  | 0, c, x =>
    let (c, network) := c.send x.network
    (c, { x with network })
  | rounds + 1, c, x =>
    match c.send x.network with
    | (⟨q, .waiting left⟩, network) =>
      let x := turn { x with network }
      let looks := List.replicate ((x.network.waiting q.client.address).length + 1) Move.receive
      let (c, network) := perform ⟨q, .waiting left⟩ x.network (looks ++ [.expire])
      alone turn rounds c { x with network }
    | (c, network) => (c, { x with network })

private theorem alone_returned {result : Except Fault Envelope} (turn : Exchange ρ → Exchange ρ)
    (rounds : Nat) (x : Exchange ρ) :
    alone turn rounds ⟨q, .returned result⟩ x = (⟨q, .returned result⟩, x) := by
  cases rounds <;> rfl

private theorem alone_eq_attempt (turn : Exchange ρ → Exchange ρ) {q : Query} {frame : List UInt8}
    (hframe : q.request.toFrame = .ok frame) (left : Nat) (x : Exchange ρ) :
    alone turn left ⟨q, .sending left⟩ x =
      (⟨q, .returned (q.client.attempt turn q.request.id frame left x).1⟩,
        (q.client.attempt turn q.request.id frame left x).2) := by
  have hbind : ∀ n, (q.request.toFrame >>= fun frame => q.client.sendRaw frame n) =
      q.client.sendRaw frame n := by
    intro n
    rw [hframe]
    rfl
  induction left generalizing x with
  | zero => rfl
  | succ left ih =>
    simp only [alone, send, hbind, Client.attempt]
    cases q.client.sendRaw frame x.network with
    | error f => rfl
    | ok network =>
      simp only
      generalize turn { x with network } = x
      have hlook := perform_receive q left x.network
      simp only [perform] at hlook
      simp only [perform, List.foldl_append, hlook]
      cases q.client.receiveReply q.request.id x.network with
      | mk found network =>
        cases found with
        | some reply => exact alone_returned turn left _
        | none => exact ih { x with network }

/-- **The moves of a call are those of the client**: so it is with `Client.callWithId`. -/
theorem alone_eq_callWithId (client : Client) (turn : Exchange ρ → Exchange ρ) (op : Operation)
    (id : Int32) (payload : String) (x : Exchange ρ) :
    alone turn client.options.attempts (begin client op id payload) x =
      (⟨⟨client, .of op id payload⟩, .returned (client.callWithId turn op id payload x).1⟩,
        (client.callWithId turn op id payload x).2) := by
  rw [Client.callWithId, begin]
  cases hframe : (Envelope.of op id payload).toFrame with
  | error f => exact alone_returned turn _ x
  | ok frame => exact alone_eq_attempt turn (q := ⟨client, .of op id payload⟩) hframe _ x

end OpenCall

end DatagramRpc
