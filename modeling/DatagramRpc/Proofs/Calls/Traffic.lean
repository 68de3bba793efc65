import DatagramRpc.Proofs.Calls.World
import DatagramRpc.Proofs.Message.RoundTrip

/-!
# What is under way

At the server's socket wait only requests of calls, and at a client's socket only answers to it.
This is kept by every step, together with what the server knows: whichever datagrams are lost,
repeated or late, those that are left were sent at some time.
-/

namespace DatagramRpc

variable {σ : Type} {h : Handler σ} {w : World σ} {n : Network} {p : Parcel} {a : Address}

/-! ## One call -/

namespace OpenCall

variable {c : OpenCall} {reply : Envelope}

theorem query_move (c : OpenCall) (n : Network) (m : Move) : (c.move n m).1.query = c.query := by
  cases m with
  | send =>
    simp only [move, send]
    split
    · rfl
    · split <;> rfl
    · rfl
  | receive =>
    simp only [move, receive]
    split
    · split <;> rfl
    · rfl
  | expire =>
    simp only [move, expire]
    split <;> rfl
  | fail f =>
    simp only [move, fail]
    split <;> rfl

/-- A call sends nothing but its request, and only to the server. -/
theorem mem_move {m : Move} (hp : p ∈ (c.move n m).2.waiting a) :
    p ∈ n.waiting a ∨
      (a = c.query.client.server ∧ p.source = c.query.client.address ∧
        c.query.request.toFrame = .ok p.bytes) := by
  cases m with
  | send =>
    simp only [move, send] at hp
    split at hp
    · exact .inl hp
    · split at hp
      · next hsend =>
        obtain ⟨frame, hframe, hsend⟩ := bind_eq_ok.mp hsend
        rcases Network.mem_send hsend hp with hp | ⟨ha, rfl⟩
        · exact .inl hp
        · exact .inr ⟨ha, rfl, hframe⟩
      · exact .inl hp
    · exact .inl hp
  | receive =>
    have hrest : ∀ {b},
        p ∈ (n.setWaiting b fun _ => (n.waiting b).tail).waiting a → p ∈ n.waiting a := by
      intro b hp
      rcases Network.mem_setWaiting hp with ⟨rfl, hp⟩ | ⟨-, hp⟩
      · exact List.mem_of_mem_tail hp
      · exact hp
    simp only [move, receive] at hp
    split at hp
    · split at hp <;> exact .inl (hrest hp)
    · exact .inl hp
  | expire => exact .inl hp
  | fail f => exact .inl hp

theorem reply?_begin (client : Client) (op : Operation) (id : Int32) (payload : String) :
    (begin client op id payload).reply? = none := by
  simp only [begin, reply?]
  cases (Envelope.of op id payload).toFrame <;> rfl

/-- A call returns what waits at its socket under its number. -/
theorem reply?_move {m : Move} (hreply : (c.move n m).1.reply? = some reply) :
    c.reply? = some reply ∨
      (reply.id = c.query.request.id ∧
        ∃ p ∈ n.waiting c.query.client.address, c.query.client.envelope? p = some reply) := by
  cases m with
  | send =>
    simp only [move, send] at hreply
    split at hreply
    · cases hreply
    · split at hreply <;> cases hreply
    · exact .inl hreply
  | receive =>
    simp only [move, receive] at hreply
    split at hreply
    · next left hwaiting =>
      split at hreply
      · next e rest hfirst =>
        cases hreply
        have hid := Client.firstAmong_accepts hfirst
        cases hqueue : n.waiting c.query.client.address with
        | nil =>
          rw [hqueue] at hfirst
          cases hfirst
        | cons p parcels =>
          rw [hqueue, List.take_succ_cons, List.take_zero, Client.firstAmong] at hfirst
          split at hfirst
          · next e' he =>
            cases hfirst
            have henvelope := (Option.filter_eq_some_iff.mp he).1
            exact .inr ⟨by simpa using hid, p, List.mem_cons_self, henvelope⟩
          · cases hfirst
      · exact .inl hreply
    · exact .inl hreply
  | expire =>
    simp only [move, expire] at hreply
    split at hreply
    · cases hreply
    · exact .inl hreply
  | fail f =>
    simp only [move, fail] at hreply
    split at hreply
    · cases hreply
    · exact .inl hreply

end OpenCall

/-! ## What the server sends -/

namespace Station

variable {s : Station (σ × List Execution)} {t : Readings}

/-- A datagram that is lost on purpose leaves the history, the subscriptions and the executions
alone. -/
inductive TakesUp (s : Station (σ × List Execution)) (h : Handler σ) (t : Readings) (n : Network)
    (p : Parcel) : Station (σ × List Execution) × List (Address × List UInt8) → Prop
  | lost (s' : Station (σ × List Execution)) (metrics : Metrics.Rpc)
      (address : s'.address = s.address)
      (server : s'.server = { s.server with metrics }) : TakesUp s h t n p (s', [])
  | handled (s' : Station (σ × List Execution)) (sink : Sink) (out : List (Address × List UInt8))
      (address : s'.address = s.address)
      (server : s'.server =
        (s.server.dispatch h.logged sink t p.source (p.bytes.take s.bufferSize)).1)
      (sends : ∀ a bytes, (a, bytes) ∈ out →
        (a = p.source ∧
          (s.server.dispatch h.logged sink t p.source (p.bytes.take s.bufferSize)).2.reply.toFrame =
            .ok bytes) ∨
        ∃ attempt ∈
            (s.server.dispatch h.logged sink t p.source
              (p.bytes.take s.bufferSize)).2.publication.attempts,
          attempt.datagram = ⟨a, bytes⟩) : TakesUp s h t n p (s', out)

theorem takesUp (h : Handler σ) (t : Readings) (n : Network) (s : Station (σ × List Execution))
    (lost : Bool) (disturbance : Disturbance) (p : Parcel) :
    TakesUp s h t n p (s.takeUp h.logged t n lost disturbance p) := by
  cases lost with
  | true => exact .lost _ _ rfl rfl
  | false =>
    refine .handled _ (fun _ d => (n.checkSend d.receiver.host d.frame.length).isOk) _ rfl rfl
      fun a bytes hout => ?_
    rcases List.mem_append.mp hout with hout | hout
    · obtain ⟨attempt, hattempt, hd⟩ := List.mem_map.mp hout
      cases hd
      exact .inr ⟨attempt, hattempt, rfl⟩
    · obtain ⟨frame, hframe, hd⟩ := Option.map_eq_some_iff.mp (Option.mem_toList.mp hout)
      cases hd
      exact .inl ⟨rfl, ok_of_toOption hframe⟩

theorem TakesUp.address_eq {p : Parcel}
    {after : Station (σ × List Execution) × List (Address × List UInt8)}
    (hafter : s.TakesUp h t n p after) : after.1.address = s.address := by
  cases hafter with
  | lost s' metrics address server => exact address
  | handled s' sink out address server sends => exact address

end Station

/-! ## Requests and executions -/

namespace World

/-- The requests that may reach the server: those of calls, and whatever it sends to itself. -/
def Asked (w : World σ) (client : Address) (request : Envelope) : Prop :=
  client = w.station.address ∨ ∃ q ∈ w.queries, q.client.address = client ∧ q.request = request

structure Sound (w : World σ) : Prop where
  remembering : w.station.server.Remembering
  clients : ∀ q ∈ w.queries, q.client.server = w.station.address ∧
    q.client.address ≠ w.station.address ∧ q.request.id ≠ 0
  distinct : ∀ q ∈ w.queries, ∀ q' ∈ w.queries, q.key = q'.key → q = q'
  requests : ∀ p ∈ w.network.waiting w.station.address, p.source = w.station.address ∨
    ∃ q ∈ w.queries, q.client.address = p.source ∧ q.request.toFrame = .ok p.bytes
  settled : ∀ k, w.station.server.Settled w.Asked k

/-- What is read of the frame of a request was asked, even if a buffer does not hold all of it. -/
theorem asked_of_read
    (hp : p.source = w.station.address ∨ ∃ q ∈ w.queries, q.client.address = p.source ∧
      q.request.toFrame = .ok p.bytes)
    {size : Nat} {request : Envelope} (h : Envelope.ofFrame (p.bytes.take size) = .ok request) :
    w.Asked p.source request := by
  rcases hp with hown | ⟨q, hq, hsource, hframe⟩
  · exact .inl hown
  · exact .inr ⟨q, hq, hsource, (Envelope.eq_of_ofFrame_take hframe h).symm⟩

/-- What the server reads of a datagram was asked. -/
theorem Sound.asked (hw : w.Sound) (hp : p ∈ w.network.waiting w.station.address) {size : Nat}
    {request : Envelope} (h : Envelope.ofFrame (p.bytes.take size) = .ok request) :
    w.Asked p.source request :=
  asked_of_read (hw.requests p hp) h

theorem waiting_start (isUp : Bool) (sockets : List Address) (address a : Address)
    (bufferSize : Nat) (disturbance : Disturbance) (handler : σ) :
    (start isUp sockets address bufferSize disturbance handler).network.waiting a = [] := by
  simp only [start, Network.waiting]
  cases hfind : (sockets.map fun a => (⟨a, []⟩ : Socket)).find? fun s => s.address == a with
  | none => rfl
  | some s =>
    obtain ⟨b, -, rfl⟩ := List.mem_map.mp (List.mem_of_find?_eq_some hfind)
    rfl

theorem sound_start (isUp : Bool) (sockets : List Address) (address : Address) (bufferSize : Nat)
    (disturbance : Disturbance) (handler : σ) :
    (start isUp sockets address bufferSize disturbance handler).Sound where
  remembering := Server.remembering_start _
  clients q hq := nomatch hq
  distinct q hq := nomatch hq
  requests p hp := by
    rw [waiting_start] at hp
    cases hp
  settled k := Server.settled_start handler

theorem asked_congr {w' : World σ} (haddress : w'.station.address = w.station.address)
    (hqueries : w'.queries = w.queries) : w'.Asked = w.Asked := by
  unfold Asked
  rw [haddress, hqueries]

/-- A step of the network or of a call leaves the server and the queries alone, and adds requests
only. -/
theorem Sound.of_network (hw : w.Sound) {w' : World σ} (hstation : w'.station = w.station)
    (hqueries : w'.queries = w.queries)
    (hrequests : ∀ p ∈ w'.network.waiting w.station.address,
      p ∈ w.network.waiting w.station.address ∨ ∃ q ∈ w.queries, q.client.address = p.source ∧
      q.request.toFrame = .ok p.bytes) :
    w'.Sound := by
  have hasked : w'.Asked = w.Asked := asked_congr (congrArg _ hstation) hqueries
  refine ⟨?_, ?_, ?_, ?_, ?_⟩
  · rw [hstation]
    exact hw.remembering
  · rw [hstation, hqueries]
    exact hw.clients
  · rw [hqueries]
    exact hw.distinct
  · rw [hstation, hqueries]
    intro p hp
    rcases hrequests p hp with hp | hp
    · exact hw.requests p hp
    · exact .inr hp
  · rw [hstation, hasked]
    exact hw.settled

/-- A move is made in a call that stays the same query. -/
theorem queries_moved {i : Nat} {c : OpenCall} (hi : w.calls[i]? = some c) (m : Move) :
    (w.moved i (c.move w.network m)).queries = w.queries := by
  rw [queries, moved, List.map_set, OpenCall.query_move]
  refine List.ext_getElem? fun j => ?_
  by_cases hj : i = j
  · subst hj
    have hlt : i < w.calls.length := (List.getElem?_eq_some_iff.mp hi).1
    rw [List.getElem?_set_self (by simpa using hlt), queries, List.getElem?_map, hi]
    rfl
  · rw [List.getElem?_set_ne hj, queries]

theorem query_mem {i : Nat} {c : OpenCall} (hi : w.calls[i]? = some c) : c.query ∈ w.queries :=
  List.mem_map_of_mem (List.mem_of_getElem? hi)

private theorem queries_began (w : World σ) (c : OpenCall) :
    (w.began c).queries = w.queries ++ [c.query] := by
  rw [queries, began, List.map_append]
  rfl

theorem mem_queries_began {c : OpenCall} {q : Query} :
    q ∈ (w.began c).queries ↔ q ∈ w.queries ∨ q = c.query := by
  rw [queries_began, List.mem_append, List.mem_singleton]

/-- Queries stay apart if a call begins under a key of its own. -/
theorem distinct_began (hdistinct : ∀ q ∈ w.queries, ∀ q' ∈ w.queries, q.key = q'.key → q = q')
    {c : OpenCall} (hnew : ∀ q ∈ w.queries, q.key ≠ c.query.key) :
    ∀ q ∈ (w.began c).queries, ∀ q' ∈ (w.began c).queries, q.key = q'.key → q = q' := by
  intro q hq q' hq' hkey
  rcases mem_queries_began.mp hq with hq | rfl
  · rcases mem_queries_began.mp hq' with hq' | rfl
    · exact hdistinct q hq q' hq' hkey
    · exact absurd hkey (hnew q hq)
  · rcases mem_queries_began.mp hq' with hq' | rfl
    · exact absurd hkey.symm (hnew q' hq')
    · rfl

theorem Asked.began {client : Address} {request : Envelope} (h : w.Asked client request)
    (c : OpenCall) : (w.began c).Asked client request := by
  rcases h with hown | ⟨q, hq, hclient, hrequest⟩
  · exact .inl hown
  · exact .inr ⟨q, mem_queries_began.mpr (.inl hq), hclient, hrequest⟩

private theorem sound_call (hw : w.Sound) {client : Client} {op : Operation} {id : Int32}
    {payload : String} (hmay : w.MayCall client id) :
    (w.began (.begin client op id payload)).Sound := by
  obtain ⟨hserver, haddress, hid, hnew⟩ := hmay
  refine ⟨hw.remembering, fun q hq => ?_, distinct_began hw.distinct hnew,
    fun p hp => ?_, fun k => ?_⟩
  · rcases mem_queries_began.mp hq with hq | rfl
    · exact hw.clients q hq
    · exact ⟨hserver, haddress, hid⟩
  · rcases hw.requests p hp with hown | ⟨q, hq, hsource, hframe⟩
    · exact .inl hown
    · exact .inr ⟨q, mem_queries_began.mpr (.inl hq), hsource, hframe⟩
  · exact (hw.settled k).mono fun _ _ h => h.began _

theorem mem_shuffled {b : Address} {parcels : List Parcel} (hsub : parcels ⊆ w.network.waiting a)
    (hp : p ∈ (w.network.setWaiting a fun _ => parcels).waiting b) : p ∈ w.network.waiting b := by
  rcases Network.mem_setWaiting hp with ⟨rfl, hchosen⟩ | ⟨-, hother⟩
  · exact hsub hchosen
  · exact hother

private theorem sound_move (hw : w.Sound) {i : Nat} {c : OpenCall} (hi : w.calls[i]? = some c)
    (m : Move) : (w.moved i (c.move w.network m)).Sound := by
  refine hw.of_network rfl (queries_moved hi m) fun p hp => ?_
  rcases OpenCall.mem_move hp with hp | ⟨-, hsource, hframe⟩
  · exact .inl hp
  · exact .inr ⟨c.query, query_mem hi, hsource.symm, hframe⟩

/-- What waits after the server has taken up a datagram waited before, or was sent by the server. -/
theorem mem_served {rest : List Parcel} (hrest : w.network.waiting w.station.address = p :: rest)
    {after : Station (σ × List Execution) × List (Address × List UInt8)}
    (haddress : after.1.address = w.station.address) {p' : Parcel}
    (hp : p' ∈ (w.served rest after).network.waiting a) :
    p' ∈ w.network.waiting a ∨ (p'.source = w.station.address ∧ (a, p'.bytes) ∈ after.2) := by
  rcases Exchange.mem_sendAll hp with hp | ⟨hsource, hout⟩
  · rcases Network.mem_setWaiting hp with ⟨rfl, hleft⟩ | ⟨-, hother⟩
    · rw [hrest]
      exact .inl (List.mem_cons_of_mem _ hleft)
    · exact .inl hother
  · exact .inr ⟨hsource.trans haddress, hout⟩

private theorem sound_serve (hw : w.Sound) (h : Handler σ) {rest : List Parcel}
    (hp : w.network.waiting w.station.address = p :: rest) {t : Readings}
    {after : Station (σ × List Execution) × List (Address × List UInt8)}
    (hafter : w.station.TakesUp h t n p after) : (w.served rest after).Sound := by
  have hmem : p ∈ w.network.waiting w.station.address := by
    rw [hp]
    exact List.mem_cons_self
  have haddress := hafter.address_eq
  have hstation : (w.served rest after).station.address = w.station.address := haddress
  have hasked : (w.served rest after).Asked = w.Asked := asked_congr haddress rfl
  have hserver : after.1.server.Remembering ∧ ∀ k, after.1.server.Settled w.Asked k := by
    cases hafter with
    | lost s' metrics address server =>
      rw [server]
      exact ⟨⟨hw.remembering.semantics, hw.remembering.unbounded⟩,
        fun k => (hw.settled k).congr rfl rfl⟩
    | handled s' sink out address server sends =>
      rw [server]
      exact ⟨(Server.response?_dispatch hw.remembering _ _ _ _ _).1,
        Server.settled_dispatch hw.remembering hw.settled h sink t fun request hrequest =>
          hw.asked hmem hrequest⟩
  refine ⟨hserver.1, ?_, hw.distinct, fun p' hp' => ?_, fun k => ?_⟩
  · rw [hstation]
    exact hw.clients
  · rw [hstation] at hp' ⊢
    rcases mem_served hp haddress hp' with hold | ⟨hsource, -⟩
    · exact hw.requests p' hold
    · exact .inl hsource
  · rw [hasked]
    exact hserver.2 k

theorem sound_step (hw : w.Sound) (action : Action) : (step h w action).Sound := by
  cases action with
  | call client op id payload =>
    simp only [step]
    split
    · next hmay => exact sound_call hw hmay
    · exact hw
  | move i m =>
    simp only [step]
    split
    · exact hw
    · next c hi => exact sound_move hw hi m
  | serve t lost disturbance =>
    simp only [step]
    split
    · exact hw
    · next p rest hp =>
      exact sound_serve hw h hp (Station.takesUp h t _ w.station lost disturbance p)
  | shuffle a parcels =>
    simp only [step]
    split
    · next hsub =>
      exact hw.of_network rfl rfl fun p hp => .inl (mem_shuffled hsub hp)
    · exact hw
  | link isUp => exact hw.of_network rfl rfl fun p hp => .inl hp

theorem sound_run (hw : w.Sound) (actions : List Action) : (run h w actions).Sound := by
  induction actions generalizing w with
  | nil => exact hw
  | cons action actions ih => exact ih (sound_step hw action)

end World

end DatagramRpc
