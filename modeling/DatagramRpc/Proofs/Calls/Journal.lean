import DatagramRpc.Proofs.Calls.Traffic
import DatagramRpc.Proofs.Server.Handled

/-!
# Runs with a journal

Clients and a server on a lossy network, with a journal of what the server has handled. The server
may remember any number of requests, and clients may use any number once, also zero. Everything that
waits at a socket or has been returned by a call was sent because of some datagram in the journal,
and each of these is a request of a call.
-/

namespace DatagramRpc

variable {σ : Type}

namespace Station

/-- Sends succeed as the network lets them. -/
def sink (n : Network) : Sink := fun _ d => (n.checkSend d.receiver.host d.frame.length).isOk

/-- What a server with a socket makes of a datagram that it does not lose. -/
def handled (h : Handler σ) (t : Readings) (n : Network) (s : Station (σ × List Execution))
    (p : Parcel) : Handled σ :=
  let frame := p.bytes.take s.bufferSize
  let after := s.server.dispatch h.logged (sink n) t p.source frame
  ⟨p.source, frame, after.1.handler.1, after.2⟩

private theorem mem_takeUp {h : Handler σ} {t : Readings} {n : Network}
    {s : Station (σ × List Execution)} {disturbance : Disturbance} {p : Parcel} {a : Address}
    {bytes : List UInt8} (hout : (a, bytes) ∈ (s.takeUp h.logged t n false disturbance p).2) :
    (s.handled h t n p).Sends a bytes := by
  rcases List.mem_append.mp hout with hout | hout
  · obtain ⟨attempt, hattempt, hd⟩ := List.mem_map.mp hout
    cases hd
    exact .notice attempt hattempt rfl
  · obtain ⟨frame, hframe, hd⟩ := Option.map_eq_some_iff.mp (Option.mem_toList.mp hout)
    cases hd
    exact .answer rfl (ok_of_toOption hframe)

end Station

namespace World

variable {h : Handler σ} {w w' : World σ} {past : List (Handled σ)} {a : Address}

private theorem follows_concat {x : Handled σ}
    (hpast : ∀ before x after, past = before ++ x :: after → x.Follows h before)
    (hx : x.Follows h past) :
    ∀ before y after, past ++ [x] = before ++ y :: after → y.Follows h before := by
  intro before y after he
  rcases List.eq_nil_or_concat after with rfl | ⟨after', last, rfl⟩
  · obtain ⟨rfl, hy⟩ := List.append_inj' he rfl
    cases hy
    exact hx
  · rw [List.concat_eq_append, ← List.cons_append, ← List.append_assoc] at he
    exact hpast before y after' (List.append_inj' he rfl).1

/-- Before anything is sent. The server remembers so many requests, or all of them if the number is
zero. -/
def opening (limit : Nat) (isUp : Bool) (sockets : List Address) (address : Address)
    (bufferSize : Nat) (disturbance : Disturbance) (handler : σ) : World σ :=
  { start isUp sockets address bufferSize disturbance handler with
    station := ⟨address, bufferSize, .start .atMostOnce limit (handler, []), disturbance⟩ }

/-- Clients of the server have sockets of their own, and use no number twice. -/
def MayOpen (w : World σ) (client : Client) (id : Int32) : Prop :=
  client.server = w.station.address ∧ client.address ≠ w.station.address ∧
    ∀ q ∈ w.queries, q.key ≠ ⟨id, client.address⟩

instance (w : World σ) (client : Client) (id : Int32) : Decidable (w.MayOpen client id) :=
  inferInstanceAs (Decidable (_ ∧ _))

/-- As `step`, but a call may have any number that its client has not used. -/
def advance (h : Handler σ) (w : World σ) : Action → World σ
  | .call client op id payload =>
    if w.MayOpen client id then w.began (.begin client op id payload) else w
  | action => w.step h action

def advances (h : Handler σ) (w : World σ) (actions : List Action) : World σ :=
  actions.foldl (advance h) w

/-- What an action adds to the journal. -/
def entries (h : Handler σ) (w : World σ) : Action → List (Handled σ)
  | .serve t false _ =>
    match w.network.waiting w.station.address with
    | [] => []
    | p :: rest => [w.station.handled h t (w.taken rest) p]
  | _ => []

/-- The datagrams that the server handles in a run, in order. -/
def journal (h : Handler σ) : World σ → List Action → List (Handled σ)
  | _, [] => []
  | w, action :: actions => w.entries h action ++ journal h (w.advance h action) actions

/-- What the server has handled was asked of it, and explains what it knows and what it has sent. -/
structure Explained (w : World σ) (h : Handler σ) (past : List (Handled σ)) : Prop where
  kept : w.station.server.Kept h past
  clients : ∀ q ∈ w.queries, q.client.server = w.station.address ∧
    q.client.address ≠ w.station.address
  distinct : ∀ q ∈ w.queries, ∀ q' ∈ w.queries, q.key = q'.key → q = q'
  requests : ∀ p ∈ w.network.waiting w.station.address, p.source = w.station.address ∨
    ∃ q ∈ w.queries, q.client.address = p.source ∧ q.request.toFrame = .ok p.bytes
  asked : ∀ x ∈ past, ∀ request, Envelope.ofFrame x.frame = .ok request → w.Asked x.client request
  follows : ∀ before x after, past = before ++ x :: after → x.Follows h before
  sent : ∀ a, a ≠ w.station.address → ∀ p ∈ w.network.waiting a, ∃ x ∈ past, x.Sends a p.bytes
  replies : ∀ c ∈ w.calls, ∀ reply, c.reply? = some reply → reply.id = c.query.request.id ∧
    ∃ bytes, reply.toFrame = .ok bytes ∧ ∃ x ∈ past, x.Sends c.query.client.address bytes

theorem explained_opening (limit : Nat) (isUp : Bool) (sockets : List Address) (address : Address)
    (bufferSize : Nat) (disturbance : Disturbance) (handler : σ) :
    (opening limit isUp sockets address bufferSize disturbance handler).Explained h [] := by
  have hnone (a : Address) :
      (opening limit isUp sockets address bufferSize disturbance handler).network.waiting a = [] :=
    waiting_start isUp sockets address a bufferSize disturbance handler
  constructor
  case kept => exact ⟨rfl, History.labelled_empty limit, fun r hr => nomatch hr⟩
  case clients => exact fun q hq => nomatch hq
  case distinct => exact fun q hq => nomatch hq
  case requests =>
    intro p hp
    rw [hnone] at hp
    cases hp
  case asked => exact fun x hx => nomatch hx
  case follows =>
    intro before x after he
    cases before <;> cases he
  case sent =>
    intro a _ p hp
    rw [hnone] at hp
    cases hp
  case replies => exact fun c hc => nomatch hc

/-- A step of the network or of a call leaves the server and the queries alone, and adds requests
only. -/
theorem Explained.of_network (hw : w.Explained h past) (hstation : w'.station = w.station)
    (hqueries : w'.queries = w.queries)
    (hrequests : ∀ p ∈ w'.network.waiting w.station.address,
      p ∈ w.network.waiting w.station.address ∨ ∃ q ∈ w.queries, q.client.address = p.source ∧
      q.request.toFrame = .ok p.bytes)
    (hwaiting : ∀ a, a ≠ w.station.address → ∀ p ∈ w'.network.waiting a, p ∈ w.network.waiting a)
    (hreplies : ∀ c ∈ w'.calls, ∀ reply, c.reply? = some reply → reply.id = c.query.request.id ∧
      ∃ bytes, reply.toFrame = .ok bytes ∧ ∃ x ∈ past, x.Sends c.query.client.address bytes) :
    w'.Explained h past := by
  have hasked : w'.Asked = w.Asked := asked_congr (congrArg _ hstation) hqueries
  refine ⟨hstation ▸ hw.kept, ?_, hqueries ▸ hw.distinct, ?_, hasked ▸ hw.asked,
    hw.follows, ?_, hreplies⟩
  · rw [hstation, hqueries]
    exact hw.clients
  · rw [hstation, hqueries]
    intro p hp
    exact (hrequests p hp).elim (hw.requests p) .inr
  · rw [hstation]
    exact fun a ha p hp => hw.sent a ha p (hwaiting a ha p hp)

private theorem explained_call (hw : w.Explained h past) {client : Client} {op : Operation}
    {id : Int32} {payload : String} (hmay : w.MayOpen client id) :
    (w.began (.begin client op id payload)).Explained h past := by
  obtain ⟨hserver, haddress, hnew⟩ := hmay
  refine ⟨hw.kept, fun q hq => ?_, distinct_began hw.distinct hnew, fun p hp => ?_,
    fun x hx request hread => (hw.asked x hx request hread).began _, hw.follows, hw.sent,
    fun c hc reply hreply => ?_⟩
  · rcases mem_queries_began.mp hq with hq | rfl
    · exact hw.clients q hq
    · exact ⟨hserver, haddress⟩
  · exact (hw.requests p hp).imp_right fun ⟨q, hq, hrequest⟩ =>
      ⟨q, mem_queries_began.mpr (.inl hq), hrequest⟩
  · rcases List.mem_append.mp hc with hc | hc
    · exact hw.replies c hc reply hreply
    · rw [List.mem_singleton.mp hc, OpenCall.reply?_begin] at hreply
      cases hreply

private theorem Explained.written (hw : w.Explained h past) {x : Handled σ} (hx : x ∈ past)
    {bytes : List UInt8} (hsends : x.Sends a bytes) : ∃ e : Envelope, e.toFrame = .ok bytes := by
  cases hsends with
  | answer client written => exact ⟨_, written⟩
  | notice attempt tried datagram =>
    obtain ⟨before, after, hsplit⟩ := List.append_of_mem hx
    obtain ⟨r, message, htells, -⟩ := (hw.follows before x after hsplit).notifies attempt tried
    have hframe := htells.written
    rw [datagram] at hframe
    exact ⟨_, hframe⟩

/-- A call returns what was sent to its socket, even if its buffer does not hold all of it. -/
theorem explained_move (hw : w.Explained h past) {i : Nat} {c : OpenCall}
    (hi : w.calls[i]? = some c) (m : Move) : (w.moved i (c.move w.network m)).Explained h past := by
  obtain ⟨hserver, haddress⟩ := hw.clients c.query (query_mem hi)
  refine hw.of_network rfl (queries_moved hi m) (fun p hp => ?_)
    (fun a ha p hp => ?_) fun c' hc' reply hreply => ?_
  · rcases OpenCall.mem_move hp with hp | ⟨-, hsource, hframe⟩
    · exact .inl hp
    · exact .inr ⟨c.query, query_mem hi, hsource.symm, hframe⟩
  · rcases OpenCall.mem_move hp with hp | ⟨ha', -⟩
    · exact hp
    · exact absurd (ha'.trans hserver) ha
  · rcases List.mem_or_eq_of_mem_set hc' with hc' | rfl
    · exact hw.replies c' hc' reply hreply
    · rw [OpenCall.query_move]
      rcases OpenCall.reply?_move hreply with hold | ⟨hid, p, hp, henvelope⟩
      · exact hw.replies c (List.mem_of_getElem? hi) reply hold
      · obtain ⟨x, hx, hsends⟩ := hw.sent _ haddress p hp
        obtain ⟨e, he⟩ := hw.written hx hsends
        have hread : Envelope.ofFrame
            (p.bytes.take c.query.client.options.bufferSize) = .ok reply :=
          ok_of_toOption henvelope
        obtain rfl : reply = e := Envelope.eq_of_ofFrame_take he hread
        exact ⟨hid, p.bytes, he, x, hx, hsends⟩

/-- A datagram that the server loses leaves nothing behind. -/
theorem explained_lost (hw : w.Explained h past) {p : Parcel} {rest : List Parcel}
    (hp : w.network.waiting w.station.address = p :: rest) (t : Readings)
    (disturbance : Disturbance) :
    (w.served rest
      (w.station.takeUp h.logged t (w.taken rest) true disturbance p)).Explained h past := by
  have hold (a : Address) {p' : Parcel} (hp' : p' ∈ (w.served rest
      (w.station.takeUp h.logged t (w.taken rest) true disturbance p)).network.waiting a) :
      p' ∈ w.network.waiting a :=
    (mem_served hp rfl hp').resolve_right fun hsent => nomatch hsent.2
  exact ⟨hw.kept.of_metrics _, hw.clients, hw.distinct, fun p' hp' => hw.requests p' (hold _ hp'),
    hw.asked, hw.follows, fun a ha p' hp' => hw.sent a ha p' (hold a hp'), hw.replies⟩

/-- A datagram that the server handles is one more in the journal. -/
theorem explained_handled (hw : w.Explained h past) (hh : h.SubscribesCaller) {p : Parcel}
    {rest : List Parcel} (hp : w.network.waiting w.station.address = p :: rest) (t : Readings)
    (disturbance : Disturbance) :
    (w.served rest (w.station.takeUp h.logged t (w.taken rest) false disturbance p)).Explained h
      (past ++ [w.station.handled h t (w.taken rest) p]) := by
  have hmem : p ∈ w.network.waiting w.station.address := by
    rw [hp]
    exact List.mem_cons_self
  have hold : past ⊆ past ++ [w.station.handled h t (w.taken rest) p] := List.subset_append_left ..
  obtain ⟨hkept, hfollows⟩ := hw.kept.dispatch hh (Station.sink (w.taken rest)) t p.source
    (p.bytes.take w.station.bufferSize)
  constructor
  case kept => exact hkept
  case clients => exact hw.clients
  case distinct => exact hw.distinct
  case requests =>
    intro p' hp'
    rcases mem_served hp rfl hp' with hp' | ⟨hsource, -⟩
    · exact hw.requests p' hp'
    · exact .inl hsource
  case asked =>
    intro x hx request hread
    rcases List.mem_append.mp hx with hx | hx
    · exact hw.asked x hx request hread
    · rw [List.mem_singleton.mp hx] at hread ⊢
      exact asked_of_read (hw.requests p hmem) hread
  case follows => exact follows_concat hw.follows hfollows
  case sent =>
    intro a ha p' hp'
    rcases mem_served hp rfl hp' with hp' | ⟨-, hout⟩
    · obtain ⟨x, hx, hsends⟩ := hw.sent a ha p' hp'
      exact ⟨x, hold hx, hsends⟩
    · exact ⟨_, List.mem_append_right _ List.mem_cons_self, Station.mem_takeUp hout⟩
  case replies =>
    intro c hc reply hreply
    obtain ⟨hid, bytes, hframe, x, hx, hsends⟩ := hw.replies c hc reply hreply
    exact ⟨hid, bytes, hframe, x, hold hx, hsends⟩

private theorem explained_advance (hw : w.Explained h past) (hh : h.SubscribesCaller)
    (action : Action) : (w.advance h action).Explained h (past ++ w.entries h action) := by
  cases action with
  | call client op id payload =>
    simp only [advance, entries, List.append_nil]
    split
    · next hmay => exact explained_call hw hmay
    · exact hw
  | move i m =>
    simp only [advance, step, entries, List.append_nil]
    split
    · exact hw
    · next c hi => exact explained_move hw hi m
  | serve t lost disturbance =>
    simp only [advance, step]
    cases hp : w.network.waiting w.station.address with
    | nil =>
      have hquiet : w.entries h (.serve t lost disturbance) = [] := by
        cases lost <;> simp only [entries, hp]
      rw [hquiet, List.append_nil]
      exact hw
    | cons p rest =>
      cases lost with
      | true =>
        simp only [entries, List.append_nil]
        exact explained_lost hw hp t disturbance
      | false =>
        simp only [entries, hp]
        exact explained_handled hw hh hp t disturbance
  | shuffle a parcels =>
    simp only [advance, step, entries, List.append_nil]
    split
    · next hsub =>
      exact hw.of_network rfl rfl (fun p hp => .inl (mem_shuffled hsub hp))
        (fun b _ p hp => mem_shuffled hsub hp)
        hw.replies
    · exact hw
  | link isUp =>
    simp only [advance, step, entries, List.append_nil]
    exact hw.of_network rfl rfl (fun p hp => .inl hp) (fun a _ p hp => hp) hw.replies

/-- **The journal of a run explains what is under way.** -/
theorem explained_run (hw : w.Explained h past) (hh : h.SubscribesCaller) (actions : List Action) :
    (w.advances h actions).Explained h (past ++ w.journal h actions) := by
  induction actions generalizing w past with
  | nil =>
    rw [journal, List.append_nil]
    exact hw
  | cons action actions ih =>
    have hrest := ih (explained_advance hw hh action)
    rw [List.append_assoc] at hrest
    exact hrest

end World

end DatagramRpc
