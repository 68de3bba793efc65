import DatagramRpc.Proofs.Calls.Traffic
import DatagramRpc.Proofs.Facility.Safety

/-!
# Replies

A call that succeeds returns what the server has recorded as the reply to its request, however often
the request was sent and whatever else came to the same socket: rejections have the number zero,
echoes and notifications come under numbers of other calls, and replies to other calls have other
numbers.

The network may lose, repeat and reorder what it likes. The handler must subscribe only those who
ask for it, as the one of a booking service does: a handler that subscribes others could have them
notified under the number of a call.
-/

namespace DatagramRpc

namespace World

variable {σ : Type} {h : Handler σ} {w : World σ}

structure Answering (w : World σ) : Prop where
  subscribed : w.station.server.Subscribed w.Asked
  answers : ∀ a, a ≠ w.station.address → ∀ p ∈ w.network.waiting a,
    ∃ e, e.toFrame = .ok p.bytes ∧ w.station.server.Answers w.Asked a e
  replies : ∀ c ∈ w.calls, ∀ reply, c.reply? = some reply → reply.id = c.query.request.id ∧
    w.station.server.Answers w.Asked c.query.client.address reply

/-- What a client reads of an answer is the answer, even if its buffer does not hold all of it. -/
theorem Answering.envelope (hw : w.Answering) {client : Client} {p : Parcel} {e : Envelope}
    (haddress : client.address ≠ w.station.address) (hp : p ∈ w.network.waiting client.address)
    (he : client.envelope? p = some e) : w.station.server.Answers w.Asked client.address e := by
  obtain ⟨e', hframe, hanswers⟩ := hw.answers _ haddress p hp
  have hread : Envelope.ofFrame (p.bytes.take client.options.bufferSize) = .ok e :=
    ok_of_toOption he
  obtain rfl : e = e' := Envelope.eq_of_ofFrame_take hframe hread
  exact hanswers

private theorem answering_start (isUp : Bool) (sockets : List Address) (address : Address)
    (bufferSize : Nat) (disturbance : Disturbance) (handler : σ) :
    (start isUp sockets address bufferSize disturbance handler).Answering where
  subscribed r hr := nomatch hr
  answers a _ p hp := by
    rw [waiting_start] at hp
    cases hp
  replies c hc := nomatch hc

/-- A step of the network or of a call that sends nothing to clients. -/
theorem Answering.of_network (hw : w.Answering) {w' : World σ} (hstation : w'.station = w.station)
    (hqueries : w'.queries = w.queries)
    (hwaiting : ∀ a, a ≠ w.station.address → ∀ p ∈ w'.network.waiting a, p ∈ w.network.waiting a)
    (hreplies : ∀ c ∈ w'.calls, ∀ reply, c.reply? = some reply → reply.id = c.query.request.id ∧
      w.station.server.Answers w.Asked c.query.client.address reply) : w'.Answering := by
  have hasked : w'.Asked = w.Asked := asked_congr (congrArg _ hstation) hqueries
  refine ⟨?_, ?_, ?_⟩
  · rw [hstation, hasked]
    exact hw.subscribed
  · rw [hstation, hasked]
    exact fun a ha p hp => hw.answers a ha p (hwaiting a ha p hp)
  · rw [hstation, hasked]
    exact hreplies

private theorem answering_call (hw : w.Answering) (client : Client) (op : Operation) (id : Int32)
    (payload : String) : (w.began (.begin client op id payload)).Answering := by
  have hmono : ∀ {a e}, w.station.server.Answers w.Asked a e →
      w.station.server.Answers (w.began (.begin client op id payload)).Asked a e :=
    fun ha => ha.mono (fun _ _ h => h.began _) fun _ _ _ hk _ => hk
  refine ⟨fun r hr => ?_, fun a ha p hp => ?_, fun c hc reply hreply => ?_⟩
  · obtain ⟨request, hasks, hrequest⟩ := hw.subscribed r hr
    exact ⟨request, hasks.began _, hrequest⟩
  · obtain ⟨e, hframe, hanswers⟩ := hw.answers a ha p hp
    exact ⟨e, hframe, hmono hanswers⟩
  · rcases List.mem_append.mp hc with hc | hc
    · obtain ⟨hid, hanswers⟩ := hw.replies c hc reply hreply
      exact ⟨hid, hmono hanswers⟩
    · rw [List.mem_singleton.mp hc, OpenCall.reply?_begin] at hreply
      cases hreply

private theorem answering_move (hs : w.Sound) (hw : w.Answering) {i : Nat} {c : OpenCall}
    (hi : w.calls[i]? = some c) (m : Move) : (w.moved i (c.move w.network m)).Answering := by
  have hclient := hs.clients c.query (query_mem hi)
  refine hw.of_network rfl (queries_moved hi m) (fun a ha p hp => ?_) fun c' hc' reply hreply => ?_
  · rcases OpenCall.mem_move hp with hp | ⟨hserver, -⟩
    · exact hp
    · exact absurd (hserver.trans hclient.1) ha
  · rcases List.mem_or_eq_of_mem_set hc' with hc' | rfl
    · exact hw.replies c' hc' reply hreply
    · rw [OpenCall.query_move]
      rcases OpenCall.reply?_move hreply with hold | ⟨hid, p, hp, henvelope⟩
      · exact hw.replies c (List.mem_of_getElem? hi) reply hold
      · exact ⟨hid, hw.envelope hclient.2.1 hp henvelope⟩

/-- What the server makes of a datagram: it forgets no reply, and sends only answers. -/
theorem answers_takesUp (hs : w.Sound) (hw : w.Answering) (hh : h.SubscribesCaller) {p : Parcel}
    (hp : p ∈ w.network.waiting w.station.address) {n : Network} {t : Readings}
    {after : Station (σ × List Execution) × List (Address × List UInt8)}
    (hafter : w.station.TakesUp h t n p after) :
    after.1.server.Subscribed w.Asked ∧
      (∀ k record, w.station.server.history.find? k = some record →
        after.1.server.history.find? k = some record) ∧
      ∀ a bytes, (a, bytes) ∈ after.2 →
        ∃ e, e.toFrame = .ok bytes ∧ after.1.server.Answers w.Asked a e := by
  cases hafter with
  | lost s' metrics address server =>
    rw [server]
    exact ⟨hw.subscribed, fun k record hk => hk, fun a bytes hout => nomatch hout⟩
  | handled s' sink out address server sends =>
    have hread : ∀ request, Envelope.ofFrame (p.bytes.take w.station.bufferSize) = .ok request →
        w.Asked p.source request := fun request hrequest => hs.asked hp hrequest
    have hsub := Server.subscribed_dispatch hs.remembering hw.subscribed hh sink t hread
    rw [server]
    refine ⟨hsub, fun k record hk => Server.find?_dispatch hs.remembering _ sink t _ _ hk,
      fun a bytes hout => ?_⟩
    rcases sends a bytes hout with ⟨rfl, hframe⟩ | ⟨attempt, hattempt, hdatagram⟩
    · exact ⟨_, hframe, Server.answers_reply hs.remembering hs.settled sink t hread⟩
    · have hanswers := Server.answers_publication hs.remembering h.logged sink t p.source
        (p.bytes.take w.station.bufferSize) hsub hattempt
      rw [hdatagram] at hanswers
      exact hanswers

private theorem answering_serve (hs : w.Sound) (hw : w.Answering) (hh : h.SubscribesCaller)
    {p : Parcel} {rest : List Parcel} (hp : w.network.waiting w.station.address = p :: rest)
    {n : Network} {t : Readings}
    {after : Station (σ × List Execution) × List (Address × List UInt8)}
    (hafter : w.station.TakesUp h t n p after) : (w.served rest after).Answering := by
  have hmem : p ∈ w.network.waiting w.station.address := by
    rw [hp]
    exact List.mem_cons_self
  have haddress := hafter.address_eq
  have hasked : (w.served rest after).Asked = w.Asked := asked_congr haddress rfl
  obtain ⟨hsub, hknown, hsends⟩ := answers_takesUp hs hw hh hmem hafter
  have hmono : ∀ {a e}, w.station.server.Answers w.Asked a e → after.1.server.Answers w.Asked a e :=
    fun ha => ha.mono (fun _ _ h => h) fun k record _ hk _ => hknown k record hk
  refine ⟨?_, fun a ha p' hp' => ?_, fun c hc reply hreply => ?_⟩
  · rw [hasked]
    exact hsub
  · rw [hasked]
    replace ha : a ≠ w.station.address := haddress ▸ ha
    rcases mem_served hp haddress hp' with hold | ⟨-, hout⟩
    · obtain ⟨e, hframe, hanswers⟩ := hw.answers a ha p' hold
      exact ⟨e, hframe, hmono hanswers⟩
    · exact hsends a p'.bytes hout
  · rw [hasked]
    obtain ⟨hid, hanswers⟩ := hw.replies c hc reply hreply
    exact ⟨hid, hmono hanswers⟩

private theorem answering_step (hs : w.Sound) (hw : w.Answering) (hh : h.SubscribesCaller)
    (action : Action) : (step h w action).Answering := by
  cases action with
  | call client op id payload =>
    simp only [step]
    split
    · exact answering_call hw client op id payload
    · exact hw
  | move i m =>
    simp only [step]
    split
    · exact hw
    · next c hi => exact answering_move hs hw hi m
  | serve t lost disturbance =>
    simp only [step]
    split
    · exact hw
    · next p rest hp =>
      exact answering_serve hs hw hh hp (Station.takesUp h t _ w.station lost disturbance p)
  | shuffle a parcels =>
    simp only [step]
    split
    · next hsub =>
      refine hw.of_network rfl rfl (fun b _ p hp => ?_) hw.replies
      rcases Network.mem_setWaiting hp with ⟨rfl, hchosen⟩ | ⟨-, hother⟩
      · exact hsub hchosen
      · exact hother
    · exact hw
  | link isUp => exact hw.of_network rfl rfl (fun a _ p hp => hp) hw.replies

private theorem answering_run (hs : w.Sound) (hw : w.Answering) (hh : h.SubscribesCaller)
    (actions : List Action) : (run h w actions).Answering := by
  induction actions generalizing w with
  | nil => exact hw
  | cons action actions ih => exact ih (sound_step hs action) (answering_step hs hw hh action)

/-! ## The main statement -/

/-- The server executes the request of a call once or never. -/
theorem Sound.executions (hw : w.Sound) {q : Query} (hq : q ∈ w.queries) :
    w.executions q.key = [] ∨ w.executions q.key = [q.request] := by
  cases hw.settled q.key with
  | new unknown never => exact .inl never
  | done request payload known once number noEcho asks =>
    rcases asks with hown | ⟨q', hq', hclient, rfl⟩
    · exact absurd hown (hw.clients q hq).2.1
    · have hkey : q'.key = q.key := by
        rw [Query.key, number, hclient]
      rw [hw.distinct q' hq' q hq hkey] at once
      exact .inr once

/-- An answer under the number of a call is the reply to it, or the call is one that is not answered
only once. -/
theorem Sound.known_of_answers (hw : w.Sound) {q : Query} (hq : q ∈ w.queries) {reply : Envelope}
    (hid : reply.id = q.request.id) (hecho : q.request.operation ≠ .echo)
    (hmonitor : q.request.operation ≠ .monitor)
    (ha : w.station.server.Answers w.Asked q.client.address reply) :
    w.executions q.key = [q.request] ∧
      w.station.server.history.find? q.key = some ⟨q.request, q.client.address, some reply⟩ ∧
      ∃ payload, reply = q.request.reply payload := by
  obtain ⟨-, haddress, hnumber⟩ := hw.clients q hq
  have hsame : ∀ request, w.Asked q.client.address request → request.id = reply.id →
      request = q.request := by
    intro request hasks hrequest
    rcases hasks with hown | ⟨q', hq', hclient, rfl⟩
    · exact absurd hown haddress
    · have hkey : q'.key = q.key := by
        rw [Query.key, Query.key, hrequest, hid, hclient]
      rw [hw.distinct q' hq' q hq hkey]
  cases ha with
  | rejection number => exact absurd (hid.symm.trans number) hnumber
  | echo request asks number op => exact absurd (hsame request asks number ▸ op) hecho
  | notice request asks number op => exact absurd (hsame request asks number ▸ op) hmonitor
  | reply request known =>
    rw [hid] at known
    cases hw.settled q.key with
    | new unknown never =>
      have hnone := unknown.symm.trans known
      cases hnone
    | done request' payload known' once number noEcho asks =>
      have hrecords := Option.some.inj (known'.symm.trans known)
      obtain ⟨rfl, -, hreply⟩ := InvocationRecord.mk.inj hrecords
      have hrequest : request' = q.request := hsame request' asks (number.trans hid.symm)
      rw [hrequest] at once known hreply
      exact ⟨once, known, payload, (Option.some.inj hreply).symm⟩

/-- **Calls over a lossy network** are executed at most once, and return nothing but the recorded
reply to their own request, which was executed once. -/
theorem calls_answered_once (h : Handler σ) (handler : σ) (isUp : Bool) (sockets : List Address)
    (address : Address) (bufferSize : Nat) (disturbance : Disturbance) (actions : List Action) :
    let w := run h (start isUp sockets address bufferSize disturbance handler) actions
    (∀ supply, (BookingService.handler supply).SubscribesCaller) ∧ ∀ c ∈ w.calls,
      (w.executions c.query.key = [] ∨ w.executions c.query.key = [c.query.request]) ∧
      (h.SubscribesCaller → c.query.request.operation ≠ .echo →
        c.query.request.operation ≠ .monitor → ∀ reply, c.reply? = some reply →
          w.executions c.query.key = [c.query.request] ∧
          w.station.server.history.lookup c.query.request.id c.query.client.address =
            some ⟨c.query.request, c.query.client.address, some reply⟩ ∧
          ∃ payload, reply = c.query.request.reply payload) := by
  intro w
  refine ⟨BookingService.subscribesCaller, fun c hc => ?_⟩
  have hs : w.Sound := sound_run (sound_start ..) actions
  have hq : c.query ∈ w.queries := List.mem_map_of_mem hc
  refine ⟨hs.executions hq, fun hh hecho hmonitor reply hreply => ?_⟩
  have hw : w.Answering := answering_run (sound_start ..) (answering_start ..) hh actions
  obtain ⟨hid, hanswers⟩ := hw.replies c hc reply hreply
  exact hs.known_of_answers hq hid hecho hmonitor hanswers

open BookingService (sampleBooking sampleIds sampleStart sampleSubscription)

def sampleServer : Address := ⟨Network.loopback, 8888⟩

def sampleCaller (port : UInt16) : Client := ⟨⟨Network.loopback, port⟩, sampleServer, .default, 1⟩

/-- One client subscribes. Another one books, and sends its request again when no reply comes in
time. The network delivers the first one twice, and the server loses one of the three. -/
def sampleActions : List Action :=
  let ann := sampleCaller 40001
  let bob := sampleCaller 40002
  let booking : Parcel := ⟨bob.address, (sampleBooking 7).toFrame.toOption.getD []⟩
  let serve := Action.serve (.at ⟨0⟩) false .disabled
  [.call ann .monitor 7 (sampleSubscription 7 "60").payload, .move 0 .send, serve, .move 0 .receive,
    .call bob .write 7 (sampleBooking 7).payload, .move 1 .send,
    .shuffle sampleServer [booking, booking],
    .move 1 .expire, .move 1 .send, .serve (.at ⟨0⟩) true .disabled, serve, serve, .move 1 .receive]

def sampleSockets : List Address :=
  [sampleServer, (sampleCaller 40001).address, (sampleCaller 40002).address]

def sampleWorld : World BookingService :=
  run (BookingService.handler sampleIds)
    (start true sampleSockets sampleServer 1024 .disabled sampleStart) sampleActions

theorem calls_answered_once_sample :
    ∃ c ∈ sampleWorld.calls, c.query.request = sampleBooking 7 ∧ ∃ reply, c.reply? = some reply ∧
      sampleWorld.executions c.query.key = [sampleBooking 7] ∧
      sampleWorld.station.server.history.lookup (sampleBooking 7).id c.query.client.address =
        some ⟨sampleBooking 7, c.query.client.address, some reply⟩ := by
  have hcall : (sampleWorld.calls[1]?.map fun c => (c.query.request, c.reply?.isSome)) =
      some (sampleBooking 7, true) := by decide +kernel
  obtain ⟨c, hc, hpair⟩ := Option.map_eq_some_iff.mp hcall
  obtain ⟨hrequest, hsome⟩ := Prod.mk.inj hpair
  obtain ⟨reply, hreply⟩ := Option.isSome_iff_exists.mp hsome
  have hmem : c ∈ sampleWorld.calls := List.mem_of_getElem? hc
  have hecho : c.query.request.operation ≠ .echo := by
    rw [hrequest]
    decide
  have hmonitor : c.query.request.operation ≠ .monitor := by
    rw [hrequest]
    decide
  have hrun := calls_answered_once (BookingService.handler sampleIds)
    sampleStart true sampleSockets sampleServer 1024 .disabled sampleActions
  rw [← sampleWorld] at hrun
  obtain ⟨hsubscribes, hcalls⟩ := hrun
  obtain ⟨-, hanswered⟩ := hcalls c hmem
  obtain ⟨honce, hknown, -⟩ := hanswered (hsubscribes _) hecho hmonitor reply hreply
  rw [hrequest] at honce hknown
  exact ⟨c, hmem, hrequest, reply, hreply, honce, hknown⟩

end World

end DatagramRpc
