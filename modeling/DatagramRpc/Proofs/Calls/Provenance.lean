import DatagramRpc.Proofs.Calls.Journal
import DatagramRpc.Proofs.Calls.Replies

/-!
# Where a returned envelope comes from

A notification has the operation and the number of the request that subscribed, so that nothing
tells it from the reply. A call for a subscription returns whichever of the two comes first to its
socket: the reply may be lost while another client changes what has been subscribed to. It never
returns the reply to another call, nor a notification for another call's subscription. A call under
the number zero may also return the rejection of a datagram.

This holds whatever the network does, whatever the server forgets and whichever numbers the clients
use, provided that no client uses one twice and that the handler subscribes only those who ask for
it, as the one of a booking service does.
-/

namespace DatagramRpc

variable {σ : Type}

/-- Where the envelope that a call returns comes from, given what the server has handled. -/
inductive Origin (h : Handler σ) (past : List (Handled σ)) (q : Query) (e : Envelope) : Prop
  /-- The server has answered this to the request of the call. -/
  | reply (x : Handled σ) (handled : x ∈ past) (request : x.Of q.client.address q.request)
      (answered : x.answer.reply = e)
  /-- The server has executed the request of the call, which asked for a subscription. Later it has
  executed a request that changed the resource of this subscription, and sent what the handler then
  said of the resource. -/
  | notice (before after : List (Handled σ)) (subscribing changing : Handled σ)
      (split : past = before ++ changing :: after) (earlier : subscribing ∈ before)
      (request : subscribing.Of q.client.address q.request)
      (monitor : q.request.operation = .monitor)
      (executed : subscribing.answer.disposition = .executed)
      (record : MonitorRecord) (subscribed : subscribing.Subscribes h record)
      (owner : record.client = q.client.address) (number : record.requestId = q.request.id)
      (changes : changing.Changes h record.resource) (message : String)
      (snapshot : h.snapshot changing.state record.resource = .ok message)
      (announced : e = Registry.notice record message)
      (attempt : Attempt) (tried : attempt ∈ changing.answer.publication.attempts)
      (receiver : attempt.datagram.receiver = q.client.address)
      (written : e.toFrame = .ok attempt.datagram.frame)
  /-- The number of the call is zero, under which the server has rejected a datagram of its
  client. -/
  | rejection (x : Handled σ) (handled : x ∈ past) (client : x.client = q.client.address)
      (rejected : x.answer.disposition = .rejected) (number : q.request.id = 0)
      (answered : x.answer.reply = e)

namespace World

variable {w : World σ} {h : Handler σ} {past : List (Handled σ)} {q : Query}

private theorem toFrame_inj {e e' : Envelope} {bytes : List UInt8} (he : e.toFrame = .ok bytes)
    (he' : e'.toFrame = .ok bytes) : e = e' :=
  Except.ok.inj ((Envelope.ofFrame_toFrame he).symm.trans (Envelope.ofFrame_toFrame he'))

/-- A request that the server has handled under the number and for the client of a call is the one
of the call. -/
theorem Explained.of_number (hw : w.Explained h past) (hq : q ∈ w.queries) {x : Handled σ}
    (hx : x ∈ past) {request : Envelope} (hof : x.Of q.client.address request)
    (hid : request.id = q.request.id) : x.Of q.client.address q.request := by
  obtain ⟨hclient, hread⟩ := hof
  suffices hrequest : request = q.request from ⟨hclient, hrequest ▸ hread⟩
  rcases hw.asked x hx request hread with hown | ⟨q', hq', haddress, rfl⟩
  · exact absurd (hclient.symm.trans hown) (hw.clients q hq).2
  · have hkey : q'.key = q.key := by rw [Query.key, Query.key, hid, haddress, hclient]
    rw [hw.distinct q' hq' q hq hkey]

/-- What was sent to the socket of a call under its number. -/
theorem Explained.origin (hw : w.Explained h past) (hq : q ∈ w.queries) {e : Envelope}
    {bytes : List UInt8} (hframe : e.toFrame = .ok bytes) (hid : e.id = q.request.id)
    {x : Handled σ} (hx : x ∈ past) (hsends : x.Sends q.client.address bytes) :
    Origin h past q e := by
  obtain ⟨before, after, hsplit⟩ := List.append_of_mem hx
  have hfollows := hw.follows before x after hsplit
  cases hsends with
  | answer client written =>
    obtain rfl : x.answer.reply = e := toFrame_inj written hframe
    cases hfollows.answers with
    | request decoded number accepted =>
      exact .reply x hx (hw.of_number hq hx ⟨client, decoded⟩ (number.symm.trans hid)) rfl
    | malformed refused number rejected =>
      exact .rejection x hx client rejected (hid.symm.trans number) rfl
  | notice attempt tried datagram =>
    obtain ⟨r, message, htells, y, hy, hsubscribes⟩ := hfollows.notifies attempt tried
    have hreceiver : attempt.datagram.receiver = q.client.address := by rw [datagram]
    have hbytes : attempt.datagram.frame = bytes := by rw [datagram]
    have howner : r.client = q.client.address := htells.receiver.symm.trans hreceiver
    obtain rfl : Registry.notice r message = e := toFrame_inj htells.written (hbytes ▸ hframe)
    -- The notification has the number of the subscription.
    have hnumber : r.requestId = q.request.id := hid
    have ⟨request, hof, hop, hasked, hexecuted, _⟩ := hsubscribes
    have hpast : y ∈ past := hsplit ▸ List.mem_append_left _ hy
    have hown := hw.of_number hq hpast (howner ▸ hof) (hasked.trans hnumber)
    obtain rfl : request = q.request := Except.ok.inj (hof.2.symm.trans hown.2)
    exact .notice before after y x hsplit hy hown hop hexecuted r hsubscribes howner hnumber
      htells.changes message htells.snapshot rfl attempt tried hreceiver htells.written

/-! ## The main statement -/

/-- **A call returns what came of its own request**: an answer to it, a notification for the
subscription that it asked for, or a rejection under the number zero. -/
theorem returned_from_own_request (h : Handler σ) (handler : σ) (limit : Nat) (isUp : Bool)
    (sockets : List Address) (address : Address) (bufferSize : Nat) (disturbance : Disturbance)
    (actions : List Action) :
    let start := opening limit isUp sockets address bufferSize disturbance handler
    (∀ supply, (BookingService.handler supply).SubscribesCaller) ∧
      (h.SubscribesCaller → ∀ c ∈ (start.advances h actions).calls, ∀ reply,
        c.reply? = some reply →
        reply.id = c.query.request.id ∧ Origin h (start.journal h actions) c.query reply) := by
  intro start
  refine ⟨BookingService.subscribesCaller, fun hh c hc reply hreply => ?_⟩
  have hw : (start.advances h actions).Explained h (start.journal h actions) :=
    explained_run
      (explained_opening limit isUp sockets address bufferSize disturbance handler) hh actions
  obtain ⟨hid, bytes, hframe, x, hx, hsends⟩ := hw.replies c hc reply hreply
  exact ⟨hid, hw.origin (List.mem_map_of_mem hc) hframe hid hx hsends⟩

/-! ## A reply that is lost -/

open BookingService (handler sampleBooking sampleIds sampleNotice sampleStart sampleSubscription)

/-- A client subscribes, and the reply to it is lost. Another one books, and the first is
notified. -/
def sampleLoss : List Action :=
  let ann := sampleCaller 40001
  let bob := sampleCaller 40002
  let serve := Action.serve (.at ⟨0⟩) false .disabled
  [.call ann .monitor 7 (sampleSubscription 7 "60").payload, .move 0 .send, serve,
    .shuffle ann.address [], .call bob .write 7 (sampleBooking 7).payload, .move 1 .send, serve,
    .move 0 .receive]

/-- A server that remembers one request only. -/
def sampleOpening : World BookingService :=
  opening 1 true sampleSockets sampleServer 1024 .disabled sampleStart

def sampleEnd : World BookingService := sampleOpening.advances (handler sampleIds) sampleLoss

def sampleJournal : List (Handled BookingService) :=
  sampleOpening.journal (handler sampleIds) sampleLoss

private theorem exists_sampleCall : ∃ c ∈ sampleEnd.calls,
    c.query.client.address = (sampleCaller 40001).address ∧
      c.query.request = sampleSubscription 7 "60" ∧
      c.reply? = some (.of .monitor 7 sampleNotice) := by
  have hcall : sampleEnd.calls[0]?.map
      (fun c => (c.query.client.address, c.query.request, c.reply?)) =
      some ((sampleCaller 40001).address, sampleSubscription 7 "60",
        some (.of .monitor 7 sampleNotice)) := by decide +kernel
  obtain ⟨c, hc, hfields⟩ := Option.map_eq_some_iff.mp hcall
  obtain ⟨haddress, hfields⟩ := Prod.mk.inj hfields
  exact ⟨c, List.mem_of_getElem? hc, haddress, Prod.mk.inj hfields⟩

/-- The call for a subscription returns the notification, which came of the other client's
booking. -/
theorem returned_from_own_request_sample : ∃ c ∈ sampleEnd.calls,
    c.query.request = sampleSubscription 7 "60" ∧
      c.reply? = some (.of .monitor 7 sampleNotice) ∧
      Origin (handler sampleIds) sampleJournal c.query (.of .monitor 7 sampleNotice) := by
  obtain ⟨c, hc, -, hrequest, hreply⟩ := exists_sampleCall
  obtain ⟨hsubscribes, hcalls⟩ := returned_from_own_request (handler sampleIds) sampleStart 1 true
    sampleSockets sampleServer 1024 .disabled sampleLoss
  exact ⟨c, hc, hrequest, hreply, (hcalls (hsubscribes _) c hc _ hreply).2⟩

/-- The server has answered the request of the call, but what the call returns is no answer of the
server, neither to this request nor to any other. -/
theorem notification_returned : ∃ c ∈ sampleEnd.calls, c.query.request = sampleSubscription 7 "60" ∧
    c.reply? = some (.of .monitor 7 sampleNotice) ∧
    (∃ x ∈ sampleJournal, x.Of c.query.client.address c.query.request) ∧
    ∀ x ∈ sampleJournal, x.answer.reply ≠ .of .monitor 7 sampleNotice := by
  have hanswers : ∀ answer ∈ sampleJournal.map (·.answer.reply),
      answer ≠ .of .monitor 7 sampleNotice := by decide +kernel
  have hhandled : sampleJournal[0]?.map
      (fun x => (x.client, (Envelope.ofFrame x.frame).toOption)) =
      some ((sampleCaller 40001).address, some (sampleSubscription 7 "60")) := by decide +kernel
  obtain ⟨c, hc, haddress, hrequest, hreply⟩ := exists_sampleCall
  obtain ⟨x, hx, hfields⟩ := Option.map_eq_some_iff.mp hhandled
  obtain ⟨hclient, hread⟩ := Prod.mk.inj hfields
  refine ⟨c, hc, hrequest, hreply, ⟨x, List.mem_of_getElem? hx, ?_, ?_⟩,
    fun x hx => hanswers _ (List.mem_map_of_mem hx)⟩
  · rw [hclient, haddress]
  · rw [hrequest]
    exact ok_of_toOption hread

end World

end DatagramRpc
