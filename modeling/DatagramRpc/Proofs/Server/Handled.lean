import DatagramRpc.Proofs.Server.Answers
import DatagramRpc.Proofs.Server.Correlation
import DatagramRpc.Proofs.Server.Notification

/-!
# What a server has handled

A journal lists every datagram that a server has handled, with all that came of it. Whatever the
server knows and whatever it sends has its reason there: it is the answer to a datagram, or a
notification for a subscription that an earlier datagram has asked for. The server may remember any
number of requests, so that it may execute a request again that it has forgotten.
-/

namespace DatagramRpc

variable {σ : Type}

/-- A datagram that a server has handled, as far as its buffer held it, and what came of it. -/
structure Handled (σ : Type) where
  client : Address
  frame : List UInt8
  /-- The state that the handler was left in. -/
  state : σ
  answer : Dispatched

namespace Handled

/-- It was this request of this client. -/
def Of (x : Handled σ) (client : Address) (request : Envelope) : Prop :=
  x.client = client ∧ Envelope.ofFrame x.frame = .ok request

/-- These bytes were sent to the receiver because of it. -/
inductive Sends (x : Handled σ) (receiver : Address) (bytes : List UInt8) : Prop
  | answer (client : x.client = receiver) (written : x.answer.reply.toFrame = .ok bytes)
  | notice (attempt : Attempt) (tried : attempt ∈ x.answer.publication.attempts)
      (datagram : attempt.datagram = ⟨receiver, bytes⟩)

/-- It asked for this subscription, and the handler has executed it and left the subscription. -/
def Subscribes (h : Handler σ) (x : Handled σ) (r : MonitorRecord) : Prop :=
  ∃ request, x.Of r.client request ∧ request.operation = .monitor ∧ request.id = r.requestId ∧
    x.answer.disposition = .executed ∧
    ∃ now given, r ∈ (h.handle ⟨x.client, now⟩ request given).2.2.records

/-- It asked for a change, and the handler has executed it and said that this resource is
changed. -/
def Changes (h : Handler σ) (x : Handled σ) (resource : String) : Prop :=
  ∃ request, Envelope.ofFrame x.frame = .ok request ∧ request.operation.isMutating = true ∧
    x.answer.disposition = .executed ∧ ∃ now given outcome monitors,
      h.handle ⟨x.client, now⟩ request given = (.ok outcome, x.state, monitors) ∧
        outcome.changed = some resource

/-- The attempt tells a subscriber what the handler says of the resource after it was changed. -/
structure Tells (h : Handler σ) (x : Handled σ) (attempt : Attempt) (r : MonitorRecord)
    (message : String) : Prop where
  changes : x.Changes h r.resource
  snapshot : h.snapshot x.state r.resource = .ok message
  receiver : attempt.datagram.receiver = r.client
  written : (Registry.notice r message).toFrame = .ok attempt.datagram.frame

/-- It led to notifications only for subscriptions that some of these datagrams have asked for. -/
def Notifies (h : Handler σ) (before : List (Handled σ)) (x : Handled σ) : Prop :=
  ∀ attempt ∈ x.answer.publication.attempts, ∃ r message, x.Tells h attempt r message ∧
    ∃ y ∈ before, y.Subscribes h r

/-- What can come of a datagram after these. -/
structure Follows (h : Handler σ) (before : List (Handled σ)) (x : Handled σ) : Prop where
  answers : x.answer.Answers x.frame
  notifies : x.Notifies h before

end Handled

private theorem Handler.handle_of_logged {h : Handler σ} {call : Call} {request : Envelope}
    {given : (σ × List Execution) × Registry} {result : Except Fault Outcome}
    {left : σ × List Execution} {monitors : Registry}
    (hh : h.logged.handle call request given = (result, left, monitors)) :
    h.handle call request (given.1.1, given.2) = (result, left.1, monitors) := by
  rw [h.realizes_logged.handle, hh]

/-! ## One datagram -/

namespace Server

variable {s : Server (σ × List Execution)} {h : Handler σ} {sink : Sink} {t : Readings}
  {client : Address} {frame : List UInt8} {past : List (Handled σ)}

/-- Every subscription was asked for in a datagram that the server has handled. -/
def SubscribedIn (s : Server (σ × List Execution)) (h : Handler σ) (past : List (Handled σ)) :
    Prop :=
  ∀ r ∈ s.monitors.records, ∃ x ∈ past, x.Subscribes h r

/-- A request that is executed: its subscriptions are those of before and one that it asks for, and
it leads to notifications only if it may change something. -/
theorem handled_run {before : Server (σ × List Execution)} (hh : h.SubscribesCaller)
    {request : Envelope} (hdecoded : Envelope.ofFrame frame = .ok request)
    (hsub : before.SubscribedIn h past) :
    let after := before.run h.logged sink t client request
    let x : Handled σ := ⟨client, frame, after.1.handler.1, after.2⟩
    after.1.SubscribedIn h (past ++ [x]) ∧ x.Notifies h past := by
  intro after x
  have hran : Ran before h.logged t client request after :=
    ran_run before h.logged sink t client request
  have hasked : ∀ r ∈ after.1.monitors.records, r ∈ before.monitors.records ∨
      request.operation = .monitor ∧ r.requestId = request.id ∧ r.client = client :=
    fun r hr => hh.logged _ _ _ r (hran.monitors hr)
  refine ⟨fun r hr => ?_, fun attempt hattempt => ?_⟩
  · rcases hasked r hr with hold | ⟨hop, hnumber, hclient⟩
    · obtain ⟨y, hy, hsubscribes⟩ := hsub r hold
      exact ⟨y, List.mem_append_left _ hy, hsubscribes⟩
    · refine ⟨x, List.mem_append_right _ List.mem_cons_self, request, ⟨hclient.symm, hdecoded⟩,
        hop, hnumber.symm, rfl, t.handled, (before.handler.1, before.monitors), ?_⟩
      exact hran.monitors hr
  · have hexecuted : after.2.disposition = .executed := rfl
    have hturn : before.Turn h.logged sink t client frame after :=
      turn_run rfl rfl h.logged sink t client hdecoded
    clear_value after
    cases hturn with
    | idle _ _ quiet | silent _ _ _ quiet =>
      rw [quiet] at hattempt
      cases hattempt
    | @announced request' outcome resource monitors _ decoded handled mutating
        changed _ published =>
      obtain rfl : request = request' := Except.ok.inj (hdecoded.symm.trans decoded)
      rw [published] at hattempt
      cases hsnapshot : h.logged.snapshot after.1.handler resource with
      | error fault =>
        rw [hsnapshot] at hattempt
        cases hattempt
      | ok message =>
        rw [hsnapshot] at hattempt
        obtain ⟨r, hr, rfl, hreceiver, hframe⟩ := mem_publish hattempt
        have hchanges : x.Changes h r.resource :=
          ⟨request, hdecoded, mutating, hexecuted, t.handled,
          _, outcome, monitors, Handler.handle_of_logged handled, changed⟩
        refine ⟨r, message, ⟨hchanges, hsnapshot, hreceiver, hframe⟩, ?_⟩
        rcases hasked r hr with hold | ⟨hop, -⟩
        · exact hsub r hold
        · -- A request for a subscription changes nothing.
          rw [hop] at mutating
          cases mutating

/-- What a server knows, and how it came to know it. -/
structure Kept (s : Server (σ × List Execution)) (h : Handler σ) (past : List (Handled σ)) :
    Prop where
  semantics : s.semantics = .atMostOnce
  labelled : s.history.Labelled
  subscribed : s.SubscribedIn h past

theorem Kept.of_metrics (hs : s.Kept h past) (metrics : Metrics.Rpc) :
    Kept { s with metrics } h past :=
  ⟨hs.semantics, hs.labelled, hs.subscribed⟩

private theorem SubscribedIn.mono {past' : List (Handled σ)} (hs : s.SubscribedIn h past)
    (hsub : past ⊆ past') : s.SubscribedIn h past' := fun r hr =>
  have ⟨x, hx, hsubscribes⟩ := hs r hr
  ⟨x, hsub hx, hsubscribes⟩

/-- One datagram more in the journal. -/
theorem Kept.dispatch (hs : s.Kept h past) (hh : h.SubscribesCaller) (sink : Sink) (t : Readings)
    (client : Address) (frame : List UInt8) :
    let after := s.dispatch h.logged sink t client frame
    let x : Handled σ := ⟨client, frame, after.1.handler.1, after.2⟩
    after.1.Kept h (past ++ [x]) ∧ x.Follows h past := by
  intro after x
  obtain ⟨hlabelled, hanswers⟩ := labelled_dispatch hs.labelled h.logged sink t client frame
  have hcases : Dispatches s h.logged sink t client frame after :=
    dispatches hs.semantics h.logged sink t client frame
  suffices hrest : after.1.semantics = .atMostOnce ∧ after.1.SubscribedIn h (past ++ [x]) ∧
      x.Notifies h past from ⟨⟨hrest.1, hlabelled, hrest.2.1⟩, hanswers, hrest.2.2⟩
  have hold : s.SubscribedIn h (past ++ [x]) := hs.subscribed.mono (List.subset_append_left ..)
  clear_value after
  cases hcases with
  | rejected malformed => exact ⟨hs.semantics, hold, fun attempt ha => nomatch ha⟩
  | echoed decoded echo => exact ⟨hs.semantics, hold, fun attempt ha => nomatch ha⟩
  | @known request response metrics decoded noEcho seen =>
    refine ⟨hs.semantics, hold, fun attempt ha => ?_⟩
    cases response <;> cases ha
  | @executed request metrics decoded noEcho new =>
    have hbegun : (s.begun metrics request client).SubscribedIn h past := hs.subscribed
    exact ⟨(semantics_run ..).trans hs.semantics, handled_run hh decoded hbegun⟩

end Server

end DatagramRpc
