import DatagramRpc.Proofs.Facility.Requests
import DatagramRpc.Proofs.Server.Executions

/-!
# Answers

Whatever a server sends to a client is a rejection, an echo, a notification, or a reply that stands
in its history. Notifications come under the number of a request that subscribed, provided that the
handler makes no other subscriptions; the booking service makes none.
-/

namespace DatagramRpc

variable {σ : Type}

/-- Subscriptions are made only for requests that ask for one, for the client and under the number
of the request. -/
def Handler.SubscribesCaller (h : Handler σ) : Prop :=
  ∀ call request state, ∀ r ∈ (h.handle call request state).2.2.records,
    r ∈ state.2.records ∨
      request.operation = .monitor ∧ r.requestId = request.id ∧ r.client = call.client

theorem Handler.SubscribesCaller.logged {h : Handler σ} (hh : h.SubscribesCaller) :
    h.logged.SubscribesCaller :=
  fun call request state => hh call request (state.1.1, state.2)

namespace BookingService

private theorem subscribe_ok {c : Catalog} {call : Call} {request : Envelope} {args : List String}
    {outcome : Outcome} {r : MonitorRecord} (h : subscribe c call request args = .ok (outcome, r)) :
    r.requestId = request.id ∧ r.client = call.client := by
  unfold subscribe at h
  split at h
  · split at h
    · cases h
    · split at h
      · cases h
      · cases h
        exact ⟨rfl, rfl⟩
  · cases h

theorem subscribesCaller (supply : IdSupply) : (handler supply).SubscribesCaller := by
  intro call request ⟨s, monitors⟩ r hr
  simp only [handler, handle] at hr ⊢
  split at hr
  case h_6 hop =>
    split at hr
    · next outcome r' hsubscribe =>
      rcases List.mem_append.mp hr with hr | hr
      · exact .inl hr
      · rw [List.mem_singleton.mp hr]
        exact .inr ⟨hop, subscribe_ok hsubscribe⟩
    · exact .inl hr
  case h_4 =>
    split at hr
    · rw [commit_monitors] at hr
      exact .inl hr
    · exact .inl hr
  all_goals
    first
    | exact .inl hr
    | (rw [commit_monitors] at hr
       exact .inl hr)

end BookingService

namespace Server

variable {s s' : Server (σ × List Execution)} {asked asked' : Address → Envelope → Prop}
  {h : Handler σ} {sink : Sink} {t : Readings} {client : Address} {frame : List UInt8}
  {e : Envelope}

/-- Every subscription was asked for. -/
def Subscribed (s : Server σ) (asked : Address → Envelope → Prop) : Prop :=
  ∀ r ∈ s.monitors.records,
    ∃ request, asked r.client request ∧ request.id = r.requestId ∧ request.operation = .monitor

/-- What a client may be sent. -/
inductive Answers (s : Server σ) (asked : Address → Envelope → Prop) (client : Address)
    (e : Envelope) : Prop
  | rejection (number : e.id = 0)
  | echo (request : Envelope) (asks : asked client request) (number : request.id = e.id)
      (op : request.operation = .echo)
  | notice (request : Envelope) (asks : asked client request) (number : request.id = e.id)
      (op : request.operation = .monitor)
  | reply (request : Envelope)
      (known : s.history.find? ⟨e.id, client⟩ = some ⟨request, client, some e⟩)

theorem Answers.mono {s s' : Server σ} (ha : s.Answers asked client e)
    (hasked : ∀ client request, asked client request → asked' client request)
    (hknown : ∀ k record reply, s.history.find? k = some record → record.response = some reply →
      s'.history.find? k = some record) : s'.Answers asked' client e := by
  cases ha with
  | rejection number => exact .rejection number
  | echo request asks number op => exact .echo request (hasked _ _ asks) number op
  | notice request asks number op => exact .notice request (hasked _ _ asks) number op
  | reply request known => exact .reply request (hknown _ _ _ known rfl)

/-- A reply that is in the history stays there. -/
theorem find?_dispatch (hs : s.Remembering) (h : Handler (σ × List Execution)) (sink : Sink)
    (t : Readings) (client : Address) (frame : List UInt8) {k : CallKey} {record : InvocationRecord}
    (hk : s.history.find? k = some record) :
    (s.dispatch h sink t client frame).1.history.find? k = some record := by
  have hcases := dispatches hs.semantics h sink t client frame
  generalize s.dispatch h sink t client frame = after at hcases
  cases hcases with
  | rejected malformed => exact hk
  | echoed decoded echo => exact hk
  | known metrics decoded noEcho seen => exact hk
  | executed metrics decoded noEcho new =>
    rw [find?_run hs.unbounded, if_neg, hk]
    intro he
    rw [he, History.response?, hk] at new
    cases new

theorem subscribed_dispatch (hs : s.Remembering) (hsub : s.Subscribed asked)
    (hh : h.SubscribesCaller) (sink : Sink) (t : Readings)
    (hasked : ∀ request, Envelope.ofFrame frame = .ok request → asked client request) :
    (s.dispatch h.logged sink t client frame).1.Subscribed asked := by
  have hcases := dispatches hs.semantics h.logged sink t client frame
  generalize s.dispatch h.logged sink t client frame = after at hcases
  cases hcases with
  | rejected malformed => exact hsub
  | echoed decoded echo => exact hsub
  | known metrics decoded noEcho seen => exact hsub
  | @executed request metrics decoded noEcho new =>
    intro r hr
    have hran := ran_run (s.begun metrics request client) h.logged sink t client request
    rcases hh.logged _ _ _ r (hran.monitors hr) with hold | ⟨hop, hnumber, hclient⟩
    · exact hsub r hold
    · exact ⟨request, hclient ▸ hasked request decoded, hnumber.symm, hop⟩

/-- The reply to a datagram is an answer to its sender. -/
theorem answers_reply (hs : s.Remembering) (hsettled : ∀ k, s.Settled asked k) (sink : Sink)
    (t : Readings)
    (hasked : ∀ request, Envelope.ofFrame frame = .ok request → asked client request) :
    (s.dispatch h.logged sink t client frame).1.Answers asked client
      (s.dispatch h.logged sink t client frame).2.reply := by
  have hcases := dispatches hs.semantics h.logged sink t client frame
  generalize s.dispatch h.logged sink t client frame = after at hcases
  cases hcases with
  | rejected malformed => exact .rejection rfl
  | @echoed request decoded echo => exact .echo request (hasked request decoded) rfl echo
  | @known request response metrics decoded noEcho seen =>
    cases hsettled ⟨request.id, client⟩ with
    | new unknown never =>
      rw [History.response?, unknown] at seen
      cases seen
    | done request' payload known once number noEcho' asks =>
      rw [History.response?, known] at seen
      cases seen
      have hid : (request'.reply payload).id = request.id := number
      exact .reply request' (hid ▸ known)
  | @executed request metrics decoded noEcho new =>
    obtain ⟨payload, hreply⟩ :=
      (ran_run (s.begun metrics request client) h.logged sink t client request).reply
    refine .reply request ?_
    rw [find?_run hs.unbounded, hreply]
    exact if_pos rfl

/-- What is sent besides the reply are notifications. -/
theorem answers_publication (hs : s.Remembering) (h : Handler (σ × List Execution)) (sink : Sink)
    (t : Readings) (client : Address) (frame : List UInt8)
    (hsub : (s.dispatch h sink t client frame).1.Subscribed asked) {a : Attempt}
    (ha : a ∈ (s.dispatch h sink t client frame).2.publication.attempts) :
    ∃ e, e.toFrame = .ok a.datagram.frame ∧
      (s.dispatch h sink t client frame).1.Answers asked a.datagram.receiver e := by
  have hcases := dispatches hs.semantics h sink t client frame
  generalize s.dispatch h sink t client frame = after at hcases hsub ha
  cases hcases with
  | rejected malformed => cases ha
  | echoed decoded echo => cases ha
  | @known request response metrics decoded noEcho seen => cases response <;> cases ha
  | @executed request metrics decoded noEcho new =>
    have hran := ran_run (s.begun metrics request client) h sink t client request
    obtain ⟨r, hr, message, hreceiver, hframe⟩ := hran.notices a ha
    obtain ⟨subscribing, hasks, hnumber, hop⟩ := hsub r hr
    exact ⟨_, hframe, .notice subscribing (hreceiver ▸ hasks) hnumber hop⟩

end Server

end DatagramRpc
