import DatagramRpc.Proofs.Server.Ownership

/-!
# What one dispatch does

A server that executes requests at most once and is left alone while it works on a datagram does one
of four things: it rejects the datagram, it sends an echo back, it answers from its history, or it
executes the request. `Dispatches` says what each of them leaves behind. Whatever is proved about
datagrams that come one after another rests on these four cases.
-/

namespace DatagramRpc

namespace Server

variable {σ : Type} {s s' : Server σ} {h : Handler σ} {sink : Sink} {t : Readings}
  {client : Address} {frame : List UInt8} {request : Envelope}

/-- The answer to a request whose key the history knows. -/
def fromHistory (request : Envelope) : Option Envelope → Dispatched
  | some reply => ⟨reply, .replayed, .none⟩
  | none => ⟨request.reply inProgressPayload, .inProgress, .none⟩

/-- The state in which a new request is executed. -/
def begun (s : Server σ) (metrics : Metrics.Rpc) (request : Envelope) (client : Address) :
    Server σ :=
  { s with metrics, history := s.history.begin request client }

/-- The outcomes of a dispatch. -/
inductive Dispatches (s : Server σ) (h : Handler σ) (sink : Sink) (t : Readings) (client : Address)
    (frame : List UInt8) : Server σ × Dispatched → Prop
  | rejected {fault : Fault} (malformed : Envelope.ofFrame frame = .error fault) :
      Dispatches s h sink t client frame (s.countRejected fault,
        ⟨rejection fault, .rejected, .none⟩)
  | echoed {request : Envelope} (decoded : Envelope.ofFrame frame = .ok request)
      (echo : request.operation = .echo) :
      Dispatches s h sink t client frame (s.countRequest .echo, ⟨request, .echoed, .none⟩)
  | known {request : Envelope} {response : Option Envelope} (metrics : Metrics.Rpc)
      (decoded : Envelope.ofFrame frame = .ok request) (noEcho : request.operation ≠ .echo)
      (seen : s.history.response? ⟨request.id, client⟩ = some response) :
      Dispatches s h sink t client frame ({ s with metrics }, fromHistory request response)
  | executed {request : Envelope} (metrics : Metrics.Rpc)
      (decoded : Envelope.ofFrame frame = .ok request) (noEcho : request.operation ≠ .echo)
      (new : s.history.response? ⟨request.id, client⟩ = none) :
      Dispatches s h sink t client frame
        ((s.begun metrics request client).run h sink t client request)

private theorem claim_of_new (hs : s.semantics = .atMostOnce)
    (hnew : s.history.response? ⟨request.id, client⟩ = none) :
    s.claim request client = ({ s with history := s.history.begin request client }, .fresh) := by
  have hhistory := History.claim_fst s.history request client
  have hclaim := History.claim_snd s.history request client
  rw [hnew] at hhistory hclaim
  rw [if_pos rfl] at hhistory
  rw [claim, hs]
  simp only [hhistory, hclaim, Claim.ofResponse]

private theorem claim_of_known (hs : s.semantics = .atMostOnce) {response : Option Envelope}
    (hknown : s.history.response? ⟨request.id, client⟩ = some response) :
    ∃ metrics, s.claim request client = ({ s with metrics }, .ofResponse (some response)) := by
  have hhistory := History.claim_fst s.history request client
  have hclaim := History.claim_snd s.history request client
  rw [hknown] at hhistory hclaim
  rw [if_neg (by simp)] at hhistory
  rw [claim, hs]
  simp only [hhistory, hclaim]
  cases response with
  | none => exact ⟨s.metrics, rfl⟩
  | some reply => exact ⟨_, rfl⟩

theorem dispatches (hs : s.semantics = .atMostOnce) (h : Handler σ) (sink : Sink) (t : Readings)
    (client : Address) (frame : List UInt8) :
    Dispatches s h sink t client frame (s.dispatch h sink t client frame) := by
  unfold dispatch
  cases hframe : Envelope.ofFrame frame with
  | error fault => exact .rejected hframe
  | ok request =>
    simp only [answer]
    by_cases hecho : request.operation = .echo
    · rw [if_pos hecho, hecho]
      exact .echoed hframe hecho
    · rw [if_neg hecho]
      have hcount : (s.countRequest request.operation).semantics = .atMostOnce := hs
      cases hresponse : s.history.response? ⟨request.id, client⟩ with
      | none =>
        rw [claim_of_new hcount hresponse]
        exact .executed _ hframe hecho hresponse
      | some response =>
        obtain ⟨metrics, hclaim⟩ := claim_of_known hcount hresponse
        rw [hclaim]
        cases response with
        | none => exact .known metrics hframe hecho hresponse
        | some reply => exact .known metrics hframe hecho hresponse

/-! ## What a dispatch leaves in the history -/

theorem history_run (s : Server σ) (h : Handler σ) (sink : Sink) (t : Readings) (client : Address)
    (request : Envelope) :
    (s.run h sink t client request).1.history =
      s.history.record request client (s.run h sink t client request).2.reply := by
  unfold run
  simp only [finish, announce_history, record, execute_history]

theorem semantics_run (s : Server σ) (h : Handler σ) (sink : Sink) (t : Readings) (client : Address)
    (request : Envelope) : (s.run h sink t client request).1.semantics = s.semantics := by
  unfold run
  simp only [finish, announce_history, record, execute_history]

/-- The key of a datagram that is a request other than an echo. -/
def keyOf? (client : Address) (frame : List UInt8) : Option CallKey :=
  match Envelope.ofFrame frame with
  | .error _ => none
  | .ok request => if request.operation = .echo then none else some ⟨request.id, client⟩

theorem keyOf?_of_request (hframe : Envelope.ofFrame frame = .ok request)
    (hecho : request.operation ≠ .echo) : keyOf? client frame = some ⟨request.id, client⟩ := by
  simp only [keyOf?, hframe, if_neg hecho]

private theorem keyOf?_of_echo (hframe : Envelope.ofFrame frame = .ok request)
    (hecho : request.operation = .echo) : keyOf? client frame = none := by
  simp only [keyOf?, hframe, if_pos hecho]

private theorem keyOf?_of_error {fault : Fault} (hframe : Envelope.ofFrame frame = .error fault) :
    keyOf? client frame = none := by
  simp only [keyOf?, hframe]

/-- Executes requests at most once, and forgets none of them. -/
structure Remembering (s : Server σ) : Prop where
  semantics : s.semantics = .atMostOnce
  unbounded : s.history.limit = 0

theorem remembering_start (handler : σ) : (Server.start .atMostOnce 0 handler).Remembering :=
  ⟨rfl, rfl⟩

/-- A dispatch writes into the history only under its own key, and only if nothing is known of
it. -/
theorem response?_dispatch (hs : s.Remembering) (h : Handler σ) (sink : Sink) (t : Readings)
    (client : Address) (frame : List UInt8) :
    (s.dispatch h sink t client frame).1.Remembering ∧ ∀ k,
      (s.dispatch h sink t client frame).1.history.response? k =
        if keyOf? client frame = some k ∧ s.history.response? k = none
        then some (some (s.dispatch h sink t client frame).2.reply) else s.history.response? k := by
  have hcases := dispatches hs.semantics h sink t client frame
  generalize s.dispatch h sink t client frame = after at hcases
  cases hcases with
  | rejected hframe =>
    refine ⟨⟨hs.semantics, hs.unbounded⟩, fun k => ?_⟩
    rw [keyOf?_of_error hframe, if_neg (by simp)]
    rfl
  | echoed hframe hecho =>
    refine ⟨⟨hs.semantics, hs.unbounded⟩, fun k => ?_⟩
    rw [keyOf?_of_echo hframe hecho, if_neg (by simp)]
    rfl
  | known metrics hframe hecho hknown =>
    refine ⟨⟨hs.semantics, hs.unbounded⟩, fun k => ?_⟩
    rw [keyOf?_of_request hframe hecho, if_neg]
    rintro ⟨hk, hnone⟩
    rw [← Option.some.inj hk, hknown] at hnone
    cases hnone
  | @executed request metrics hframe hecho hnew =>
    have hbegin : (s.begun metrics request client).history.limit = 0 :=
      History.limit_insert hs.unbounded _
    refine ⟨⟨?_, ?_⟩, fun k => ?_⟩
    · rw [semantics_run]
      exact hs.semantics
    · rw [history_run]
      exact History.limit_insert hbegin _
    · rw [history_run, History.response?_record hbegin, begun, History.response?_begin hs.unbounded,
        keyOf?_of_request hframe hecho]
      by_cases hk : ⟨request.id, client⟩ = k
      · subst hk
        rw [if_pos rfl, if_pos ⟨rfl, hnew⟩]
      · rw [if_neg hk, if_neg hk, if_neg fun hc => hk (Option.some.inj hc.1)]

end Server

end DatagramRpc
