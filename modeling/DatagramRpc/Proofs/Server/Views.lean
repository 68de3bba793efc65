import DatagramRpc.Proofs.Server.Retransmission

/-!
# Handlers that keep a list

A handler may keep more in its state than it needs for its answers, such as a list of what it was
asked to do. A server around it does the same as one around the handler that keeps less, datagram by
datagram, so whatever such a list says holds of the run without it.
-/

namespace DatagramRpc

variable {σ τ β : Type}

/-- Does what another handler does, where its states are seen through `f`. -/
structure Handler.Realizes (h' : Handler τ) (h : Handler σ) (f : τ → σ) : Prop where
  handle : ∀ call request s monitors, h.handle call request (f s, monitors) =
    ((h'.handle call request (s, monitors)).1, f (h'.handle call request (s, monitors)).2.1,
      (h'.handle call request (s, monitors)).2.2)
  snapshot : ∀ s resource, h.snapshot (f s) resource = h'.snapshot s resource

/-- The same handler, with a list of notes on what it was asked to do and what came of it. -/
def Handler.keeping (h : Handler σ) (note : Call → Envelope → Except Fault Outcome → β) :
    Handler (σ × List β) where
  handle call request state :=
    let (result, s, monitors) := h.handle call request (state.1.1, state.2)
    (result, (s, state.1.2 ++ [note call request result]), monitors)
  snapshot s := h.snapshot s.1

theorem Handler.realizes_keeping (h : Handler σ)
    (note : Call → Envelope → Except Fault Outcome → β) : (h.keeping note).Realizes h Prod.fst :=
  ⟨fun _ _ _ _ => rfl, fun _ _ => rfl⟩

variable {h' : Handler τ} {h : Handler σ} {f : τ → σ}

/-! ## One datagram -/

namespace Server

/-- The server, with the state of its handler seen through `f`. -/
def view (f : τ → σ) (s : Server τ) : Server σ :=
  ⟨s.semantics, s.history, s.monitors, s.metrics, f s.handler⟩

private theorem view_claim (f : τ → σ) (s : Server τ) (request : Envelope) (client : Address) :
    (s.view f).claim request client =
      ((s.claim request client).1.view f, (s.claim request client).2) := by
  cases hs : s.semantics with
  | atLeastOnce =>
    simp only [claim, view, hs]
  | atMostOnce =>
    simp only [claim, view, hs]
    cases (s.history.claim request client).2 <;> rfl

private theorem view_execute (hf : h'.Realizes h f) (s : Server τ) (request : Envelope)
    (call : Call) :
    (s.view f).execute h request call =
      ((s.execute h' request call).1.view f, (s.execute h' request call).2) := by
  simp only [execute, view, hf.handle]
  cases (h'.handle call request (s.handler, s.monitors)).1 <;> rfl

private theorem view_announce (hf : h'.Realizes h f) (s : Server τ) (sink : Sink) (t : Readings)
    (op : Operation) (changed : Option String) :
    (s.view f).announce h sink t op changed =
      ((s.announce h' sink t op changed).1.view f, (s.announce h' sink t op changed).2) := by
  unfold announce
  cases op.isMutating with
  | false => rfl
  | true =>
    cases changed with
    | none => rfl
    | some resource =>
      simp only [notify, view, hf.snapshot]
      cases h'.snapshot s.handler resource <;> rfl

private theorem view_run (hf : h'.Realizes h f) (s : Server τ) (sink : Sink) (t : Readings)
    (client : Address) (request : Envelope) :
    (s.view f).run h sink t client request =
      ((s.run h' sink t client request).1.view f, (s.run h' sink t client request).2) := by
  have hrecord (s : Server τ) (reply : Envelope) :
      (s.view f).record request client reply = (s.record request client reply).view f := rfl
  simp only [run, view_execute hf, hrecord, view_announce hf]
  rfl

/-- Nothing that a server does depends on what its handler keeps besides. -/
theorem view_dispatch (hf : h'.Realizes h f) (s : Server τ) (sink : Sink) (t : Readings)
    (client : Address) (frame : List UInt8) :
    (s.view f).dispatch h sink t client frame =
      ((s.dispatch h' sink t client frame).1.view f, (s.dispatch h' sink t client frame).2) := by
  unfold dispatch
  cases Envelope.ofFrame frame with
  | error fault => rfl
  | ok request =>
    have hcount : (s.view f).countRequest request.operation =
        (s.countRequest request.operation).view f := rfl
    simp only [answer, hcount]
    by_cases hecho : request.operation = .echo
    · simp only [if_pos hecho]
    · simp only [if_neg hecho, view_claim]
      cases (s.countRequest request.operation).claim request client with
      | mk s claim =>
        cases claim with
        | fresh => exact view_run hf s sink t client request
        | inFlight => rfl
        | done reply => rfl

end Server

/-! ## Datagrams one after another -/

namespace Session

def view (f : τ → σ) (x : Session τ) : Session σ := ⟨x.server.view f, x.sent⟩

private theorem view_receive (hf : h'.Realizes h f) (x : Session τ) (sink : Sink) (a : Arrival) :
    (x.view f).receive h sink a = ((x.receive h' sink a).1.view f, (x.receive h' sink a).2) := by
  simp only [receive, view, Server.view_dispatch hf]

theorem view_run (hf : h'.Realizes h f) (x : Session τ) (sink : Sink) (arrivals : List Arrival) :
    run h sink (x.view f) arrivals =
      ((run h' sink x arrivals).1.view f, (run h' sink x arrivals).2) := by
  induction arrivals generalizing x with
  | nil => rfl
  | cons a arrivals ih => simp only [run, view_receive hf, ih]

end Session

end DatagramRpc
