import DatagramRpc.Proofs.Facility.Safety
import DatagramRpc.Proofs.Message.RoundTrip
import DatagramRpc.Proofs.Server.Executions
import DatagramRpc.Proofs.Server.Retransmission

/-!
# Every datagram is answered

A server gives one answer to whatever it receives, and the answer can be read. It comes under the
number of the request, or under zero if the datagram is no envelope. This needs nothing of the
handler and holds for both semantics and every bound of the history. For an answer from the history
it rests on `Labelled`: whatever is claimed, begun, recorded or forgotten, each reply that is held
carries the number of its key.
-/

namespace DatagramRpc

/-! ## Replies under the number of their key -/

/-- The reply, if there is one, carries the number of the request. -/
def InvocationRecord.Labelled (r : InvocationRecord) : Prop :=
  ∀ reply, r.response = some reply → reply.id = r.key.id

namespace History

variable {h : History} {r : InvocationRecord} {request : Envelope} {client : Address}

def Labelled (h : History) : Prop := ∀ r ∈ h.records, r.Labelled

theorem labelled_empty (limit : Nat) : (empty limit).Labelled := by
  intro r hr
  cases hr

/-- Forgetting the oldest keys leaves some of the records. -/
theorem records_track_subset (h : History) (key : CallKey) : (h.track key).records ⊆ h.records := by
  unfold track
  split
  · exact List.Subset.refl _
  · exact List.filter_subset_self ..

private theorem Labelled.insert (hh : h.Labelled) (hr : r.Labelled) : (h.insert r).Labelled := by
  unfold History.insert
  split
  · intro x hx
    obtain ⟨old, hold, rfl⟩ := List.mem_map.mp hx
    split
    · exact hr
    · exact hh old hold
  · intro x hx
    rcases List.mem_append.mp (records_track_subset _ _ hx) with hx | hx
    · exact hh x hx
    · rw [List.mem_singleton.mp hx]
      exact hr

private theorem Labelled.begin (hh : h.Labelled) (request : Envelope) (client : Address) :
    (h.begin request client).Labelled := by
  refine hh.insert fun reply hreply => ?_
  cases hreply

private theorem Labelled.record (hh : h.Labelled) {reply : Envelope}
    (hreply : reply.id = request.id) (client : Address) :
    (h.record request client reply).Labelled := by
  refine hh.insert fun reply' he => ?_
  cases he
  exact hreply

private theorem Labelled.claim (hh : h.Labelled) (request : Envelope) (client : Address) :
    (h.claim request client).1.Labelled := by
  rw [claim_fst]
  split
  · exact hh.begin request client
  · exact hh

/-- A reply that answers a claim carries the number of the request that claims. -/
theorem Labelled.id_of_claim (hh : h.Labelled) {reply : Envelope}
    (hclaim : (h.claim request client).2 = .done reply) : reply.id = request.id := by
  unfold History.claim at hclaim
  split at hclaim
  · next request' client' _ hfind =>
    cases hclaim
    have hkey : InvocationRecord.key ⟨request', client', some reply⟩ = ⟨request.id, client⟩ := by
      simpa using List.find?_some hfind
    have hid := hh _ (List.mem_of_find?_eq_some hfind) reply rfl
    exact hid.trans (congrArg CallKey.id hkey)
  · cases hclaim
  · cases hclaim

end History

/-! ## The answer to a datagram -/

/-- An answer says what it answers: the request in the frame, or that there is none. -/
inductive Dispatched.Answers (frame : List UInt8) (d : Dispatched) : Prop
  | request {request : Envelope} (decoded : Envelope.ofFrame frame = .ok request)
      (number : d.reply.id = request.id) (accepted : d.disposition ≠ .rejected)
  | malformed {fault : Fault} (refused : Envelope.ofFrame frame = .error fault)
      (number : d.reply.id = 0) (rejected : d.disposition = .rejected)

namespace Server

variable {σ : Type} {s : Server σ}

private theorem labelled_claim (hs : s.history.Labelled) (request : Envelope) (client : Address) :
    (s.claim request client).1.history.Labelled ∧
      ∀ reply, (s.claim request client).2 = .done reply → reply.id = request.id := by
  cases hsemantics : s.semantics with
  | atLeastOnce =>
    simp only [claim, hsemantics]
    refine ⟨hs.begin request client, fun reply hreply => ?_⟩
    cases hreply
  | atMostOnce =>
    have hhistory := hs.claim request client
    have hreply (reply : Envelope) : (s.history.claim request client).2 = .done reply →
        reply.id = request.id :=
      hs.id_of_claim
    simp only [claim, hsemantics]
    generalize s.history.claim request client = claimed at hhistory hreply
    obtain ⟨history, c⟩ := claimed
    cases c <;> exact ⟨hhistory, hreply⟩

private theorem labelled_run (hs : s.history.Labelled) (h : Handler σ) (sink : Sink) (t : Readings)
    (client : Address) (request : Envelope) :
    (s.run h sink t client request).1.history.Labelled ∧
      (s.run h sink t client request).2.reply.id = request.id := by
  obtain ⟨payload, hreply⟩ := (ran_run s h sink t client request).reply
  have hid : (s.run h sink t client request).2.reply.id = request.id := by
    rw [hreply]
    rfl
  refine ⟨?_, hid⟩
  rw [history_run]
  exact hs.record hid client

/-- One dispatch keeps the history labelled, and gives an answer to the datagram. -/
theorem labelled_dispatch (hs : s.history.Labelled) (h : Handler σ) (sink : Sink) (t : Readings)
    (client : Address) (frame : List UInt8) :
    (s.dispatch h sink t client frame).1.history.Labelled ∧
      (s.dispatch h sink t client frame).2.Answers frame := by
  unfold dispatch
  cases hframe : Envelope.ofFrame frame with
  | error fault => exact ⟨hs, .malformed hframe rfl rfl⟩
  | ok request =>
    simp only [answer]
    by_cases hecho : request.operation = .echo
    · rw [if_pos hecho]
      exact ⟨hs, .request hframe rfl (by simp)⟩
    · rw [if_neg hecho]
      have hcounted : (s.countRequest request.operation).history.Labelled := hs
      obtain ⟨hclaimed, hreply⟩ := labelled_claim hcounted request client
      generalize (s.countRequest request.operation).claim request client =
        claimed at hclaimed hreply
      obtain ⟨before, c⟩ := claimed
      cases c with
      | fresh =>
        obtain ⟨hrun, hid⟩ := labelled_run hclaimed h sink t client request
        exact ⟨hrun, .request hframe hid (by simp [run])⟩
      | inFlight => exact ⟨hclaimed, .request hframe rfl (by simp)⟩
      | done reply => exact ⟨hclaimed, .request hframe (hreply reply rfl) (by simp)⟩

end Server

/-- So it is after any datagrams. -/
theorem Session.labelled_run {σ : Type} {x : Session σ} (hx : x.server.history.Labelled)
    (h : Handler σ) (sink : Sink) (arrivals : List Arrival) :
    (run h sink x arrivals).1.server.history.Labelled := by
  induction arrivals generalizing x with
  | nil => exact hx
  | cons a arrivals ih =>
    exact ih (x := (x.receive h sink a).1)
      (Server.labelled_dispatch hx h _ a.readings a.client a.frame).1

/-- A client's request as it comes to the server. -/
def BookingService.sampleArrival (n : UInt8) (request : Envelope) : Arrival :=
  ⟨sampleClient n, request.toFrame.toOption.getD [], .at ⟨0⟩⟩

namespace Server

/-- **Every datagram is answered** under its own number or rejected under zero, and the answer is
sent unless its text is too long. -/
theorem every_datagram_answered {σ : Type} (h : Handler σ) (semantics : Semantics) (limit : Nat)
    (handler : σ) (sink sink' : Sink) (arrivals : List Arrival) (t : Readings) (client : Address)
    (frame : List UInt8) :
    let s := (Session.run h sink (.start (.start semantics limit handler)) arrivals).1.server
    let answer := (s.dispatch h sink' t client frame).2
    answer.Answers frame ∧
      ((Text.encodeUtf8 answer.reply.payload).length ≤ Wire.greatestLength →
        ∃ bytes, (s.handleDatagram h sink' t client frame).2.2 = .ok bytes ∧
          Envelope.ofFrame bytes = .ok answer.reply) := by
  intro s answer
  have hs : s.history.Labelled :=
    Session.labelled_run (History.labelled_empty limit) h sink arrivals
  refine ⟨(labelled_dispatch hs h sink' t client frame).2, fun hlength => ?_⟩
  obtain ⟨bytes, hbytes⟩ := Envelope.exists_toFrame hlength
  exact ⟨bytes, hbytes, Envelope.ofFrame_toFrame hbytes⟩

open BookingService (sampleArrival sampleBooking sampleClient sampleIds sampleStart)

/-- A client books, and another asks for a cancellation that is refused. -/
def sampleArrivals : List Arrival :=
  [sampleArrival 1 (sampleBooking 4), sampleArrival 2 (.of .delete 5 "none,Gym")]

/-- A server that remembers one request only, so the second of them. -/
def forgetfulServer : Server BookingService :=
  (Session.run (BookingService.handler sampleIds) (fun _ _ => true)
    (.start (.start .atMostOnce 1 sampleStart)) sampleArrivals).1.server

/-- The first request comes again. It has been forgotten, so it is executed and refused, under its
number. -/
def forgottenAnswer : Dispatched :=
  (forgetfulServer.dispatch (BookingService.handler sampleIds) (fun _ _ => true) (.at ⟨1⟩)
    (sampleClient 1) (sampleArrival 1 (sampleBooking 4)).frame).2

theorem every_datagram_answered_sample :
    forgottenAnswer.reply =
        (sampleBooking 4).reply
          "status:ERROR\nmessage:Facility not available at the requested time" ∧
      forgottenAnswer.Answers (sampleArrival 1 (sampleBooking 4)).frame ∧
      ∃ bytes, (forgetfulServer.handleDatagram (BookingService.handler sampleIds) (fun _ _ => true)
          (.at ⟨1⟩) (sampleClient 1) (sampleArrival 1 (sampleBooking 4)).frame).2.2 = .ok bytes ∧
        Envelope.ofFrame bytes = .ok forgottenAnswer.reply := by
  have hlength : (Text.encodeUtf8 forgottenAnswer.reply.payload).length ≤ Wire.greatestLength := by
    decide +kernel
  obtain ⟨hanswers, hsent⟩ :=
    every_datagram_answered (BookingService.handler sampleIds) .atMostOnce 1
    sampleStart (fun _ _ => true) (fun _ _ => true) sampleArrivals (.at ⟨1⟩) (sampleClient 1)
    (sampleArrival 1 (sampleBooking 4)).frame
  rw [← forgetfulServer] at hanswers hsent
  rw [← forgottenAnswer] at hanswers hsent
  exact ⟨by decide +kernel, hanswers, hsent hlength⟩

end Server

end DatagramRpc
