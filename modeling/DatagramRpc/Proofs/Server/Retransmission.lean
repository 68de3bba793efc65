import DatagramRpc.Facility.Service
import DatagramRpc.Proofs.Server.SingleDispatch

/-!
# Datagrams that leave no trace

Garbage, echoes and repeated requests change nothing but the metrics of a server. Two runs are
compared: one processes all datagrams that come, the other only those that bring a request for the
first time. `Alike` is what their servers have in common throughout.

In the end both have the same bookings under the same ids, the same history and the same
subscriptions, and both have sent the same notifications in the same order.
-/

namespace DatagramRpc

variable {σ : Type}

/-! ## Servers that differ in their metrics at most -/

def Server.Alike (s s' : Server σ) : Prop := ∃ metrics, s' = { s with metrics }

namespace Server.Alike

variable {s s' s'' : Server σ} {h : Handler σ} {sink : Sink} {t : Readings} {client : Address}
  {request : Envelope} {op : Operation}

private theorem of_metrics (s : Server σ) (metrics : Metrics.Rpc) : s.Alike { s with metrics } :=
  ⟨metrics, rfl⟩

private theorem refl (s : Server σ) : s.Alike s := of_metrics s s.metrics

private theorem symm (ha : s.Alike s') : s'.Alike s := by
  obtain ⟨metrics, rfl⟩ := ha
  exact ⟨s.metrics, rfl⟩

private theorem trans (ha : s.Alike s') (ha' : s'.Alike s'') : s.Alike s'' := by
  obtain ⟨metrics, rfl⟩ := ha
  obtain ⟨metrics', rfl⟩ := ha'
  exact ⟨metrics', rfl⟩

private theorem claim (ha : s.Alike s') (request : Envelope) (client : Address) :
    (s.claim request client).1.Alike (s'.claim request client).1 ∧
      (s.claim request client).2 = (s'.claim request client).2 := by
  obtain ⟨metrics, rfl⟩ := ha
  cases hs : s.semantics with
  | atLeastOnce =>
    simp only [Server.claim, hs]
    exact ⟨of_metrics _ metrics, trivial⟩
  | atMostOnce =>
    simp only [Server.claim, hs]
    cases (s.history.claim request client).2 with
    | fresh => exact ⟨of_metrics _ metrics, rfl⟩
    | inFlight => exact ⟨of_metrics _ metrics, rfl⟩
    | done reply => exact ⟨of_metrics _ _, rfl⟩

private theorem execute (ha : s.Alike s') (h : Handler σ) (request : Envelope) (call : Call) :
    (s.execute h request call).1.Alike (s'.execute h request call).1 ∧
      (s.execute h request call).2 = (s'.execute h request call).2 := by
  obtain ⟨metrics, rfl⟩ := ha
  simp only [Server.execute]
  cases (h.handle call request (s.handler, s.monitors)).1 with
  | ok outcome => exact ⟨of_metrics _ metrics, rfl⟩
  | error fault => exact ⟨of_metrics _ _, rfl⟩

private theorem record (ha : s.Alike s') (request : Envelope) (client : Address)
    (reply : Envelope) :
    (s.record request client reply).Alike (s'.record request client reply) := by
  obtain ⟨metrics, rfl⟩ := ha
  exact of_metrics _ metrics

private theorem notify (ha : s.Alike s') (h : Handler σ) (sink : Sink) (t : Readings)
    (resource : String) :
    (s.notify h sink t resource).1.Alike (s'.notify h sink t resource).1 ∧
      (s.notify h sink t resource).2 = (s'.notify h sink t resource).2 := by
  obtain ⟨metrics, rfl⟩ := ha
  simp only [Server.notify]
  cases h.snapshot s.handler resource with
  | error fault => exact ⟨of_metrics _ metrics, rfl⟩
  | ok message => exact ⟨of_metrics _ _, rfl⟩

private theorem announce (ha : s.Alike s') (h : Handler σ) (sink : Sink) (t : Readings)
    (op : Operation) (changed : Option String) :
    (s.announce h sink t op changed).1.Alike (s'.announce h sink t op changed).1 ∧
      (s.announce h sink t op changed).2 = (s'.announce h sink t op changed).2 := by
  unfold Server.announce
  cases op.isMutating with
  | false => exact ⟨ha, rfl⟩
  | true =>
    cases changed with
    | none => exact ⟨ha, rfl⟩
    | some resource => exact ha.notify h sink t resource

private theorem finish (ha : s.Alike s') (t : Readings) (op : Operation) :
    (s.finish t op).Alike (s'.finish t op) := by
  obtain ⟨metrics, rfl⟩ := ha
  exact of_metrics _ _

private theorem run (ha : s.Alike s') (h : Handler σ) (sink : Sink) (t : Readings)
    (client : Address) (request : Envelope) :
    (s.run h sink t client request).1.Alike (s'.run h sink t client request).1 ∧
      (s.run h sink t client request).2 = (s'.run h sink t client request).2 := by
  obtain ⟨hexecuted, hresult⟩ := ha.execute h request ⟨client, t.handled⟩
  simp only [Server.run, ← hresult]
  have hrecorded := hexecuted.record request client (s.execute h request ⟨client, t.handled⟩).2.1
  obtain ⟨hannounced, hpublication⟩ := hrecorded.announce h sink t request.operation
    (s.execute h request ⟨client, t.handled⟩).2.2
  exact ⟨hannounced.finish t _, by rw [hpublication]⟩

private theorem answer (ha : s.Alike s') (h : Handler σ) (sink : Sink) (t : Readings)
    (client : Address) (request : Envelope) :
    (s.answer h sink t client request).1.Alike (s'.answer h sink t client request).1 ∧
      (s.answer h sink t client request).2 = (s'.answer h sink t client request).2 := by
  have hcounted : (s.countRequest request.operation).Alike (s'.countRequest request.operation) := by
    obtain ⟨metrics, rfl⟩ := ha
    exact of_metrics _ _
  unfold Server.answer
  by_cases hecho : request.operation = .echo
  · simp only [if_pos hecho]
    exact ⟨hcounted, trivial⟩
  · simp only [if_neg hecho]
    obtain ⟨hclaimed, hclaim⟩ := hcounted.claim request client
    generalize (s.countRequest request.operation).claim request client = a at hclaimed hclaim
    generalize (s'.countRequest request.operation).claim request client = b at hclaimed hclaim
    obtain ⟨a, c⟩ := a
    obtain ⟨b, c'⟩ := b
    obtain rfl : c = c' := hclaim
    cases c with
    | fresh => exact hclaimed.run h sink t client request
    | inFlight => exact ⟨hclaimed, rfl⟩
    | done reply => exact ⟨hclaimed, rfl⟩

/-- No answer depends on the metrics. -/
theorem dispatch (ha : s.Alike s') (h : Handler σ) (sink : Sink) (t : Readings) (client : Address)
    (frame : List UInt8) :
    (s.dispatch h sink t client frame).1.Alike (s'.dispatch h sink t client frame).1 ∧
      (s.dispatch h sink t client frame).2 = (s'.dispatch h sink t client frame).2 := by
  unfold Server.dispatch
  cases Envelope.ofFrame frame with
  | ok request => exact ha.answer h sink t client request
  | error fault =>
    obtain ⟨metrics, rfl⟩ := ha
    exact ⟨of_metrics _ _, rfl⟩

end Server.Alike

/-! ## Datagrams one after another -/

/-- A datagram with its sender, and the clock readings at which it is processed. -/
structure Arrival where
  client : Address
  frame : List UInt8
  readings : Readings

def Arrival.key? (a : Arrival) : Option CallKey := Server.keyOf? a.client a.frame

/-- The members of a list that have a key, and one that neither was seen before nor belongs to an
earlier member. -/
def newcomers {α : Type} (key? : α → Option CallKey) : List CallKey → List α → List α
  | _, [] => []
  | seen, x :: xs =>
    match key? x with
    | none => newcomers key? seen xs
    | some k => if k ∈ seen then newcomers key? seen xs else x :: newcomers key? (k :: seen) xs

/-- A server, with all that it has tried to send by itself. -/
structure Session (σ : Type) where
  server : Server σ
  sent : List Attempt

namespace Session

variable {x x' : Session σ} {seen : List CallKey} {h : Handler σ} {sink : Sink} {a : Arrival}

def start (server : Server σ) : Session σ := ⟨server, []⟩

/-- Processes a datagram. All that is sent in a session is one series for the sink. -/
def receive (h : Handler σ) (sink : Sink) (x : Session σ) (a : Arrival) : Session σ × Dispatched :=
  let (server, answer) :=
    x.server.dispatch h (fun n => sink (x.sent.length + n)) a.readings a.client a.frame
  (⟨server, x.sent ++ answer.publication.attempts⟩, answer)

/-- Processes datagrams, and lists them with their answers. -/
def run (h : Handler σ) (sink : Sink) :
    Session σ → List Arrival → Session σ × List (Arrival × Dispatched)
  | x, [] => (x, [])
  | x, a :: arrivals =>
    let (x, answer) := x.receive h sink a
    let (x, answers) := run h sink x arrivals
    (x, (a, answer) :: answers)

structure Alike (x x' : Session σ) : Prop where
  server : x.server.Alike x'.server
  sent : x.sent = x'.sent

private theorem Alike.receive (ha : x.Alike x') (h : Handler σ) (sink : Sink) (a : Arrival) :
    (x.receive h sink a).1.Alike (x'.receive h sink a).1 ∧
      (x.receive h sink a).2 = (x'.receive h sink a).2 := by
  obtain ⟨hserver, hanswer⟩ := ha.server.dispatch h (fun n => sink (x.sent.length + n)) a.readings
    a.client a.frame
  simp only [Session.receive, ← ha.sent]
  exact ⟨⟨hserver, by simp only [hanswer]⟩, hanswer⟩

/-- Forgets nothing, and knows of these keys. -/
structure Knows (x : Session σ) (seen : List CallKey) : Prop where
  remembering : x.server.Remembering
  known : ∀ k ∈ seen, x.server.history.response? k ≠ none

private theorem Knows.mono {seen' : List CallKey} (hx : x.Knows seen) (hsub : seen' ⊆ seen) :
    x.Knows seen' :=
  ⟨hx.remembering, fun k hk => hx.known k (hsub hk)⟩

/-- Once processed, the key of a datagram is known, and all that were known before still are. -/
theorem Knows.receive (hx : x.Knows seen) (h : Handler σ) (sink : Sink) (a : Arrival) :
    (x.receive h sink a).1.Knows (a.key?.toList ++ seen) := by
  obtain ⟨hremembering, hresponse⟩ := Server.response?_dispatch hx.remembering h
    (fun n => sink (x.sent.length + n)) a.readings a.client a.frame
  refine ⟨hremembering, fun k hk => ?_⟩
  simp only [Session.receive, hresponse k]
  split
  · simp
  · next hold =>
    rcases List.mem_append.mp hk with hk | hk
    · have hkey : a.key? = some k := Option.mem_toList.mp hk
      exact fun hnone => hold ⟨hkey, hnone⟩
    · exact hx.known k hk

/-- What is no request, and a request that is known, leave nothing behind. -/
theorem Knows.receive_known (hx : x.Knows seen) (h : Handler σ) (sink : Sink)
    (ha : ∀ k, a.key? = some k → k ∈ seen) : (x.receive h sink a).1.Alike x := by
  have hcases := Server.dispatches hx.remembering.semantics h (fun n => sink (x.sent.length + n))
    a.readings a.client a.frame
  simp only [Session.receive]
  generalize x.server.dispatch h _ a.readings a.client a.frame = after at hcases
  cases hcases with
  | rejected malformed => exact ⟨(Server.Alike.of_metrics _ _).symm, List.append_nil _⟩
  | echoed decoded echo => exact ⟨(Server.Alike.of_metrics _ _).symm, List.append_nil _⟩
  | @known request response metrics decoded noEcho known =>
    refine ⟨(Server.Alike.of_metrics _ _).symm, ?_⟩
    cases response with
    | none => exact List.append_nil _
    | some reply => exact List.append_nil _
  | executed metrics decoded noEcho new =>
    have hkey := ha _ (Server.keyOf?_of_request decoded noEcho)
    exact absurd new (hx.known _ hkey)

/-- The run without the datagrams that leave nothing behind goes along with the whole run. -/
theorem run_newcomers (ha : x.Alike x') (hx : x.Knows seen) (h : Handler σ) (sink : Sink)
    (arrivals : List Arrival) :
    (run h sink x arrivals).1.Alike (run h sink x' (newcomers Arrival.key? seen arrivals)).1 ∧
      newcomers (fun p => p.1.key?) seen (run h sink x arrivals).2 =
        (run h sink x' (newcomers Arrival.key? seen arrivals)).2 := by
  induction arrivals generalizing x x' seen with
  | nil => exact ⟨ha, rfl⟩
  | cons a arrivals ih =>
    have hnext := hx.receive h sink a
    -- A datagram that is left out keeps the sessions alike, and what was seen stays known.
    have hdropped (hold : ∀ k, a.key? = some k → k ∈ seen) :=
      have hsame := hx.receive_known h sink hold
      ih ⟨hsame.server.trans ha.server, hsame.sent.trans ha.sent⟩
        (hnext.mono (List.subset_append_right ..))
    simp only [run, newcomers]
    cases hkey : a.key? with
    | none => exact hdropped (by simp [hkey])
    | some k =>
      simp only
      by_cases hk : k ∈ seen
      · simp only [if_pos hk]
        exact hdropped (by simp [hkey, hk])
      · simp only [if_neg hk, run]
        rw [hkey] at hnext
        have hknows : (x.receive h sink a).1.Knows (k :: seen) := hnext
        obtain ⟨halike, hanswer⟩ := ha.receive h sink a
        obtain ⟨hend, hanswers⟩ := ih halike hknows
        exact ⟨hend, congrArg₂ List.cons (congrArg _ hanswer) hanswers⟩

end Session

/-! ## The main statement -/

/-- **Nothing but new requests counts.** Without garbage, echoes and repeated requests, a booking
service comes to the same and gives the others the same answers. -/
theorem BookingService.retransmissions_leave_no_trace (supply : IdSupply) (service : BookingService)
    (sink : Sink) (arrivals : List Arrival) :
    let start := Session.start (Server.start .atMostOnce 0 service)
    let whole := Session.run (handler supply) sink start arrivals
    let reduced := Session.run (handler supply) sink start (newcomers Arrival.key? [] arrivals)
    whole.1.server.handler.catalog = reduced.1.server.handler.catalog ∧
      whole.1.server.handler.issued = reduced.1.server.handler.issued ∧
      whole.1.server.history = reduced.1.server.history ∧
      whole.1.server.monitors = reduced.1.server.monitors ∧
      whole.1.sent = reduced.1.sent ∧
      newcomers (fun answered => answered.1.key?) [] whole.2 = reduced.2 := by
  intro start whole reduced
  have hstart : start.Knows [] := ⟨Server.remembering_start service, by simp⟩
  obtain ⟨halike, hanswers⟩ :=
    Session.run_newcomers ⟨.refl _, rfl⟩ hstart (handler supply) sink arrivals
  obtain ⟨metrics, hserver⟩ := halike.server
  have hreduced : reduced.1.server = { whole.1.server with metrics } := hserver
  rw [hreduced]
  exact ⟨rfl, rfl, rfl, rfl, halike.sent, hanswers⟩

end DatagramRpc
