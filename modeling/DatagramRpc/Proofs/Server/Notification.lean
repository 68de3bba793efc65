import DatagramRpc.Proofs.Message.RoundTrip
import DatagramRpc.Server.Dispatch

/-!
# Notifications

A dispatch announces a change only after its handler has executed a request that may change
something and has reported a resource as changed. Then every live subscriber of this resource is
sent one notice, in the order of registration and whatever becomes of the others. Sweeping the
subscriptions before loses none that is live.
-/

namespace DatagramRpc

/-! ## Subscriptions -/

private theorem MonitorRecord.isExpired_of_le {r : MonitorRecord} {before now : Instant}
    (h : before.nanos ≤ now.nanos) (hr : r.isExpired before = true) : r.isExpired now = true := by
  have hspan : (before.since r.createdAt).nanos ≤ (now.since r.createdAt).nanos :=
    Instant.since_le_since h
  have hlong := of_decide_eq_true hr
  exact decide_eq_true (by omega)

namespace Registry

variable {g : Registry} {resource message : String} {now : Instant}

/-- A sweep loses no subscription that is live later on. -/
theorem live_sweep {swept : Instant} (h : swept.nanos ≤ now.nanos) (g : Registry)
    (resource : String) : (g.sweep swept).live resource now = g.live resource now := by
  rw [live, sweep, List.filter_filter]
  refine List.filter_congr fun r _ => ?_
  cases hnow : r.isExpired now with
  | true => simp
  | false =>
    have hswept : r.isExpired swept = false := by
      refine Bool.eq_false_iff.mpr fun hr => ?_
      rw [MonitorRecord.isExpired_of_le h hr] at hnow
      cases hnow
    simp [hswept]

/-! ## Announcing a change -/

/-- The notice of a change, as it is sent to a subscriber. -/
structure Notifies (message : String) (r : MonitorRecord) (d : Datagram) : Prop where
  receiver : d.receiver = r.client
  written : (notice r message).toFrame = .ok d.frame
  decoded : Envelope.ofFrame d.frame = .ok (.of .monitor r.requestId message)

private theorem exists_notifies (hlength : (Text.encodeUtf8 message).length ≤ Wire.greatestLength)
    (r : MonitorRecord) : ∃ d, Notifies message r d := by
  obtain ⟨frame, hframe⟩ := Envelope.exists_toFrame (e := notice r message) hlength
  exact ⟨⟨r.client, frame⟩, rfl, hframe, Envelope.ofFrame_toFrame hframe⟩

/-- The notices of a change, one for each subscriber. -/
theorem exists_notices (hlength : (Text.encodeUtf8 message).length ≤ Wire.greatestLength)
    (records : List MonitorRecord) :
    ∃ datagrams : List Datagram, List.Forall₂ (Notifies message) records datagrams ∧
      (records.map fun r => (r.client, (notice r message).toFrame)).filterMap
        (fun f => f.2.toOption.map fun frame => ⟨f.1, frame⟩) = datagrams := by
  induction records with
  | nil => exact ⟨[], .nil, rfl⟩
  | cons r records ih =>
    obtain ⟨d, hd⟩ := exists_notifies hlength r
    obtain ⟨datagrams, hall, hwritten⟩ := ih
    refine ⟨d :: datagrams, .cons hd hall, ?_⟩
    rw [List.map_cons, List.filterMap_cons, hd.written, hwritten, ← hd.receiver]
    rfl

end Registry

/-- One notice goes out for each of these subscriptions, in their order, and each is tried whether
or not the others could be sent. -/
def Publication.Informs (p : Publication) (sink : Sink) (message : String)
    (records : List MonitorRecord) :
    Prop :=
  ∃ datagrams, List.Forall₂ (Registry.Notifies message) records datagrams ∧
    p = ⟨datagrams.zipIdx.map fun d => ⟨d.1, sink d.2 d.1⟩, 0⟩

theorem Registry.informs_publish {message : String}
    (hlength : (Text.encodeUtf8 message).length ≤ Wire.greatestLength) (g : Registry) (sink : Sink)
    (now : Instant) (resource : String) :
    (g.publish sink now resource message).Informs sink message (g.live resource now) := by
  obtain ⟨datagrams, hall, hwritten⟩ := exists_notices hlength (g.live resource now)
  refine ⟨datagrams, hall, ?_⟩
  rw [publish]
  simp only [hwritten, List.length_map, hall.length_eq, Nat.sub_self]

/-! ## What a dispatch announces -/

namespace Server

variable {σ : Type} {s before : Server σ} {h : Handler σ} {sink : Sink} {t : Readings}
  {client : Address} {frame : List UInt8} {request : Envelope}

/-- What becomes of the handler and its subscriptions in a dispatch: it has nothing to do, or does
what is not to be announced, or what is. -/
inductive Turn (s : Server σ) (h : Handler σ) (sink : Sink) (t : Readings) (client : Address)
    (frame : List UInt8) : Server σ × Dispatched → Prop
  | idle {after : Server σ × Dispatched} (handler : after.1.handler = s.handler)
      (monitors : after.1.monitors = s.monitors) (quiet : after.2.publication = .none) :
      Turn s h sink t client frame after
  | silent {request : Envelope} {result : Except Fault Outcome} {after : Server σ × Dispatched}
      (decoded : Envelope.ofFrame frame = .ok request)
      (handled : h.handle ⟨client, t.handled⟩ request (s.handler, s.monitors) =
        (result, after.1.handler, after.1.monitors))
      (unchanged : ∀ outcome, result = .ok outcome → request.operation.isMutating = true →
        outcome.changed = none)
      (quiet : after.2.publication = .none) : Turn s h sink t client frame after
  | announced {request : Envelope} {outcome : Outcome} {resource : String} {monitors : Registry}
      {after : Server σ × Dispatched} (decoded : Envelope.ofFrame frame = .ok request)
      (handled : h.handle ⟨client, t.handled⟩ request (s.handler, s.monitors) =
        (.ok outcome, after.1.handler, monitors))
      (mutating : request.operation.isMutating = true) (changed : outcome.changed = some resource)
      (swept : after.1.monitors = monitors.sweep t.swept)
      (published : after.2.publication = match h.snapshot after.1.handler resource with
        | .ok message => after.1.monitors.publish sink t.published resource message
        | .error _ => .none) : Turn s h sink t client frame after

private theorem announce_none (s : Server σ) (h : Handler σ) (sink : Sink) (t : Readings)
    (op : Operation) : s.announce h sink t op none = (s, .none) := by
  unfold announce
  cases op.isMutating <;> rfl

private theorem announce_reading (s : Server σ) (h : Handler σ) (sink : Sink) (t : Readings)
    {op : Operation} (hop : op.isMutating = false) (changed : Option String) :
    s.announce h sink t op changed = (s, .none) := by
  unfold announce
  rw [hop]

private theorem notify_cases (s : Server σ) (h : Handler σ) (sink : Sink) (t : Readings)
    (resource : String) :
    (s.notify h sink t resource).1.handler = s.handler ∧
      (s.notify h sink t resource).1.monitors = s.monitors.sweep t.swept ∧
      (s.notify h sink t resource).2 = match h.snapshot s.handler resource with
        | .ok message => (s.monitors.sweep t.swept).publish sink t.published resource message
        | .error _ => .none := by
  simp only [notify]
  cases h.snapshot s.handler resource <;> exact ⟨rfl, rfl, rfl⟩

/-- A request that is executed, in a state that differs from the one before in what the handler
cannot see. -/
theorem turn_run (hhandler : before.handler = s.handler) (hmonitors : before.monitors = s.monitors)
    (h : Handler σ) (sink : Sink) (t : Readings) (client : Address)
    (hdecoded : Envelope.ofFrame frame = .ok request) :
    s.Turn h sink t client frame (before.run h sink t client request) := by
  obtain ⟨⟨result, handler, monitors⟩, hhandled⟩ :
      ∃ r, h.handle ⟨client, t.handled⟩ request (s.handler, s.monitors) = r := ⟨_, rfl⟩
  rw [run, execute, hhandler, hmonitors, hhandled]
  cases result with
  | error fault =>
    simp only [announce_none]
    exact .silent hdecoded hhandled (fun outcome he => nomatch he) rfl
  | ok outcome =>
    simp only
    cases hop : request.operation.isMutating with
    | false =>
      rw [announce_reading _ h sink t hop]
      refine .silent hdecoded hhandled (fun outcome' _ hmutating => ?_) rfl
      rw [hop] at hmutating
      cases hmutating
    | true =>
      cases hchanged : outcome.changed with
      | none =>
        rw [announce_none]
        refine .silent hdecoded hhandled (fun outcome' he _ => ?_) rfl
        cases he
        exact hchanged
      | some resource =>
        have hannounce (s : Server σ) :
            s.announce h sink t request.operation (some resource) = s.notify h sink t resource := by
          unfold announce
          rw [hop]
        rw [hannounce]
        obtain ⟨hsame, hswept, hpublished⟩ := notify_cases
          (({ before with handler, monitors } : Server σ).record request client
            (request.reply outcome.payload))
          h sink t resource
        refine .announced hdecoded (hhandled.trans ?_) hop hchanged hswept ?_
        · exact congrArg (fun x => (Except.ok outcome, x, monitors)) hsame.symm
        · rw [finish, hsame, hswept]
          exact hpublished

theorem claim_handler (s : Server σ) (request : Envelope) (client : Address) :
    (s.claim request client).1.handler = s.handler ∧
    (s.claim request client).1.monitors = s.monitors := by
  cases hs : s.semantics with
  | atLeastOnce => simp only [claim, hs, and_self]
  | atMostOnce =>
    simp only [claim, hs]
    cases (s.history.claim request client).2 <;> exact ⟨rfl, rfl⟩

theorem turn_dispatch (s : Server σ) (h : Handler σ) (sink : Sink) (t : Readings) (client : Address)
    (frame : List UInt8) : s.Turn h sink t client frame (s.dispatch h sink t client frame) := by
  unfold dispatch
  cases hframe : Envelope.ofFrame frame with
  | error fault => exact .idle rfl rfl rfl
  | ok request =>
    simp only [answer]
    by_cases hecho : request.operation = .echo
    · rw [if_pos hecho]
      exact .idle rfl rfl rfl
    · rw [if_neg hecho]
      have hclaim := claim_handler (s.countRequest request.operation) request client
      generalize (s.countRequest request.operation).claim request client = claimed at hclaim
      obtain ⟨before, claim⟩ := claimed
      obtain ⟨hhandler, hmonitors⟩ : before.handler = s.handler ∧ before.monitors = s.monitors :=
        hclaim
      cases claim with
      | fresh => exact turn_run hhandler hmonitors h sink t client hframe
      | inFlight => exact .idle hhandler hmonitors rfl
      | done reply => exact .idle hhandler hmonitors rfl

end Server

end DatagramRpc
