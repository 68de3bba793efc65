import DatagramRpc.Proofs.Metrics.Counters
import DatagramRpc.Proofs.Server.Correlation
import DatagramRpc.Proofs.Server.Notification

/-!
# Metrics account for every datagram

Whatever becomes of a datagram, it is counted once where it belongs: as a request of its operation
or as a refusal of its kind, as an answer that was repeated, as a request that was executed and
timed, and with every notification that went out because of it. `Course` says what a dispatch can do
under either semantics. Each course makes one entry in the books, and a run makes one for each of
its datagrams.

The server may remember anything when it starts, but has counted nothing. Where every request is
executed, no answer comes from the history.
-/

namespace DatagramRpc

variable {σ : Type}

private theorem Operation.name_injective {a b : Operation} (h : a.name = b.name) : a = b := by
  cases a <;> cases b <;> first | rfl | exact absurd h (by decide)

/-- The operation that a datagram asks for; none if it is no envelope. -/
def Arrival.operation? (a : Arrival) : Option Operation :=
  match Envelope.ofFrame a.frame with
  | .ok request => some request.operation
  | .error _ => none

/-- What is wrong with a datagram; none if it is an envelope. -/
def Arrival.failure? (a : Arrival) : Option FaultKind :=
  match Envelope.ofFrame a.frame with
  | .ok _ => none
  | .error fault => some fault.kind

namespace Arrival

variable {a : Arrival}

private theorem operation?_of_request {request : Envelope}
    (decoded : Envelope.ofFrame a.frame = .ok request) :
    a.operation? = some request.operation ∧ a.failure? = none := by
  rw [operation?, failure?, decoded]
  exact ⟨rfl, rfl⟩

private theorem operation?_of_error {fault : Fault}
    (malformed : Envelope.ofFrame a.frame = .error fault) :
    a.operation? = none ∧ a.failure? = some fault.kind := by
  rw [operation?, failure?, malformed]
  exact ⟨rfl, rfl⟩

private theorem operation?_eq_none_iff : a.operation? = none ↔ a.failure? ≠ none := by
  rw [operation?, failure?]
  cases Envelope.ofFrame a.frame <;> simp

end Arrival

/-- A call of a handler, and what came of it. -/
structure HandlerCall where
  request : Envelope
  result : Except Fault Outcome

/-- The same handler, with a list of its calls. -/
def Handler.noting (h : Handler σ) : Handler (σ × List HandlerCall) :=
  h.keeping fun _ request result => ⟨request, result⟩

/-- All that subscribers can be told in this state is short enough to be sent. -/
def Handler.Brief (h : Handler σ) (state : σ) : Prop :=
  ∀ resource message, h.snapshot state resource = .ok message →
    (Text.encodeUtf8 message).length ≤ Wire.greatestLength

/-- The calls of the handler while datagrams are processed one after another. -/
def Session.handlerCalls (h : Handler σ) (sink : Sink) (s : Server σ) (arrivals : List Arrival) :
    List HandlerCall :=
  let noting : Server (σ × List HandlerCall) :=
    ⟨s.semantics, s.history, s.monitors, s.metrics, (s.handler, [])⟩
  (run h.noting sink (start noting) arrivals).1.server.handler.2

/-- How many requests of an operation were answered in this way. -/
def answeredAs (answers : List (Arrival × Dispatched)) (d : Disposition) (op : Operation) : Nat :=
  answers.countP fun a => a.2.disposition = d ∧ a.1.operation? = some op

open Server in
/-- The metrics tell of these datagrams with their answers, of these calls of the handler and of
these attempts to notify a subscriber, all of them modulo 2^64. -/
structure Accounts (m : Metrics.Rpc) (answers : List (Arrival × Dispatched))
    (calls : List HandlerCall) (attempts : List Attempt) : Prop where
  requests (op : Operation) :
    (m.counter .requests).get (opLabel op) = .ofNat (answers.countP (·.1.operation? = some op))
  answered (op : Operation) :
    answers.countP (·.1.operation? = some op) =
      answeredAs answers .echoed op + answeredAs answers .executed op +
        answeredAs answers .replayed op +
        answeredAs answers .inProgress op
  replays (op : Operation) : (m.counter .replays).get (opLabel op) =
    .ofNat (answeredAs answers .replayed op)
  timed (op : Operation) : m.dispatchDuration.count (opLabel op) =
    .ofNat (answeredAs answers .executed op)
  called (op : Operation) : answeredAs answers .executed op =
    calls.countP (·.request.operation = op)
  failed (op : Operation) :
    (m.counter .handlerErrors).get (opLabel op) =
      .ofNat (calls.countP fun c => c.request.operation = op ∧ ¬ c.result.isOk)
  rejected : ∀ a ∈ answers, a.2.disposition = .rejected ↔ a.1.operation? = none
  /-- Every refusal under the code of its kind, -/
  refused (kind : FaultKind) :
    (m.counter .decodeErrors).get [("code", kind.code)] =
      .ofNat (answers.countP fun a => a.2.disposition = .rejected ∧ a.1.failure? = some kind)
  /-- and nothing else under any other labels. -/
  refusals :
    ((m.counter .decodeErrors).series.map (·.2)).sum =
      .ofNat (answers.countP (·.2.disposition = .rejected))
  attempted :
    (m.counter .notifications).get [("result", "sent")] +
      (m.counter .notifications).get [("result", "failed")] =
      .ofNat attempts.length
  /-- No series is split. -/
  unsplit (e : Metrics.Event) : ((m.counter e).series.map (·.1)).Nodup

private theorem Publication.sent_add_failed (p : Publication) :
    p.sent + p.failed = p.attempts.length + p.unwritten := by
  rw [sent, failed, ← Nat.add_assoc, ← List.length_eq_length_filter_add]

namespace Server

variable {s : Server σ} {h : Handler σ} {sink : Sink} {t : Readings} {client : Address}
  {frame : List UInt8}

@[simp] theorem opLabel_perm_iff {a b : Operation} : (opLabel a).Perm (opLabel b) ↔ a = b := by
  rw [opLabel, opLabel, List.singleton_perm_singleton, Prod.mk.injEq]
  exact ⟨fun h => Operation.name_injective h.2, fun h => ⟨rfl, h ▸ rfl⟩⟩

/-! ## What a dispatch can do -/

/-- The courses that a dispatch can take, under either semantics. -/
inductive Course (s : Server σ) (h : Handler σ) (sink : Sink) (t : Readings) (client : Address)
    (frame : List UInt8) : Server σ × Dispatched → Prop
  | rejected {fault : Fault} (malformed : Envelope.ofFrame frame = .error fault) :
      Course s h sink t client frame (s.countRejected fault, ⟨rejection fault, .rejected, .none⟩)
  | echoed {request : Envelope} (decoded : Envelope.ofFrame frame = .ok request) :
      Course s h sink t client frame (s.countRequest request.operation, ⟨request, .echoed, .none⟩)
  | replayed {request reply : Envelope} (history : History)
      (decoded : Envelope.ofFrame frame = .ok request)
      (once : s.semantics = .atMostOnce) :
      Course s h sink t client frame
        ({ s with
            history
            metrics := (s.metrics.count .requests (opLabel request.operation)).count .replays
              (opLabel request.operation) },
          ⟨reply, .replayed, .none⟩)
  | inProgress {request : Envelope} (history : History)
      (decoded : Envelope.ofFrame frame = .ok request)
      (once : s.semantics = .atMostOnce) :
      Course s h sink t client frame
        ({ s.countRequest request.operation with history },
          ⟨request.reply inProgressPayload, .inProgress, .none⟩)
  | executed {request : Envelope} (history : History)
      (decoded : Envelope.ofFrame frame = .ok request) :
      Course s h sink t client frame
        (({ s.countRequest request.operation with history } : Server σ).run h sink t client request)

private theorem claim_cases (s : Server σ) (request : Envelope) (client : Address) : ∃ history,
    s.claim request client = ({ s with history }, .fresh) ∨
      s.semantics = .atMostOnce ∧ s.claim request client = ({ s with history }, .inFlight) ∨
      s.semantics = .atMostOnce ∧ ∃ reply, s.claim request client =
        ({ s with history, metrics := s.metrics.count .replays (opLabel request.operation) },
          .done reply) := by
  obtain ⟨semantics, history, monitors, metrics, handler⟩ := s
  cases semantics with
  | atLeastOnce => exact ⟨history.begin request client, .inl rfl⟩
  | atMostOnce =>
    simp only [claim]
    obtain ⟨history, claim⟩ := history.claim request client
    cases claim with
    | fresh => exact ⟨history, .inl rfl⟩
    | inFlight => exact ⟨history, .inr (.inl ⟨trivial, rfl⟩)⟩
    | done reply => exact ⟨history, .inr (.inr ⟨trivial, reply, rfl⟩)⟩

private theorem course_dispatch (s : Server σ) (h : Handler σ) (sink : Sink) (t : Readings)
    (client : Address) (frame : List UInt8) :
    Course s h sink t client frame (s.dispatch h sink t client frame) := by
  unfold dispatch
  cases hframe : Envelope.ofFrame frame with
  | error fault => exact .rejected hframe
  | ok request =>
    simp only [answer]
    by_cases hecho : request.operation = .echo
    · rw [if_pos hecho]
      exact .echoed hframe
    · rw [if_neg hecho]
      obtain ⟨history, hfresh | ⟨hs, hflight⟩ | ⟨hs, reply, hdone⟩⟩ :=
        claim_cases (s.countRequest request.operation) request client
      · rw [hfresh]
        exact .executed history hframe
      · rw [hflight]
        exact .inProgress history hframe hs
      · rw [hdone]
        exact .replayed history hframe hs

/-- What announcing a change does to the metrics: nothing, or the notices of one publication are
counted. -/
inductive Announced (h : Handler σ) (handler : σ) (m : Metrics.Rpc) :
    Metrics.Rpc × Publication → Prop
  | quiet : Announced h handler m (m, .none)
  | published (g : Registry) (sink : Sink) (now : Instant) {resource message : String}
      (told : h.snapshot handler resource = .ok message) :
      Announced h handler m
        ((m.add .notifications [("result", "sent")]
            (.ofNat (g.publish sink now resource message).sent)).add
            .notifications [("result", "failed")]
              (.ofNat (g.publish sink now resource message).failed),
          g.publish sink now resource message)

private theorem announced_announce (s : Server σ) (h : Handler σ) (sink : Sink) (t : Readings)
    (op : Operation) (changed : Option String) :
    Announced h s.handler s.metrics
      ((s.announce h sink t op changed).1.metrics, (s.announce h sink t op changed).2) := by
  unfold announce
  cases op.isMutating with
  | false => exact .quiet
  | true =>
    cases changed with
    | none => exact .quiet
    | some resource =>
      simp only [notify]
      cases hmessage : h.snapshot s.handler resource with
      | error fault => exact .quiet
      | ok message => exact .published _ sink t.published hmessage

/-- The metrics once the handler has returned. -/
def countFailure (m : Metrics.Rpc) (op : Operation) : Except Fault Outcome → Metrics.Rpc
  | .ok _ => m
  | .error _ => m.count .handlerErrors (opLabel op)

/-- A request that is executed is one call of the handler. If it fails, this is counted before a
change is announced and the time is taken. -/
theorem noted_run (s : Server (σ × List HandlerCall)) (h : Handler σ) (sink : Sink) (t : Readings)
    (client : Address) (request : Envelope) : ∃ result metrics,
      (s.run h.noting sink t client request).1.handler.2 = s.handler.2 ++ [⟨request, result⟩] ∧
      (s.run h.noting sink t client request).2.disposition = .executed ∧
      Announced h.noting (s.run h.noting sink t client request).1.handler
        (countFailure s.metrics request.operation result)
        (metrics, (s.run h.noting sink t client request).2.publication) ∧
      (s.run h.noting sink t client request).1.metrics =
        metrics.observe (opLabel request.operation) (t.finished.since t.received) := by
  obtain ⟨result, hresult⟩ :
      ∃ result, (h.handle ⟨client, t.handled⟩ request (s.handler.1, s.monitors)).1 = result :=
        ⟨_, rfl⟩
  have hcalls :
      (s.execute h.noting request ⟨client, t.handled⟩).1.handler.2 = s.handler.2 ++
        [⟨request, result⟩] := by
    simp only [execute, Handler.noting, Handler.keeping, hresult]
    cases result <;> rfl
  have hmetrics : (s.execute h.noting request ⟨client, t.handled⟩).1.metrics =
      countFailure s.metrics request.operation result := by
    simp only [execute, Handler.noting, Handler.keeping, hresult]
    cases result <;> rfl
  simp only [run]
  generalize s.execute h.noting request ⟨client, t.handled⟩ = executed at hcalls hmetrics
  obtain ⟨s', reply, changed⟩ := executed
  have hsame :=
    (announce_cases (s'.record request client reply) h.noting sink t request.operation changed).1
  refine ⟨result, _, ?_, trivial, ?_, rfl⟩
  · rw [finish, hsame]
    exact hcalls
  · rw [← hmetrics, finish, hsame]
    exact announced_announce (s'.record request client reply) h.noting sink t
      request.operation changed

/-! ## Notices -/

/-- The notices that the metrics tell of. -/
def noticed (m : Metrics.Rpc) : UInt64 :=
  (m.counter .notifications).get [("result", "sent")] +
    (m.counter .notifications).get [("result", "failed")]

/-- What is announced in texts that can be sent shows in the counter of notices alone. -/
structure Notices (m m' : Metrics.Rpc) (attempts : List Attempt) : Prop where
  counters : ∀ e ≠ .notifications, m'.counter e = m.counter e
  durations : m'.dispatchDuration = m.dispatchDuration
  attempted : noticed m' = noticed m + .ofNat attempts.length
  unsplit : ((m.counter .notifications).series.map (·.1)).Nodup →
    ((m'.counter .notifications).series.map (·.1)).Nodup

private theorem Announced.notices {handler : σ} {m m' : Metrics.Rpc} {p : Publication}
    (ha : Announced h handler m (m', p)) (hbrief : h.Brief handler) : Notices m m' p.attempts := by
  cases ha with
  | quiet => exact ⟨fun _ _ => rfl, rfl, (UInt64.add_zero _).symm, id⟩
  | @published g sink now resource message told =>
    obtain ⟨datagrams, -, hpublish⟩ :=
      g.informs_publish (hbrief resource message told) sink now resource
    have htotal := (g.publish sink now resource message).sent_add_failed
    rw [show (g.publish sink now resource message).unwritten = 0 by rw [hpublish],
      Nat.add_zero] at htotal
    refine ⟨fun e he => ?_, ?_, ?_, fun hn => ?_⟩
    · rw [Metrics.Rpc.counter_add, if_neg he, Metrics.Rpc.counter_add, if_neg he]
    · rw [Metrics.Rpc.dispatchDuration_add, Metrics.Rpc.dispatchDuration_add]
    · rw [← htotal, UInt64.ofNat_add]
      have hsent : ¬ [("result", "sent")].Perm [("result", "failed")] := by simp
      have hfailed : ¬ [("result", "failed")].Perm [("result", "sent")] := by simp
      simp only [noticed, Metrics.Rpc.counter_add, Metrics.Counter.get_add, if_true,
        List.Perm.refl, hsent, hfailed, if_false, UInt64.add_zero]
      ac_rfl
    · rw [Metrics.Rpc.counter_add, if_pos rfl, Metrics.Rpc.counter_add, if_pos rfl]
      exact Metrics.Counter.nodup_add (Metrics.Counter.nodup_add hn _ _) _ _

end Server

/-! ## The books -/

namespace Accounting

open Server

/-- The labels that each counter was used under, in the order of the datagrams and of the calls. -/
def counted (answers : List (Arrival × Dispatched)) (calls : List HandlerCall) :
    Metrics.Event → List Metrics.Labels
  | .requests => answers.filterMap fun a => a.1.operation?.map opLabel
  | .replays => answers.filterMap fun a =>
    if a.2.disposition = .replayed then a.1.operation?.map opLabel else none
  | .decodeErrors => answers.filterMap fun a => a.1.failure?.map fun kind => [("code", kind.code)]
  | .handlerErrors => calls.filterMap fun c =>
    if c.result.isOk then none else some (opLabel c.request.operation)
  | .notifications | .simulatedDrops => []

/-- The operation of a request that was executed. -/
def executed? (a : Arrival × Dispatched) : Option Operation :=
  if a.2.disposition = .executed then a.1.operation? else none

/-- What one datagram and the calls made for it add to the metrics. -/
structure Entry (m m' : Metrics.Rpc) (a : Arrival × Dispatched) (made : List HandlerCall) :
    Prop where
  counters : ∀ e ≠ .notifications,
    m'.counter e = (counted [a] made e).foldl .increment (m.counter e)
  timed (op : Operation) :
    m'.dispatchDuration.count (opLabel op) =
      m.dispatchDuration.count (opLabel op) + if executed? a = some op then 1 else 0
  attempted : noticed m' = noticed m + .ofNat a.2.publication.attempts.length
  unsplit : ((m.counter .notifications).series.map (·.1)).Nodup →
    ((m'.counter .notifications).series.map (·.1)).Nodup
  called : made.map (·.request.operation) = (executed? a).toList
  decided : a.2.disposition = .rejected ↔ a.1.operation? = none

/-- All that the metrics tell of a run. -/
structure Ledger (m : Metrics.Rpc) (answers : List (Arrival × Dispatched))
    (calls : List HandlerCall) (attempts : List Attempt) : Prop where
  counters : ∀ e ≠ .notifications, m.counter e = .added ((counted answers calls e).map (·, 1))
  timed (op : Operation) : m.dispatchDuration.count (opLabel op) =
    .ofNat (answers.countP (executed? · = some op))
  attempted : noticed m = .ofNat attempts.length
  unsplit : ((m.counter .notifications).series.map (·.1)).Nodup
  called : calls.map (·.request.operation) = answers.filterMap executed?
  decided : ∀ a ∈ answers, a.2.disposition = .rejected ↔ a.1.operation? = none

variable {m m' : Metrics.Rpc} {answers : List (Arrival × Dispatched)}
  {calls made : List HandlerCall} {attempts : List Attempt} {a : Arrival × Dispatched}

private theorem ledger_empty : Ledger .empty [] [] [] where
  counters e _ := by cases e <;> rfl
  timed _ := rfl
  attempted := rfl
  unsplit := .nil
  called := rfl
  decided _ ha := nomatch ha

private theorem counted_append (answers answers' : List (Arrival × Dispatched))
    (calls calls' : List HandlerCall) (e : Metrics.Event) :
    counted (answers ++ answers') (calls ++ calls') e = counted answers calls e ++
      counted answers' calls' e := by
  cases e <;> simp only [counted, List.filterMap_append, List.append_nil]

/-- One entry more, and the books are still right. -/
theorem Ledger.enter (hb : Ledger m answers calls attempts) (he : Entry m m' a made) :
    Ledger m' (answers ++ [a]) (calls ++ made) (attempts ++ a.2.publication.attempts) where
  counters e hne := by
    rw [he.counters e hne, hb.counters e hne, counted_append, List.map_append]
    simp only [Metrics.Counter.added, List.foldl_append, List.foldl_map]
    rfl
  timed op := by
    rw [he.timed, hb.timed, List.countP_append, List.countP_singleton, UInt64.ofNat_add]
    split <;> simp_all
  attempted := by rw [he.attempted, hb.attempted, List.length_append, UInt64.ofNat_add]
  unsplit := he.unsplit hb.unsplit
  called := by
    rw [List.map_append, hb.called, he.called, List.filterMap_append]
    cases h : executed? a <;> simp [h]
  decided b hmem := by
    rcases List.mem_append.mp hmem with hold | hnew
    · exact hb.decided b hold
    · rw [List.mem_singleton.mp hnew]
      exact he.decided

/-! ## The entry of each course -/

/-- A datagram that does not reach the handler is not timed and has nothing announced. -/
theorem Entry.of_silent
    (hcounters : ∀ e, m'.counter e = (counted [a] [] e).foldl .increment (m.counter e))
    (hdurations : m'.dispatchDuration = m.dispatchDuration) (hquiet : a.2.publication = .none)
    (hunexecuted : a.2.disposition ≠ .executed)
    (hdecided : a.2.disposition = .rejected ↔ a.1.operation? = none) : Entry m m' a [] where
  counters e _ := hcounters e
  timed op := by simp [hdurations, executed?, hunexecuted]
  attempted := by
    have hsame : m'.counter .notifications = m.counter .notifications := hcounters .notifications
    simp [noticed, hsame, hquiet, Publication.none]
  unsplit hn := by
    rw [hcounters .notifications]
    exact hn
  called := by simp [executed?, hunexecuted]
  decided := hdecided

variable {b : Arrival}

/-- A request that is executed is timed, and the only call of the handler is made for it. -/
theorem entry_of_run {s : Server (σ × List HandlerCall)} {h : Handler σ} {sink : Sink}
    {request : Envelope} (decoded : Envelope.ofFrame b.frame = .ok request)
    (hcounted : s.metrics = m.count .requests (opLabel request.operation))
    (hbrief : h.Brief (s.run h.noting sink b.readings b.client request).1.handler.1) : ∃ made,
    (s.run h.noting sink b.readings b.client request).1.handler.2 = s.handler.2 ++ made ∧
      Entry m (s.run h.noting sink b.readings b.client request).1.metrics
        (b, (s.run h.noting sink b.readings b.client request).2) made := by
  obtain ⟨hop, hfailure⟩ := Arrival.operation?_of_request decoded
  obtain ⟨result, metrics, hcalls, hdisposition, hannounced, hmetrics⟩ :=
    noted_run s h sink b.readings b.client request
  have hnotices := hannounced.notices hbrief
  generalize s.run h.noting sink b.readings b.client request =
    after at hcalls hdisposition hmetrics hnotices
  have hfailed (e : Metrics.Event) : (countFailure s.metrics request.operation result).counter e =
      (counted [(b, after.2)] [⟨request, result⟩] e).foldl .increment (m.counter e) := by
    rw [hcounted]
    cases e <;> cases result <;>
      simp [countFailure, Metrics.Rpc.counter_count, counted, hop, hfailure, hdisposition,
        Except.isOk, Except.toBool]
  have hdurations : metrics.dispatchDuration = m.dispatchDuration := by
    rw [hnotices.durations, hcounted]
    cases result <;> simp only [countFailure, Metrics.Rpc.dispatchDuration_count]
  have hsame : (countFailure s.metrics request.operation result).counter .notifications =
      m.counter .notifications :=
    hfailed .notifications
  refine ⟨_, hcalls, fun e he => ?_, fun op => ?_, ?_, fun hn => ?_, ?_, ?_⟩
  · rw [hmetrics, Metrics.Rpc.counter_observe, hnotices.counters e he, hfailed]
  · rw [hmetrics, Metrics.Rpc.observe, Metrics.Histogram.count_observe, hdurations]
    simp [executed?, hdisposition, hop]
  · rw [noticed, hmetrics, Metrics.Rpc.counter_observe, ← noticed, hnotices.attempted,
      noticed, hsame, noticed]
  · rw [hmetrics, Metrics.Rpc.counter_observe]
    exact hnotices.unsplit (hsame ▸ hn)
  · simp [executed?, hdisposition, hop]
  · simp [hdisposition, hop]

private theorem entry_of_course {s : Server (σ × List HandlerCall)} {h : Handler σ} {sink : Sink}
    {after : Server (σ × List HandlerCall) × Dispatched}
    (hcourse : Course s h.noting sink b.readings b.client b.frame after)
    (hbrief : h.Brief after.1.handler.1) :
    ∃ made, after.1.handler.2 = s.handler.2 ++ made ∧
      Entry s.metrics after.1.metrics (b, after.2) made := by
  cases hcourse with
  | rejected malformed =>
    obtain ⟨hop, hfailure⟩ := Arrival.operation?_of_error malformed
    refine ⟨[], (List.append_nil _).symm, .of_silent (fun e => ?_) ?_ rfl (by simp) (by simp [hop])⟩
    · cases e <;> simp [countRejected, Metrics.Rpc.counter_count, counted, hop, hfailure]
    · exact Metrics.Rpc.dispatchDuration_count ..
  | echoed decoded =>
    obtain ⟨hop, hfailure⟩ := Arrival.operation?_of_request decoded
    refine ⟨[], (List.append_nil _).symm, .of_silent (fun e => ?_) ?_ rfl (by simp) (by simp [hop])⟩
    · cases e <;> simp [countRequest, Metrics.Rpc.counter_count, counted, hop, hfailure]
    · exact Metrics.Rpc.dispatchDuration_count ..
  | replayed history decoded =>
    obtain ⟨hop, hfailure⟩ := Arrival.operation?_of_request decoded
    refine ⟨[], (List.append_nil _).symm, .of_silent (fun e => ?_) ?_ rfl (by simp) (by simp [hop])⟩
    · cases e <;> simp [Metrics.Rpc.counter_count, counted, hop, hfailure]
    · rw [Metrics.Rpc.dispatchDuration_count, Metrics.Rpc.dispatchDuration_count]
  | inProgress history decoded =>
    obtain ⟨hop, hfailure⟩ := Arrival.operation?_of_request decoded
    refine ⟨[], (List.append_nil _).symm, .of_silent (fun e => ?_) ?_ rfl (by simp) (by simp [hop])⟩
    · cases e <;> simp [countRequest, Metrics.Rpc.counter_count, counted, hop, hfailure]
    · exact Metrics.Rpc.dispatchDuration_count ..
  | executed history decoded => exact entry_of_run decoded rfl hbrief

/-- A request is answered in one of four ways. -/
theorem countP_operation?
    (hdecided : ∀ a ∈ answers, a.2.disposition = .rejected ↔ a.1.operation? = none)
    (op : Operation) :
    answers.countP (·.1.operation? = some op) =
      answeredAs answers .echoed op + answeredAs answers .executed op +
        answeredAs answers .replayed op + answeredAs answers .inProgress op := by
  simp only [answeredAs]
  induction answers with
  | nil => rfl
  | cons a answers ih =>
    obtain ⟨ha, hothers⟩ := List.forall_mem_cons.mp hdecided
    have hrest := ih hothers
    by_cases hop : a.1.operation? = some op
    · cases hd : a.2.disposition with
      | rejected => simp [hop, hd] at ha
      | _ => simp [hop, hd, hrest]; omega
    · simp [hop, hrest]

/-- The books say all that the metrics are asked for. -/
theorem Ledger.accounts (hb : Ledger m answers calls attempts) :
    Accounts m answers calls attempts where
  requests op := by
    rw [hb.counters .requests (by decide), Metrics.Counter.get_incremented, counted,
      List.countP_filterMap]
    congr 2
    funext a
    cases a.1.operation? <;> simp
  answered op := countP_operation? hb.decided op
  replays op := by
    rw [hb.counters .replays (by decide), Metrics.Counter.get_incremented, counted,
      List.countP_filterMap, answeredAs]
    congr 2
    funext a
    by_cases hd : a.2.disposition = .replayed <;> cases a.1.operation? <;> simp [hd]
  timed op := by
    rw [hb.timed, answeredAs]
    congr 2
    funext a
    by_cases hd : a.2.disposition = .executed <;> simp [executed?, hd]
  called op := by
    have hcount : calls.countP (·.request.operation = op) =
        (calls.map (·.request.operation)).countP (· = op) := by
      rw [List.countP_map]
      rfl
    rw [hcount, hb.called, List.countP_filterMap, answeredAs]
    congr 1
    funext a
    by_cases hd : a.2.disposition = .executed <;> cases h : a.1.operation? <;>
      simp [executed?, h, hd]
  failed op := by
    rw [hb.counters .handlerErrors (by decide), Metrics.Counter.get_incremented, counted,
      List.countP_filterMap]
    congr 2
    funext c
    by_cases hok : c.result.isOk <;> simp [hok]
  rejected := hb.decided
  refused kind := by
    rw [hb.counters .decodeErrors (by decide), Metrics.Counter.get_incremented, counted,
      List.countP_filterMap]
    congr 1
    refine List.countP_congr fun a ha => ?_
    have hrefused := (hb.decided a ha).trans Arrival.operation?_eq_none_iff
    cases hfailure : a.1.failure? with
    | none => simp
    | some other =>
      have hdisposition : a.2.disposition = .rejected := hrefused.mpr (by simp [hfailure])
      have hkind : other.code = kind.code ↔ other = kind :=
        ⟨FaultKind.code_injective, congrArg FaultKind.code⟩
      simp [hdisposition, hkind]
  refusals := by
    rw [hb.counters .decodeErrors (by decide), Metrics.Counter.sum_incremented, counted,
      List.length_filterMap_eq_countP]
    congr 1
    refine List.countP_congr fun a ha => ?_
    have hrefused := (hb.decided a ha).trans Arrival.operation?_eq_none_iff
    cases hfailure : a.1.failure? <;> simp [hrefused, hfailure]
  attempted := hb.attempted
  unsplit e := by
    by_cases he : e = .notifications
    · exact he ▸ hb.unsplit
    · rw [hb.counters e he]
      exact Metrics.Counter.nodup_added _

/-! ## Runs -/

variable {h : Handler σ} {sink : Sink} {x : Session (σ × List HandlerCall)}

private theorem ledger_receive (hl : Ledger x.server.metrics answers x.server.handler.2 x.sent)
    (b : Arrival) (hbrief : h.Brief (x.receive h.noting sink b).1.server.handler.1) :
    Ledger (x.receive h.noting sink b).1.server.metrics
      (answers ++ [(b, (x.receive h.noting sink b).2)])
      (x.receive h.noting sink b).1.server.handler.2 (x.receive h.noting sink b).1.sent := by
  obtain ⟨made, hcalls, hentry⟩ := entry_of_course
    (course_dispatch x.server h.noting
      (fun n => sink (x.sent.length + n)) b.readings b.client b.frame) hbrief
  have hnext := hl.enter hentry
  rw [← hcalls] at hnext
  exact hnext

/-- Every datagram of a run has its entry in the books. -/
theorem ledger_run {arrivals : List Arrival}
    (hl : Ledger x.server.metrics answers x.server.handler.2 x.sent)
    (hbrief : ∀ earlier, earlier <+: arrivals →
      h.Brief (x.run h.noting sink earlier).1.server.handler.1) :
    Ledger (x.run h.noting sink arrivals).1.server.metrics
      (answers ++ (x.run h.noting sink arrivals).2)
      (x.run h.noting sink arrivals).1.server.handler.2 (x.run h.noting sink arrivals).1.sent := by
  induction arrivals generalizing x answers with
  | nil =>
    rw [Session.run, List.append_nil]
    exact hl
  | cons b arrivals ih =>
    have hfirst := ledger_receive hl b (hbrief [b] ⟨arrivals, rfl⟩)
    have hothers :=
      ih hfirst fun earlier he => hbrief (b :: earlier) ((List.prefix_cons_inj b).mpr he)
    rw [List.append_assoc] at hothers
    exact hothers

end Accounting

/-! ## Without a history of answers -/

namespace Server

private theorem disposition_run (s : Server σ) (h : Handler σ) (sink : Sink) (t : Readings)
    (client : Address) (request : Envelope) :
    (s.run h sink t client request).2.disposition = .executed := by
  unfold run
  rfl

/-- A server that executes every request keeps doing so, and answers none in another way. -/
theorem Course.always_executes {after : Server σ × Dispatched}
    (hc : Course s h sink t client frame after) (hs : s.semantics = .atLeastOnce) :
    after.1.semantics = .atLeastOnce ∧ after.2.disposition ≠ .replayed ∧
    after.2.disposition ≠ .inProgress := by
  cases hc with
  | rejected malformed => exact ⟨hs, by simp, by simp⟩
  | echoed decoded => exact ⟨hs, by simp, by simp⟩
  | replayed history decoded once => simp [hs] at once
  | inProgress history decoded once => simp [hs] at once
  | executed history decoded =>
    rw [semantics_run, disposition_run]
    exact ⟨hs, by simp, by simp⟩

end Server

namespace Session

private theorem run_always_executes {x : Session σ} (hs : x.server.semantics = .atLeastOnce)
    (h : Handler σ) (sink : Sink) (arrivals : List Arrival) :
    ∀ a ∈ (run h sink x arrivals).2, a.2.disposition ≠ .replayed ∧
      a.2.disposition ≠ .inProgress := by
  induction arrivals generalizing x with
  | nil => exact fun _ ha => nomatch ha
  | cons b arrivals ih =>
    obtain ⟨hnext, hanswer⟩ :=
      (Server.course_dispatch x.server h (fun n => sink (x.sent.length + n)) b.readings
      b.client b.frame).always_executes hs
    refine List.forall_mem_cons.mpr ⟨hanswer, ?_⟩
    exact ih hnext

/-! ## The main statement -/

/-- **Every datagram is accounted for**, with every call of the handler and every attempt to notify,
unless a text is too long to be sent. -/
theorem metrics_account_for_every_datagram (h : Handler σ) (s : Server σ)
    (hfresh : s.metrics = .empty) (sink : Sink) (arrivals : List Arrival)
    (hbrief : ∀ earlier, earlier <+: arrivals →
      h.Brief (run h sink (start s) earlier).1.server.handler) :
    let x := run h sink (start s) arrivals
    Accounts x.1.server.metrics x.2 (handlerCalls h sink s arrivals) x.1.sent ∧
      (s.semantics = .atLeastOnce → ∀ a ∈ x.2, a.2.disposition ≠ .replayed ∧
        a.2.disposition ≠ .inProgress) := by
  intro x
  let noting : Session (σ × List HandlerCall) :=
    start ⟨s.semantics, s.history, s.monitors, s.metrics, (s.handler, [])⟩
  -- The run with the list of calls is the same run.
  have hsame (arrivals : List Arrival) : run h sink (start s) arrivals =
      ((noting.run h.noting sink arrivals).1.view Prod.fst,
        (noting.run h.noting sink arrivals).2) :=
    noting.view_run (h.realizes_keeping _) sink arrivals
  have hbegin : Accounting.Ledger noting.server.metrics [] noting.server.handler.2 noting.sent := by
    show Accounting.Ledger s.metrics [] [] []
    rw [hfresh]
    exact Accounting.ledger_empty
  have htexts : ∀ earlier, earlier <+: arrivals →
      h.Brief (noting.run h.noting sink earlier).1.server.handler.1 := by
    intro earlier he
    have hnow := hbrief earlier he
    rw [hsame] at hnow
    exact hnow
  have hledger := Accounting.ledger_run hbegin htexts
  refine ⟨?_, fun hs => run_always_executes hs h sink arrivals⟩
  have haccounts := hledger.accounts
  simp only [x, hsame]
  exact haccounts

/-- Watchers register, writing opens a door, and nothing else can be done. -/
def doorHandler : Handler Unit where
  handle call request state :=
    match request.operation with
    | .monitor => (.ok (.plain "watching"), state.1,
        state.2.register ⟨"door", request.id, call.client, call.now, .ofSeconds 60⟩)
    | .write => (.ok ⟨"opened", some "door"⟩, state)
    | _ => (.error (.badRequest (.unknownOperation request.operation.name)), state)
  snapshot _ _ := .ok "open"

open BookingService (sampleArrival sampleClient)

/-- A server that is still busy with a request. -/
def busyServer : Server Unit :=
  { Server.start .atMostOnce 8 () with
    history := (History.empty 8).begin (.of .read 5 "") (sampleClient 1) }

/-- Garbage, an echo, two subscriptions, a door that is opened, the same again, what the server is
busy with, and what cannot be done. -/
def doorArrivals : List Arrival :=
  ⟨sampleClient 1, [1, 1], .at ⟨0⟩⟩ ::
    [.of .echo 1 "hello", .of .monitor 2 "", .of .monitor 3 "", .of .write 4 "", .of .write 4 "",
      .of .read 5 "", .of .read 6 ""].map (sampleArrival 1)

/-- One of the two notices is sent. -/
def doorRun : Session Unit × List (Arrival × Dispatched) :=
  run doorHandler (fun n _ => n == 0) (start busyServer) doorArrivals

theorem metrics_account_for_every_datagram_door :
    let m := doorRun.1.server.metrics
    busyServer.metrics = .empty ∧ doorRun.2.map (·.2.disposition) =
        [.rejected, .echoed, .executed, .executed, .executed, .replayed, .inProgress, .executed] ∧
      (m.counter .requests).get (Server.opLabel .write) = 2 ∧
      (m.counter .replays).get (Server.opLabel .write) = 1 ∧
      (m.counter .handlerErrors).get (Server.opLabel .read) = 1 ∧
      (m.counter .decodeErrors).get [("code", FaultKind.framing.code)] = 1 ∧
      (m.counter .notifications).get [("result", "sent")] +
        (m.counter .notifications).get [("result", "failed")] = 2 := by
  have hbrief : ∀ earlier, earlier <+: doorArrivals →
      doorHandler.Brief (run doorHandler
        (fun n _ => n == 0) (start busyServer) earlier).1.server.handler := by
    intro earlier _ resource message hmessage
    cases hmessage
    decide +kernel
  obtain ⟨haccounts, -⟩ :=
    metrics_account_for_every_datagram doorHandler busyServer rfl (fun n _ => n == 0)
    doorArrivals hbrief
  rw [← doorRun] at haccounts
  refine ⟨rfl, by decide +kernel, ?_, ?_, ?_, ?_, ?_⟩
  · rw [haccounts.requests]
    decide +kernel
  · rw [haccounts.replays]
    decide +kernel
  · rw [haccounts.failed]
    decide +kernel
  · rw [haccounts.refused]
    decide +kernel
  · rw [haccounts.attempted]
    decide +kernel

end Session

end DatagramRpc
