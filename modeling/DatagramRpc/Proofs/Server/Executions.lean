import DatagramRpc.Proofs.Failure
import DatagramRpc.Proofs.Server.Views

/-!
# Executions

The handler of a server keeps a list of what it has executed, which nothing else reads. For every
key, this list agrees with the history: a key that is unknown has not been executed, and one that is
known has been executed once, for the request that the history holds, which has its reply.
-/

namespace DatagramRpc

variable {σ : Type}

/-- A request that a handler has executed. -/
structure Execution where
  client : Address
  request : Envelope
  deriving DecidableEq, Repr

def Execution.key (x : Execution) : CallKey := ⟨x.request.id, x.client⟩

/-- The same handler, with a list of what it has executed. -/
def Handler.logged (h : Handler σ) : Handler (σ × List Execution) where
  handle call request state :=
    let (result, s, monitors) := h.handle call request (state.1.1, state.2)
    (result, (s, state.1.2 ++ [⟨call.client, request⟩]), monitors)
  snapshot s := h.snapshot s.1

theorem Handler.realizes_logged (h : Handler σ) : h.logged.Realizes h Prod.fst :=
  h.realizes_keeping fun call request _ => (⟨call.client, request⟩ : Execution)

namespace Server

/-! ## What an execution does -/

/-- What is left of a server, and what it answers, when it has executed a request. -/
structure Ran (s : Server σ) (h : Handler σ) (t : Readings) (client : Address) (request : Envelope)
    (after : Server σ × Dispatched) : Prop where
  history : after.1.history = s.history.record request client after.2.reply
  handler : after.1.handler = (h.handle ⟨client, t.handled⟩ request (s.handler, s.monitors)).2.1
  monitors : after.1.monitors.records ⊆
    (h.handle ⟨client, t.handled⟩ request (s.handler, s.monitors)).2.2.records
  reply : ∃ payload, after.2.reply = request.reply payload
  notices : ∀ a ∈ after.2.publication.attempts, ∃ r ∈ after.1.monitors.records, ∃ message,
    a.datagram.receiver = r.client ∧ (Registry.notice r message).toFrame = .ok a.datagram.frame

/-- Only live subscribers of the resource are sent to, and each under its own number. -/
theorem mem_publish {g : Registry} {sink : Sink} {now : Instant} {resource message : String}
    {a : Attempt} (ha : a ∈ (g.publish sink now resource message).attempts) :
    ∃ r ∈ g.records, r.resource = resource ∧ a.datagram.receiver = r.client ∧
      (Registry.notice r message).toFrame = .ok a.datagram.frame := by
  obtain ⟨⟨d, n⟩, hd, rfl⟩ := List.mem_map.mp ha
  have hmem := List.mem_of_getElem? (List.mem_zipIdx_iff_getElem?.mp hd)
  obtain ⟨⟨receiver, frame⟩, hf, hframe⟩ := List.mem_filterMap.mp hmem
  obtain ⟨r, hr, hnotice⟩ := List.mem_map.mp hf
  cases hnotice
  obtain ⟨bytes, hbytes, rfl⟩ := Option.map_eq_some_iff.mp hframe
  obtain ⟨hrecord, hlive⟩ := List.mem_filter.mp hr
  exact ⟨r, hrecord, eq_of_beq (Bool.and_eq_true_iff.mp hlive).1, rfl, ok_of_toOption hbytes⟩

/-- Announcing a change only sweeps the subscriptions, and sends notices to them. -/
theorem announce_cases (s : Server σ) (h : Handler σ) (sink : Sink) (t : Readings) (op : Operation)
    (changed : Option String) :
    (s.announce h sink t op changed).1.handler = s.handler ∧
      (s.announce h sink t op changed).1.monitors.records ⊆ s.monitors.records ∧
      ∀ a ∈ (s.announce h sink t op changed).2.attempts,
        ∃ r ∈ (s.announce h sink t op changed).1.monitors.records, ∃ message,
          a.datagram.receiver = r.client ∧
            (Registry.notice r message).toFrame = .ok a.datagram.frame := by
  have hquiet : ∀ a ∈ Publication.none.attempts, ∃ r ∈ s.monitors.records, ∃ message,
      a.datagram.receiver = r.client ∧
        (Registry.notice r message).toFrame = .ok a.datagram.frame :=
    fun a ha => absurd ha List.not_mem_nil
  unfold announce
  cases op.isMutating with
  | false => exact ⟨rfl, List.Subset.refl _, hquiet⟩
  | true =>
    cases changed with
    | none => exact ⟨rfl, List.Subset.refl _, hquiet⟩
    | some resource =>
      have hswept : (s.monitors.sweep t.swept).records ⊆ s.monitors.records :=
        fun r hr => (List.mem_filter.mp hr).1
      simp only [notify]
      cases h.snapshot s.handler resource with
      | error fault => exact ⟨rfl, hswept, fun a ha => absurd ha List.not_mem_nil⟩
      | ok message =>
        refine ⟨rfl, hswept, fun a ha => ?_⟩
        obtain ⟨r, hr, -, hnotice⟩ := mem_publish ha
        exact ⟨r, hr, message, hnotice⟩

theorem execute_cases (s : Server σ) (h : Handler σ) (request : Envelope) (call : Call) :
    (s.execute h request call).1.handler = (h.handle call request (s.handler, s.monitors)).2.1 ∧
      (s.execute h request call).1.monitors = (h.handle call request (s.handler, s.monitors)).2.2 ∧
      ∃ payload, (s.execute h request call).2.1 = request.reply payload := by
  simp only [execute]
  cases (h.handle call request (s.handler, s.monitors)).1 with
  | ok outcome => exact ⟨rfl, rfl, outcome.payload, rfl⟩
  | error fault => exact ⟨rfl, rfl, errorPayload fault, rfl⟩

theorem ran_run (s : Server σ) (h : Handler σ) (sink : Sink) (t : Readings) (client : Address)
    (request : Envelope) : Ran s h t client request (s.run h sink t client request) := by
  obtain ⟨hhandler, hmonitors, hreply⟩ := execute_cases s h request ⟨client, t.handled⟩
  refine ⟨history_run s h sink t client request, ?_, ?_, hreply, ?_⟩
  all_goals
    simp only [run, finish]
    generalize (s.execute h request ⟨client, t.handled⟩) = after at hhandler hmonitors hreply
    obtain ⟨hsame, hsub, hnotices⟩ :=
      announce_cases (after.1.record request client after.2.1) h sink t
      request.operation after.2.2
  · exact hsame.trans hhandler
  · rw [← hmonitors]
    exact hsub
  · exact hnotices

/-! ## Keys and their executions -/

section Settled

variable {s s' : Server (σ × List Execution)} {asked asked' : Address → Envelope → Prop}
  {k : CallKey}

/-- The requests that were executed under a key. -/
def executions (s : Server (σ × List Execution)) (k : CallKey) : List Envelope :=
  (s.handler.2.filter (·.key = k)).map (·.request)

/-- A key is unknown and was never executed, or one of the requests that clients ask for was
executed under it, once, and has its reply. -/
inductive Settled (s : Server (σ × List Execution)) (asked : Address → Envelope → Prop)
    (k : CallKey) : Prop
  | new (unknown : s.history.find? k = none) (never : s.executions k = [])
  | done (request : Envelope) (payload : String)
      (known : s.history.find? k = some ⟨request, k.client, some (request.reply payload)⟩)
      (once : s.executions k = [request]) (number : request.id = k.id)
      (noEcho : request.operation ≠ .echo) (asks : asked k.client request)

theorem Settled.congr (hk : s.Settled asked k) (hhistory : s'.history = s.history)
    (hhandler : s'.handler = s.handler) : s'.Settled asked k := by
  have hexecutions : s'.executions k = s.executions k := by
    rw [executions, executions, hhandler]
  cases hk with
  | new unknown never => exact .new (hhistory ▸ unknown) (hexecutions.trans never)
  | done request payload known once number noEcho asks =>
    exact .done request payload (hhistory ▸ known) (hexecutions.trans once) number noEcho asks

theorem Settled.mono (hk : s.Settled asked k) (hasked : ∀ client request, asked client request →
    asked' client request) : s.Settled asked' k := by
  cases hk with
  | new unknown never => exact .new unknown never
  | done request payload known once number noEcho asks =>
    exact .done request payload known once number noEcho (hasked _ _ asks)

theorem settled_start (handler : σ) :
    (Server.start .atMostOnce 0 (handler, ([] : List Execution))).Settled asked k :=
  .new rfl rfl

/-- Beginning and recording a request write under its key only. -/
theorem find?_run {s : Server σ} (hl : s.history.limit = 0) (metrics : Metrics.Rpc) (h : Handler σ)
    (sink : Sink) (t : Readings) (client : Address) (request : Envelope) (k : CallKey) :
    ((s.begun metrics request client).run h sink t client request).1.history.find? k =
      if CallKey.mk request.id client = k
      then some ⟨request, client,
        some ((s.begun metrics request client).run h sink t client request).2.reply⟩
      else s.history.find? k := by
  have hbegin : (s.begun metrics request client).history.limit = 0 := History.limit_insert hl _
  rw [history_run]
  generalize ((s.begun metrics request client).run h sink t client request).2.reply = reply
  have hrecord : ((s.begun metrics request client).history.record request client reply).find? k =
      if CallKey.mk request.id client = k then some ⟨request, client, some reply⟩
      else (s.begun metrics request client).history.find? k := History.find?_insert hbegin _ k
  have hnew : (s.begun metrics request client).history.find? k =
      if CallKey.mk request.id client = k then some ⟨request, client, none⟩
      else s.history.find? k := History.find?_insert hl _ k
  rw [hrecord]
  by_cases hk : CallKey.mk request.id client = k
  · rw [if_pos hk, if_pos hk]
  · rw [if_neg hk, if_neg hk, hnew, if_neg hk]

private theorem executions_run (s : Server (σ × List Execution)) (metrics : Metrics.Rpc)
    (h : Handler σ) (sink : Sink) (t : Readings) (client : Address) (request : Envelope)
    (k : CallKey) :
    ((s.begun metrics request client).run h.logged sink t client request).1.executions k =
      s.executions k ++ if CallKey.mk request.id client = k then [request] else [] := by
  have hran := ran_run (s.begun metrics request client) h.logged sink t client request
  rw [executions, hran.handler]
  show ((s.handler.2 ++ [(⟨client, request⟩ : Execution)]).filter (·.key = k)).map (·.request) = _
  rw [List.filter_append, List.map_append, executions]
  congr 1
  by_cases hk : CallKey.mk request.id client = k
  · simp [Execution.key, hk]
  · simp [Execution.key, hk]

/-- **One execution for each key.** -/
theorem settled_dispatch (hs : s.Remembering) (hsettled : ∀ k, s.Settled asked k) (h : Handler σ)
    (sink : Sink) (t : Readings) {client : Address} {frame : List UInt8}
    (hasked : ∀ request, Envelope.ofFrame frame = .ok request → asked client request)
    (k : CallKey) : (s.dispatch h.logged sink t client frame).1.Settled asked k := by
  have hcases := dispatches hs.semantics h.logged sink t client frame
  generalize s.dispatch h.logged sink t client frame = after at hcases
  cases hcases with
  | rejected malformed => exact (hsettled k).congr rfl rfl
  | echoed decoded echo => exact (hsettled k).congr rfl rfl
  | known metrics decoded noEcho seen => exact (hsettled k).congr rfl rfl
  | @executed request metrics decoded noEcho new =>
    have hfind := find?_run hs.unbounded metrics h.logged sink t client request k
    have hexecutions := executions_run s metrics h sink t client request k
    by_cases hk : ⟨request.id, client⟩ = k
    · subst hk
      obtain ⟨payload, hreply⟩ :=
        (ran_run (s.begun metrics request client) h.logged sink t client request).reply
      rw [if_pos rfl] at hfind hexecutions
      cases hsettled ⟨request.id, client⟩ with
      | new unknown never =>
        rw [never, List.nil_append] at hexecutions
        exact .done request payload (hreply ▸ hfind) hexecutions rfl noEcho (hasked request decoded)
      | done _ _ known =>
        rw [History.response?, known] at new
        cases new
    · rw [if_neg hk] at hfind hexecutions
      rw [List.append_nil] at hexecutions
      cases hsettled k with
      | new unknown never => exact .new (hfind.trans unknown) (hexecutions.trans never)
      | done request payload known once number noEcho asks =>
        exact .done request payload (hfind.trans known) (hexecutions.trans once) number noEcho asks

end Settled

end Server

end DatagramRpc
