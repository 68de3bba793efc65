import DatagramRpc.Proofs.Server.Executions
import DatagramRpc.Proofs.Server.Notification

/-!
# At most one execution of a request

The server executes a request at most once, in whatever order the steps of its dispatches come.
Every other dispatch of the key is answered from the history: with the reply of the one that
executed the request, or, if its claim comes between the claim and the record of that one, that the
request is in progress.

Executions are counted as steps that call the handler. A handler that keeps a list of what it
executes has the same requests in it, in the same order.
-/

namespace DatagramRpc

namespace Interleaving

variable {σ : Type} {h : Handler σ} {s : Interleaving σ} {k : CallKey}

/-- The `n`-th event is this act of the `i`-th dispatch. -/
def At (s : Interleaving σ) (n i : Nat) (a : Act) : Prop := s.log[n]? = some ⟨i, a⟩

/-- What holds of a key: at most one of its dispatches executes the request, and all others repeat
its reply or come while it is at work. -/
structure AtMostOnce (s : Interleaving σ) (k : CallKey) : Prop where
  /-- The handler is called at most once. -/
  called : s.log.countP (fun e => e.act = .called ∧ s.key? e.job = some k) ≤ 1
  /-- A replayed reply has been recorded before, by the one dispatch that executes the request. -/
  replayed : ∀ (n i : Nat) (d : Dispatched), s.key? i = some k → s.At n i (.returned d) →
    d.disposition = .replayed →
    ∃ owner m, s.key? owner = some k ∧ m < n ∧ s.At m owner (.recorded d.reply) ∧
      ∀ (n' i' : Nat) (d' : Dispatched), s.key? i' = some k → s.At n' i' (.returned d') →
        d'.disposition = .executed → i' = owner ∧ d'.reply = d.reply
  /-- A request is in progress between the claim of the dispatch that executes it and its record. -/
  inProgress : ∀ (n i : Nat) (d : Dispatched), s.key? i = some k → s.At n i (.returned d) →
    d.disposition = .inProgress →
    ∃ owner l m, s.key? owner = some k ∧ s.At l owner (.claimed .fresh) ∧ l < m ∧
      s.At m i (.claimed .inFlight) ∧ ∀ n reply, s.At n owner (.recorded reply) → m < n
  /-- Once the executing dispatch has begun to announce or has answered, every claim of the key
  finds its reply, and replays it. -/
  settled : ∀ (owner m : Nat), s.key? owner = some k →
    (s.At m owner .announced ∨ ∃ d, s.At m owner (.returned d) ∧ d.disposition = .executed) →
    ∀ (n i : Nat) (c : Claim), s.key? i = some k → m < n → s.At n i (.claimed c) →
    ∃ d l, c = .done d.reply ∧ l < m ∧ s.At l owner (.recorded d.reply) ∧
      d.disposition = .replayed ∧
      (s.stage? i = some (.settled d) ∨ s.stage? i = some (.returned d)) ∧
      ∀ n' d', s.At n' i (.returned d') → d' = d

private theorem mem_acts_of_at {n i : Nat} {a : Act} (ha : s.At n i a) : a ∈ s.acts i :=
  mem_acts.mpr (List.mem_of_getElem? ha)

private theorem exists_at {i : Nat} {a : Act} (ha : a ∈ s.acts i) : ∃ n, s.At n i a :=
  List.getElem?_of_mem (mem_acts.mp ha)

/-- Whoever calls the handler owns the key, and nobody calls it twice. -/
theorem called_once (hs : Coherent s) (k : CallKey) :
    s.log.countP (fun e => e.act = .called ∧ s.key? e.job = some k) ≤ 1 := by
  by_cases hany : ∃ owner, s.key? owner = some k ∧ .called ∈ s.acts owner
  · obtain ⟨owner, hk, hm⟩ := hany
    obtain ⟨stage, -, hstanding, hacts⟩ := stage_of_key hs hk
    have howns := Stage.owns_of_called (hacts ▸ hm)
    -- There is one owner, so every call stands in the log of this one.
    calc s.log.countP (fun e => e.act = .called ∧ s.key? e.job = some k)
      _ ≤ s.log.countP (fun e => e.act == .called && e.job == owner) := by
        refine List.countP_mono_left fun e he hc => ?_
        obtain ⟨i, act⟩ := e
        obtain ⟨rfl, hi⟩ := of_decide_eq_true hc
        obtain ⟨stage', -, hstanding', hacts'⟩ := stage_of_key hs hi
        have howns' := Stage.owns_of_called (hacts' ▸ mem_acts.mpr he)
        obtain rfl : i = owner := (hs.owned k).unique hstanding' hstanding howns' howns
        simp
      _ = (s.acts owner).count .called := by
        rw [acts, List.count, List.countP_map, List.countP_filter]
        rfl
      _ ≤ 1 := hacts ▸ Stage.count_called_le_one stage
  · have hzero : s.log.countP (fun e => e.act = .called ∧ s.key? e.job = some k) = 0 := by
      refine List.countP_eq_zero.mpr fun e he hc => ?_
      obtain ⟨i, act⟩ := e
      obtain ⟨rfl, hi⟩ := of_decide_eq_true hc
      exact hany ⟨i, hi, mem_acts.mpr he⟩
    omega

/-! ## The run up to an event -/

/-- An earlier moment of a run: the log has its first `n` events. -/
structure Earlier (s' s : Interleaving σ) (n : Nat) : Prop where
  coherent : Coherent s'
  at_iff : ∀ m i a, s'.At m i a ↔ m < n ∧ s.At m i a
  key : ∀ i, i < s'.jobs.length → s'.key? i = s.key? i

private theorem Earlier.key_of_at {s' : Interleaving σ} {n m i : Nat} {a : Act}
    (he : Earlier s' s n) (ha : s'.At m i a) (hk : s.key? i = some k) : s'.key? i = some k := by
  rw [he.key i (lt_of_mem_log he.coherent (mem_acts.mp (mem_acts_of_at ha))), hk]

private theorem Earlier.lt_of_ne {s' : Interleaving σ} {n m i i' : Nat} {a a' : Act}
    (he : Earlier s' s (n + 1)) (ha : s'.At m i a) (ha' : s.At n i' a')
    (hne : (⟨i, a⟩ : Event) ≠ ⟨i', a'⟩) : m < n ∧ s.At m i a := by
  obtain ⟨hm, hs⟩ := (he.at_iff m i a).mp ha
  have hmn : m ≠ n := fun h => hne (Option.some.inj ((h ▸ hs : s.At n i a).symm.trans ha'))
  exact ⟨by omega, hs⟩

private theorem earlier_of_take {before after : List (Action σ)} (hs : Coherent s) {n : Nat}
    (hlog : (run h s before).log = (run h s (before ++ after)).log.take n) :
    Earlier (run h s before) (run h s (before ++ after)) n where
  coherent := coherent_run hs before
  at_iff m i a := by
    rw [At, At, hlog, List.getElem?_take]
    split
    · next hm => simp [hm]
    · next hm => simp [hm]
  key i hi := by rw [run_append, key?_run hi]

/-- A coherent moment of a run, with the moments right before and right after each of its events. -/
structure Reached (h : Handler σ) (s : Interleaving σ) : Prop where
  coherent : Coherent s
  earlier : ∀ (n i : Nat) (a : Act), s.At n i a →
    ∃ (s' : Interleaving σ) (action : Action σ), Earlier s' s n ∧
      Earlier (step h s' action) s (n + 1) ∧
      (step h s' action).log = s'.log ++ [⟨i, a⟩]

private theorem reached_run (hs : Coherent s) (hempty : s.log = []) (actions : List (Action σ)) :
    Reached h (run h s actions) where
  coherent := coherent_run hs actions
  earlier n i a ha := by
    obtain ⟨before, action, after, rfl, hlog, hstep⟩ := exists_step_of_log hempty actions ha
    refine ⟨run h s before, action, earlier_of_take hs hlog, ?_, hstep⟩
    have hnext : (run h s (before ++ [action])).log =
        (run h s ((before ++ [action]) ++ after)).log.take (n + 1) := by
      rw [run_concat, hstep, hlog, List.append_assoc, List.singleton_append,
        List.take_add_one, show (run h s (before ++ action :: after)).log[n]? = _ from ha]
      rfl
    have he := earlier_of_take hs hnext
    rw [run_concat, List.append_assoc, List.singleton_append] at he
    exact he

/-! ## The answers to repeated requests -/

private theorem replayed_reply (hr : Reached h s) {n i : Nat} {d : Dispatched}
    (hk : s.key? i = some k) (ha : s.At n i (.returned d)) (hd : d.disposition = .replayed) :
    ∃ owner m, s.key? owner = some k ∧ m < n ∧ s.At m owner (.recorded d.reply) ∧
      ∀ (n' i' : Nat) (d' : Dispatched), s.key? i' = some k → s.At n' i' (.returned d') →
        d'.disposition = .executed → i' = owner ∧ d'.reply = d.reply := by
  obtain ⟨s', action, -, he, -⟩ := hr.earlier n i _ ha
  have ha' : (step h s' action).At n i (.returned d) := (he.at_iff ..).mpr ⟨by omega, ha⟩
  obtain ⟨stage, -, hstanding, hacts⟩ := stage_of_key he.coherent (he.key_of_at ha' hk)
  obtain rfl := Stage.eq_returned_of_mem (hacts ▸ mem_acts_of_at ha')
  have hanswered : (step h s' action).standing k i = some (.answered (.done d.reply)) := by
    rw [hstanding, Stage.standing, Dispatched.standing, hd]
  obtain ⟨owner, howner⟩ := (he.coherent.owned k).exists_executed hanswered
  have hkey' := key_of_standing howner
  obtain ⟨stage, -, hstage, hpast⟩ := stage_of_key he.coherent hkey'
  have hrecorded : .recorded d.reply ∈ (step h s' action).acts owner := by
    rw [hpast, Stage.mem_past_recorded]
    exact Option.some.inj (hstage.symm.trans howner)
  obtain ⟨m, hm⟩ := exists_at hrecorded
  obtain ⟨hmn, hms⟩ := he.lt_of_ne hm ha (by simp)
  have hkey : s.key? owner = some k := by
    rw [← he.key owner (lt_of_mem_log he.coherent (mem_acts.mp hrecorded)), hkey']
  refine ⟨owner, m, hkey, hmn, hms, fun n' i' d' hk' ha'' hd' => ?_⟩
  obtain ⟨stage, -, hstage, hpast⟩ := stage_of_key hr.coherent hkey
  obtain ⟨stage', -, hstage', hpast'⟩ := stage_of_key hr.coherent hk'
  have hx := Stage.mem_past_recorded.mp (hpast ▸ mem_acts_of_at hms)
  obtain rfl := Stage.eq_returned_of_mem (hpast' ▸ mem_acts_of_at ha'')
  have hx' : (Stage.returned d').standing = .executed d'.reply := by
    rw [Stage.standing, Dispatched.standing, hd']
  rw [hx] at hstage
  rw [hx'] at hstage'
  obtain rfl := (hr.coherent.owned k).unique hstage' hstage trivial trivial
  have hreply := Standing.executed.inj (Option.some.inj (hstage'.symm.trans hstage))
  exact ⟨rfl, hreply⟩

/-- What a claim of a key finds in the history. -/
theorem claim_at (hr : Reached h s) {n i : Nat} {c : Claim} (hk : s.key? i = some k)
    (ha : s.At n i (.claimed c)) :
    ∃ s' : Interleaving σ, Earlier s' s n ∧ c = .ofResponse (s'.server.history.response? k) := by
  obtain ⟨s', action, he, -, hlog⟩ := hr.earlier n i _ ha
  obtain ⟨key, hkey, hc⟩ := claim_of_log he.coherent hlog
  obtain ⟨j, hj, -⟩ := Option.bind_eq_some_iff.mp hkey
  have hi : i < s'.jobs.length := (List.getElem?_eq_some_iff.mp hj).1
  rw [he.key i hi, hk] at hkey
  cases hkey
  exact ⟨s', he, hc⟩

private theorem inProgress_between (hr : Reached h s) {n i : Nat} {d : Dispatched}
    (hk : s.key? i = some k) (ha : s.At n i (.returned d)) (hd : d.disposition = .inProgress) :
    ∃ owner l m, s.key? owner = some k ∧ s.At l owner (.claimed .fresh) ∧ l < m ∧
      s.At m i (.claimed .inFlight) ∧ ∀ n reply, s.At n owner (.recorded reply) → m < n := by
  obtain ⟨stage, -, -, hacts⟩ := stage_of_key hr.coherent hk
  obtain rfl := Stage.eq_returned_of_mem (hacts ▸ mem_acts_of_at ha)
  obtain ⟨m, hm⟩ := exists_at (hacts ▸ Stage.claimed_of_inProgress hd)
  obtain ⟨s', he, hc⟩ := claim_at hr hk hm
  have hresponse : s'.server.history.response? k = some none := by
    cases hresponse : s'.server.history.response? k with
    | none => rw [hresponse] at hc; cases hc
    | some response =>
      cases response with
      | none => rfl
      | some reply => rw [hresponse] at hc; cases hc
  obtain ⟨owner, howner⟩ := (hresponse ▸ he.coherent.owned k).exists_executing
  have hkey' := key_of_standing howner
  obtain ⟨stage, -, hstage, hpast⟩ := stage_of_key he.coherent hkey'
  have hexecuting : stage.standing = .executing := Option.some.inj (hstage.symm.trans howner)
  have hclaimed : .claimed .fresh ∈ s'.acts owner := by
    rw [hpast]
    exact Stage.claimed_of_owns (by rw [hexecuting]; trivial)
  obtain ⟨l, hl⟩ := exists_at hclaimed
  obtain ⟨hlm, hls⟩ := (he.at_iff ..).mp hl
  have hkey : s.key? owner = some k := by
    rw [← he.key owner (lt_of_mem_log he.coherent (mem_acts.mp hclaimed)), hkey']
  refine ⟨owner, l, m, hkey, hls, hlm, hm, fun n reply hn => ?_⟩
  rcases Nat.lt_trichotomy m n with hmn | rfl | hnm
  · exact hmn
  · cases Option.some.inj (hm.symm.trans hn)
  · have hn' : s'.At n owner (.recorded reply) := (he.at_iff ..).mpr ⟨hnm, hn⟩
    have hx := Stage.mem_past_recorded.mp (hpast ▸ mem_acts_of_at hn')
    rw [hexecuting] at hx
    cases hx

/-- Notifications go out and the reply is returned only after it has been recorded. -/
theorem recorded_before (hr : Reached h s) {owner m : Nat} (hk : s.key? owner = some k)
    (ha : s.At m owner .announced ∨
      ∃ d, s.At m owner (.returned d) ∧ d.disposition = .executed) :
    ∃ reply l, l < m ∧ s.At l owner (.recorded reply) := by
  obtain ⟨a, ham, hrecorded, hexec⟩ : ∃ a, s.At m owner a ∧ (∀ reply, a ≠ .recorded reply) ∧
      ∀ stage : Stage, a ∈ stage.past → ∃ reply, stage.standing = .executed reply := by
    rcases ha with ha | ⟨d, ha, hd⟩
    · exact ⟨_, ha, by simp, fun stage => Stage.executed_of_announced⟩
    · refine ⟨_, ha, by simp, fun stage hm => ⟨d.reply, ?_⟩⟩
      rw [Stage.eq_returned_of_mem hm, Stage.standing, Dispatched.standing, hd]
  obtain ⟨s', action, -, he, -⟩ := hr.earlier m owner _ ham
  have ha' : (step h s' action).At m owner a := (he.at_iff ..).mpr ⟨by omega, ham⟩
  obtain ⟨stage, -, -, hpast⟩ := stage_of_key he.coherent (he.key_of_at ha' hk)
  obtain ⟨reply, hreply⟩ := hexec stage (hpast ▸ mem_acts_of_at ha')
  obtain ⟨l, hl⟩ := exists_at (hpast ▸ Stage.mem_past_recorded.mpr hreply)
  exact ⟨reply, l, he.lt_of_ne hl ham (by simpa using (hrecorded reply).symm)⟩

private theorem replayed_after (hr : Reached h s) {owner m n i : Nat} {c : Claim}
    (hk : s.key? owner = some k)
    (ha : s.At m owner .announced ∨ ∃ d, s.At m owner (.returned d) ∧ d.disposition = .executed)
    (hki : s.key? i = some k) (hmn : m < n) (hc : s.At n i (.claimed c)) :
    ∃ d l, c = .done d.reply ∧ l < m ∧ s.At l owner (.recorded d.reply) ∧
      d.disposition = .replayed ∧
      (s.stage? i = some (.settled d) ∨ s.stage? i = some (.returned d)) ∧
      ∀ n' d', s.At n' i (.returned d') → d' = d := by
  obtain ⟨reply, l, hlm, hl⟩ := recorded_before hr hk ha
  obtain ⟨s', he, hresponse⟩ := claim_at hr hki hc
  have hl' : s'.At l owner (.recorded reply) := (he.at_iff ..).mpr ⟨by omega, hl⟩
  obtain ⟨stage, -, hstage, hpast⟩ := stage_of_key he.coherent (he.key_of_at hl' hk)
  rw [Stage.mem_past_recorded.mp (hpast ▸ mem_acts_of_at hl')] at hstage
  rw [(he.coherent.owned k).response_of_executed hstage] at hresponse
  subst hresponse
  obtain ⟨stage, hi, -, hpast⟩ := stage_of_key hr.coherent hki
  obtain ⟨d, hd, rfl, hanswer⟩ := Stage.replayed_of_claimed (hpast ▸ mem_acts_of_at hc)
  refine ⟨d, l, rfl, hlm, hl, hd, ?_, fun n' d' ha' => ?_⟩
  · rcases hanswer with rfl | rfl
    · exact .inl hi
    · exact .inr hi
  · have heq := Stage.eq_returned_of_mem (hpast ▸ mem_acts_of_at ha')
    rcases hanswer with rfl | rfl
    · cases heq
    · cases heq
      rfl

/-! ## The handler's own list -/

/-- The keys under which the handler was called, in order. -/
def calledKeys (s : Interleaving σ) : List CallKey :=
  s.log.filterMap fun e => if e.act = .called then s.key? e.job else none

private theorem count_calledKeys (s : Interleaving σ) (k : CallKey) :
    s.calledKeys.count k = s.log.countP fun e => e.act = .called ∧ s.key? e.job = some k := by
  rw [calledKeys, List.count_filterMap]
  refine List.countP_congr fun e _ => ?_
  by_cases hact : e.act = .called
  · simp [hact]
  · simp [hact]

/-- The handler does something in a step that says so, and in no other. -/
theorem handler_advance {server server' : Server σ} {t : Readings} {j : Job} {stage : Stage}
    {act : Option Act} (ha : server.advance h t j = (server', stage, act)) :
    act = some .called ∧ (∃ request, j.stage = .claimed request ∧ server'.handler =
        (h.handle ⟨j.client, t.handled⟩ request (server.handler, server.monitors)).2.1) ∨
      act ≠ some .called ∧ server'.handler = server.handler := by
  unfold Server.advance at ha
  cases hstage : j.stage with
  | arrived =>
    simp only [hstage] at ha
    split at ha
    · cases ha
      exact .inr ⟨nofun, rfl⟩
    · split at ha <;> cases ha <;> exact .inr ⟨nofun, rfl⟩
  | decoded request =>
    simp only [hstage] at ha
    have hsame := (Server.claim_handler server request j.client).1
    split at ha <;> next he => cases ha; rw [he] at hsame; exact .inr ⟨nofun, hsame⟩
  | claimed request =>
    simp only [hstage] at ha
    cases ha
    exact .inl ⟨rfl, request, rfl, (Server.execute_cases server h request ⟨j.client, t.handled⟩).1⟩
  | recorded request reply changed =>
    simp only [hstage] at ha
    cases ha
    exact .inr ⟨nofun, (Server.announce_cases server h j.sink t request.operation changed).1⟩
  | handled request reply changed | announced request reply publication | settled answer
  | returned answer =>
    simp only [hstage] at ha
    cases ha
    exact .inr ⟨nofun, rfl⟩

section Listed

variable {s : Interleaving (σ × List Execution)}

/-- A step calls the handler as often as the list of the handler grows, and under the keys that it
is given. -/
theorem calledKeys_step (hs : Coherent s) (h : Handler σ) {action : Action (σ × List Execution)}
    (hinside : action.Inside) (hlist : s.server.handler.2.map (·.key) = s.calledKeys) :
    (step h.logged s action).server.handler.2.map (·.key) =
      (step h.logged s action).calledKeys := by
  -- Who has acted before has the same key as before.
  have hkept : s.log.filterMap
      (fun e => if e.act = .called then (step h.logged s action).key? e.job else none) =
      s.calledKeys :=
    List.filterMap_congr fun e he => by rw [(key?_step (lt_of_mem_log hs he) action).2]
  cases action with
  | arrive client frame sink => exact hlist.trans hkept.symm
  | outside handler monitors => exact hinside.elim
  | advance i t =>
    cases hj : s.jobs[i]? with
    | none =>
      rw [step_advance_none hj]
      exact hlist
    | some j =>
      obtain ⟨server, stage, act, ha⟩ : ∃ server stage act,
          s.server.advance h.logged t j = (server, stage, act) := ⟨_, _, _, rfl⟩
      have hi : i < s.jobs.length := (List.getElem?_eq_some_iff.mp hj).1
      have hkey : (step h.logged s (.advance i t)).key? i = j.key? := by
        rw [(key?_step hi _).2, key?, hj, Option.bind_some]
      rw [step_advance hj ha] at hkept hkey ⊢
      rw [calledKeys, List.filterMap_append, hkept, ← hlist]
      rcases handler_advance ha with ⟨rfl, request, hstage, hhandler⟩ | ⟨hquiet, hhandler⟩
      · have hrequest : j.stage.request? = some request := by rw [hstage]; rfl
        rw [key?_of_stage (hs.faithful i j hj) hrequest, Option.map_some,
          Option.toList_some] at hkey
        simp [hhandler, hkey, Handler.logged, Execution.key]
      · cases act with
        | none => simp [hhandler]
        | some act =>
          have hact : act ≠ .called := fun he => hquiet (congrArg some he)
          simp [hhandler, hact]

/-- **The handler's own list.** While nothing but the dispatches touches the handler, it has
executed what it was called for, in the same order. -/
theorem calledKeys_run (h : Handler σ) (handler : σ) {actions : List (Action (σ × List Execution))}
    (hinside : ∀ action ∈ actions, action.Inside) :
    let s := run h.logged (start (Server.start .atMostOnce 0 (handler, []))) actions
    s.server.handler.2.map (·.key) = s.calledKeys := by
  induction actions using List.reverseRecOn with
  | nil => rfl
  | append_singleton actions action ih =>
    obtain ⟨hbefore, hlast⟩ := List.forall_mem_append.mp hinside
    rw [run_concat]
    exact calledKeys_step (coherent_run (coherent_start (handler, [])) actions) h
      (hlast action (List.mem_singleton_self action)) (ih hbefore)

/-- No key is in the handler's list twice. -/
theorem executions_le_one (h : Handler σ) (handler : σ)
    {actions : List (Action (σ × List Execution))} (hinside : ∀ action ∈ actions, action.Inside)
    (k : CallKey) :
    ((run h.logged (start (Server.start .atMostOnce 0 (handler, [])))
      actions).server.executions k).length ≤ 1 := by
  have hcalled :=
    called_once (coherent_run (h := h.logged) (coherent_start (handler, [])) actions) k
  rw [← count_calledKeys, ← calledKeys_run h handler hinside, List.count, List.countP_map,
    List.countP_eq_length_filter] at hcalled
  rw [Server.executions, List.length_map]
  exact hcalled

end Listed

/-! ## The main statement -/

/-- **At most one execution** of a request, whatever the handler, the datagrams and the order of the
steps, where no reply is forgotten. -/
theorem handled_at_most_once (h : Handler σ) (handler : σ) (actions : List (Action σ))
    (k : CallKey) : AtMostOnce (run h (start (Server.start .atMostOnce 0 handler)) actions) k := by
  have hr : Reached h (run h (start (Server.start .atMostOnce 0 handler)) actions) :=
    reached_run (coherent_start handler) rfl actions
  refine ⟨called_once hr.coherent k, ?_, ?_, ?_⟩
  · exact fun n i d hk ha hd => replayed_reply hr hk ha hd
  · exact fun n i d hk ha hd => inProgress_between hr hk ha hd
  · exact fun owner m hk ha n i c hki hmn hc => replayed_after hr hk ha hki hmn hc

end Interleaving

end DatagramRpc
