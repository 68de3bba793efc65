import DatagramRpc.Server.Dispatch
import Mathlib.Data.List.Induction

/-!
# Dispatches that take turns

Any number of datagrams are processed at a time. Each is at some stage of its dispatch, and
whichever is chosen takes the next step of `Server.dispatch`: decode and count, look up in the
history, call the handler, record the reply, announce what changed, answer. A list of actions is one
interleaving of these steps. What lies outside the dispatches may change the handler's state and the
monitors between any two steps, so nothing here depends on the handler being left alone.

Taken without interruption, the steps of one datagram are `Server.dispatch`.
-/

namespace DatagramRpc

/-- How far a dispatch has come, with the values it holds. -/
inductive Stage where
  | arrived
  /-- A request other than an echo; to be looked up. -/
  | decoded (request : Envelope)
  /-- Found to be fresh; the handler is to be called. -/
  | claimed (request : Envelope)
  /-- The handler has answered; the reply is to be recorded. -/
  | handled (request reply : Envelope) (changed : Option String)
  /-- The change is to be announced. -/
  | recorded (request reply : Envelope) (changed : Option String)
  | announced (request reply : Envelope) (publication : Publication)
  /-- Answered without the handler; the answer is to be returned. -/
  | settled (answer : Dispatched)
  | returned (answer : Dispatched)

/-- The dispatch of one datagram. -/
structure Job where
  client : Address
  frame : List UInt8
  sink : Sink
  stage : Stage

namespace Job

/-- The request, unless the datagram is an echo or no envelope. -/
def request? (j : Job) : Option Envelope :=
  match Envelope.ofFrame j.frame with
  | .ok request => if request.operation = .echo then none else some request
  | .error _ => none

/-- The key of a datagram that is a request other than an echo. -/
def key? (j : Job) : Option CallKey := j.request?.map fun request => ⟨request.id, j.client⟩

end Job

/-- What a step of a dispatch does that others can notice. -/
inductive Act where
  | claimed (claim : Claim)
  | called
  | recorded (reply : Envelope)
  /-- Notifications are sent from here on. -/
  | announced
  | returned (answer : Dispatched)
  deriving DecidableEq

/-- An act of the dispatch that came as the `job`-th. -/
structure Event where
  job : Nat
  act : Act
  deriving DecidableEq

/-- A server with its dispatches in the order of their arrival, and what has happened so far. -/
structure Interleaving (σ : Type) where
  server : Server σ
  jobs : List Job
  log : List Event

/-- What can happen next. -/
inductive Action (σ : Type) where
  | arrive (client : Address) (frame : List UInt8) (sink : Sink)
  /-- The `job`-th dispatch takes a step. -/
  | advance (job : Nat) (t : Readings)
  /-- Something other than a dispatch changes what the handler works on. -/
  | outside (handler : σ) (monitors : Registry)

variable {σ : Type}

/-- Nothing from outside the dispatches. -/
def Action.Inside : Action σ → Prop
  | .outside .. => False
  | _ => True

/-- The next step of a dispatch. -/
def Server.advance (s : Server σ) (h : Handler σ) (t : Readings) (j : Job) :
    Server σ × Stage × Option Act :=
  match j.stage with
  | .arrived =>
    match Envelope.ofFrame j.frame with
    | .error f => (s.countRejected f, .settled ⟨rejection f, .rejected, .none⟩, none)
    | .ok request =>
      let s := s.countRequest request.operation
      if request.operation = .echo then (s, .settled ⟨request, .echoed, .none⟩, none)
      else (s, .decoded request, none)
  | .decoded request =>
    match s.claim request j.client with
    | (s, .fresh) => (s, .claimed request, some (.claimed .fresh))
    | (s, .done reply) => (s, .settled ⟨reply, .replayed, .none⟩, some (.claimed (.done reply)))
    | (s, .inFlight) =>
      (s, .settled ⟨request.reply inProgressPayload, .inProgress, .none⟩, some (.claimed .inFlight))
  | .claimed request =>
    let (s, reply, changed) := s.execute h request ⟨j.client, t.handled⟩
    (s, .handled request reply changed, some .called)
  | .handled request reply changed =>
    (s.record request j.client reply, .recorded request reply changed, some (.recorded reply))
  | .recorded request reply changed =>
    let (s, publication) := s.announce h j.sink t request.operation changed
    (s, .announced request reply publication, some .announced)
  | .announced request reply publication =>
    (s.finish t request.operation, .returned ⟨reply, .executed, publication⟩,
      some (.returned ⟨reply, .executed, publication⟩))
  | .settled answer => (s, .returned answer, some (.returned answer))
  | .returned answer => (s, .returned answer, none)

namespace Interleaving

/-- A server before the first datagram. -/
def start (server : Server σ) : Interleaving σ := ⟨server, [], []⟩

def step (h : Handler σ) (s : Interleaving σ) : Action σ → Interleaving σ
  | .arrive client frame sink => { s with jobs := s.jobs ++ [⟨client, frame, sink, .arrived⟩] }
  | .outside handler monitors => { s with server := { s.server with handler, monitors } }
  | .advance i t =>
    match s.jobs[i]? with
    | none => s
    | some j =>
      let (server, stage, act) := s.server.advance h t j
      { server
        jobs := s.jobs.set i { j with stage }
        log := s.log ++ (act.map (⟨i, ·⟩)).toList }

def run (h : Handler σ) (s : Interleaving σ) (actions : List (Action σ)) : Interleaving σ :=
  actions.foldl (step h) s

/-- The key of a dispatch. -/
def key? (s : Interleaving σ) (i : Nat) : Option CallKey := s.jobs[i]?.bind Job.key?

@[simp] theorem run_nil (h : Handler σ) (s : Interleaving σ) : run h s [] = s := rfl

theorem run_append (h : Handler σ) (s : Interleaving σ) (before after : List (Action σ)) :
    run h s (before ++ after) = run h (run h s before) after := List.foldl_append

theorem run_concat (h : Handler σ) (s : Interleaving σ) (actions : List (Action σ)) (a : Action σ) :
    run h s (actions ++ [a]) = step h (run h s actions) a := by
  simp [run]

/-! ## Steps one by one -/

theorem jobs_arrive (h : Handler σ) (s : Interleaving σ) (client : Address) (frame : List UInt8)
    (sink : Sink) (i : Nat) :
    (step h s (.arrive client frame sink)).jobs[i]? =
      if i = s.jobs.length then some ⟨client, frame, sink, .arrived⟩ else s.jobs[i]? := by
  rw [step]
  by_cases he : i = s.jobs.length
  · rw [if_pos he, he, List.getElem?_concat_length]
  · rw [if_neg he, List.getElem?_append]
    split
    · rfl
    · rw [List.getElem?_eq_none (by simp; omega), List.getElem?_eq_none (by omega)]

theorem step_advance {h : Handler σ} {s : Interleaving σ} {i : Nat} {t : Readings} {j : Job}
    (hj : s.jobs[i]? = some j) {server : Server σ} {stage : Stage} {act : Option Act}
    (ha : s.server.advance h t j = (server, stage, act)) :
    step h s (.advance i t) =
      ⟨server, s.jobs.set i { j with stage }, s.log ++ (act.map (⟨i, ·⟩)).toList⟩ := by
  simp only [step, hj, ha]

theorem step_advance_none {h : Handler σ} {s : Interleaving σ} {i : Nat} {t : Readings}
    (hj : s.jobs[i]? = none) : step h s (.advance i t) = s := by
  simp only [step, hj]

/-- A dispatch keeps its client and its frame, so also its key. -/
theorem key?_step {h : Handler σ} {s : Interleaving σ} {i : Nat} (hi : i < s.jobs.length)
    (a : Action σ) : i < (step h s a).jobs.length ∧ (step h s a).key? i = s.key? i := by
  cases a with
  | arrive client frame sink =>
    refine ⟨by simp only [step, List.length_append]; omega, ?_⟩
    rw [key?, jobs_arrive, if_neg (Nat.ne_of_lt hi), key?]
  | outside handler monitors => exact ⟨hi, rfl⟩
  | advance i' t =>
    cases hj' : s.jobs[i']? with
    | none => rw [step_advance_none hj']; exact ⟨hi, rfl⟩
    | some j' =>
      rw [step_advance hj' rfl]
      refine ⟨by simpa using hi, ?_⟩
      by_cases he : i' = i
      · subst he
        rw [key?, key?, List.getElem?_set_self hi, hj']
        rfl
      · rw [key?, key?, List.getElem?_set_ne he]

theorem key?_run {h : Handler σ} {s : Interleaving σ} {i : Nat} (hi : i < s.jobs.length)
    (actions : List (Action σ)) : (run h s actions).key? i = s.key? i := by
  induction actions generalizing s with
  | nil => rfl
  | cons a rest ih =>
    obtain ⟨hi', hk⟩ := key?_step (h := h) hi a
    exact (ih hi').trans hk

/-- A step adds one event to the log, or none. -/
theorem log_step (h : Handler σ) (s : Interleaving σ) (a : Action σ) :
    ∃ e : Option Event, (step h s a).log = s.log ++ e.toList := by
  cases a with
  | arrive client frame sink => exact ⟨none, (List.append_nil _).symm⟩
  | outside handler monitors => exact ⟨none, (List.append_nil _).symm⟩
  | advance i t =>
    cases hj : s.jobs[i]? with
    | none => rw [step_advance_none hj]; exact ⟨none, (List.append_nil _).symm⟩
    | some j => rw [step_advance hj rfl]; exact ⟨_, rfl⟩

/-- Every event of a run was added by some step; the log before it is what comes earlier in the
log. -/
theorem exists_step_of_log {h : Handler σ} {s : Interleaving σ} (hs : s.log = [])
    (actions : List (Action σ)) {n : Nat} {e : Event} (hn : (run h s actions).log[n]? = some e) :
    ∃ before a after, actions = before ++ a :: after ∧
      (run h s before).log = (run h s actions).log.take n ∧
      (step h (run h s before) a).log = (run h s before).log ++ [e] := by
  induction actions using List.reverseRecOn with
  | nil => simp [hs] at hn
  | append_singleton actions a ih =>
    obtain ⟨e', he'⟩ := log_step h (run h s actions) a
    rw [run_concat] at hn ⊢
    have hlog : ((run h s actions).log ++ e'.toList)[n]? = some e := by rw [← he']; exact hn
    by_cases hlt : n < (run h s actions).log.length
    · rw [List.getElem?_append_left hlt] at hlog
      obtain ⟨before, b, after, rfl, hbefore, hb⟩ := ih hlog
      refine ⟨before, b, after ++ [a], by simp, ?_, hb⟩
      rw [hbefore, he', List.take_append_of_le_length (Nat.le_of_lt hlt)]
    · rw [List.getElem?_append_right (Nat.le_of_not_lt hlt)] at hlog
      cases e' with
      | none => simp at hlog
      | some e' =>
        have hz := (List.getElem?_eq_some_iff.mp hlog).1
        have hn' : n = (run h s actions).log.length := by
          simp only [Option.toList_some, List.length_singleton] at hz
          omega
        obtain rfl : e' = e := by simpa [hn'] using hlog
        exact ⟨actions, a, [], rfl, by rw [he', hn', List.take_left], he'⟩

/-! ## Without interruption -/

private theorem set_last (jobs : List Job) (j j' : Job) :
    (jobs ++ [j]).set jobs.length j' = jobs ++ [j'] := by
  simp

/-- A step of the dispatch that came last. -/
theorem step_last (h : Handler σ) (server : Server σ) (jobs : List Job) (j : Job) (log : List Event)
    (t : Readings) :
    step h ⟨server, jobs ++ [j], log⟩ (.advance jobs.length t) =
      ⟨(server.advance h t j).1, jobs ++ [{ j with stage := (server.advance h t j).2.1 }],
        log ++ ((server.advance h t j).2.2.map (⟨jobs.length, ·⟩)).toList⟩ := by
  obtain ⟨server', stage, act, ha⟩ : ∃ server' stage act,
      server.advance h t j = (server', stage, act) := ⟨_, _, _, rfl⟩
  have hj : (⟨server, jobs ++ [j], log⟩ : Interleaving σ).jobs[jobs.length]? = some j :=
    List.getElem?_concat_length
  rw [step_advance hj ha, set_last, ha]

/-- The server and the stage after some steps of one dispatch. -/
def alone (h : Handler σ) (t : Readings) (j : Job) : Nat → Server σ × Stage → Server σ × Stage
  | 0, x => x
  | n + 1, (s, stage) =>
    let next := s.advance h t { j with stage }
    alone h t j n (next.1, next.2.1)

private theorem run_last (h : Handler σ) (jobs : List Job) (j : Job) (t : Readings) (n : Nat) :
    ∀ (server : Server σ) (stage : Stage) (log : List Event), ∃ log',
      run h ⟨server, jobs ++ [{ j with stage }], log⟩ (List.replicate n (.advance jobs.length t)) =
        ⟨(alone h t j n (server, stage)).1,
          jobs ++ [{ j with stage := (alone h t j n (server, stage)).2 }], log'⟩ := by
  induction n with
  | zero => exact fun server stage log => ⟨log, rfl⟩
  | succ n ih =>
    intro server stage log
    obtain ⟨log', hlog⟩ := ih (server.advance h t { j with stage }).1
      (server.advance h t { j with stage }).2.1 _
    refine ⟨log', ?_⟩
    rw [List.replicate_succ, run, List.foldl_cons, step_last]
    exact hlog

/-- The six steps of a dispatch, or fewer, are what `Server.dispatch` does. -/
theorem alone_eq_dispatch (h : Handler σ) (s : Server σ) (t : Readings) (client : Address)
    (frame : List UInt8) (sink : Sink) :
    alone h t ⟨client, frame, sink, .arrived⟩ 6 (s, .arrived) =
      ((s.dispatch h sink t client frame).1, .returned (s.dispatch h sink t client frame).2) := by
  unfold Server.dispatch
  cases hf : Envelope.ofFrame frame with
  | error f => simp only [alone, Server.advance, hf]
  | ok request =>
    simp only [Server.answer]
    by_cases he : request.operation = .echo
    · simp only [alone, Server.advance, hf, if_pos he]
    · rw [if_neg he]
      obtain ⟨s', c, hc⟩ : ∃ s' c,
        (s.countRequest request.operation).claim request client = (s', c) :=
        ⟨_, _, rfl⟩
      cases c with
      | fresh => simp only [alone, Server.advance, hf, if_neg he, hc, Server.run]
      | inFlight => simp only [alone, Server.advance, hf, if_neg he, hc]
      | done reply => simp only [alone, Server.advance, hf, if_neg he, hc]

/-- **Nobody else takes a step.** A datagram that arrives and is processed without interruption
changes the server as `dispatch` does, and gets its answer. -/
theorem run_alone (h : Handler σ) (s : Interleaving σ) (t : Readings) (client : Address)
    (frame : List UInt8) (sink : Sink) :
    ∃ log, run h s (.arrive client frame sink :: List.replicate 6 (.advance s.jobs.length t)) =
      ⟨(s.server.dispatch h sink t client frame).1,
        s.jobs ++ [⟨client, frame, sink, .returned (s.server.dispatch h sink t client frame).2⟩],
        log⟩ := by
  obtain ⟨log, hlog⟩ :=
    run_last h s.jobs ⟨client, frame, sink, .arrived⟩ t 6 s.server .arrived s.log
  rw [alone_eq_dispatch] at hlog
  exact ⟨log, hlog⟩

end Interleaving

end DatagramRpc
