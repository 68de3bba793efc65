import DatagramRpc.Proofs.Server.Interleaving
import DatagramRpc.Proofs.Server.UnboundedHistory
import Mathlib.Logic.Function.Basic

/-!
# Who owns a key

However the dispatches of a server take turns, each key of its history has at most one owner: the
dispatch that found it fresh. The history says no response as long as the owner is executing, and
the owner's reply from the moment it is recorded. `Coherent` is this invariant together with what
makes it inductive; it holds at the start, and every step of every interleaving keeps it.
-/

namespace DatagramRpc

/-- Where a dispatch stands towards the key of its request. -/
inductive Standing where
  | unclaimed
  | executing
  | executed (reply : Envelope)
  /-- Answered by what the history knew. -/
  | answered (claim : Claim)

/-- What a claim makes of a dispatch. -/
def Claim.standing : Claim → Standing
  | .fresh => .executing
  | .inFlight => .answered .inFlight
  | .done reply => .answered (.done reply)

def Dispatched.standing (d : Dispatched) : Standing :=
  match d.disposition with
  | .executed => .executed d.reply
  | .replayed => .answered (.done d.reply)
  | .inProgress => .answered .inFlight
  | .echoed | .rejected => .unclaimed

/-- What a dispatch has done before it gives this answer. -/
def Dispatched.past (d : Dispatched) : List Act :=
  match d.disposition with
  | .executed => [.claimed .fresh, .called, .recorded d.reply, .announced]
  | .replayed => [.claimed (.done d.reply)]
  | .inProgress => [.claimed .inFlight]
  | .echoed | .rejected => []

namespace Stage

def standing : Stage → Standing
  | arrived | decoded _ => .unclaimed
  | claimed _ | handled .. => .executing
  | recorded _ reply _ | announced _ reply _ => .executed reply
  | settled answer | returned answer => answer.standing

/-- What a dispatch has done so far. -/
def past : Stage → List Act
  | arrived | decoded _ => []
  | claimed _ => [.claimed .fresh]
  | handled .. => [.claimed .fresh, .called]
  | recorded _ reply _ => [.claimed .fresh, .called, .recorded reply]
  | announced _ reply _ => [.claimed .fresh, .called, .recorded reply, .announced]
  | settled answer => answer.past
  | returned answer => answer.past ++ [.returned answer]

/-- The request that a dispatch works on. -/
def request? : Stage → Option Envelope
  | decoded r | claimed r | handled r _ _ | recorded r _ _ | announced r _ _ => some r
  | arrived | settled _ | returned _ => none

end Stage

/-- The request that a dispatch works on is the one in its frame. -/
def Job.Faithful (j : Job) : Prop := ∀ r, j.stage.request? = some r → j.request? = some r

private theorem Job.Faithful.of_none {j : Job} (h : j.stage.request? = none) : j.Faithful := by
  intro r hr
  rw [h] at hr
  cases hr

/-! ## One owner for each key -/

/-- What the history knows of a key, beside the standings of its dispatches. Of all dispatches that
have claimed the key, one is executing it or has executed it, and the others were answered. -/
inductive Owned : Option (Option Envelope) → (Nat → Option Standing) → Prop
  | fresh {f : Nat → Option Standing} (others : ∀ i x, f i = some x → x = .unclaimed) : Owned none f
  | executing {f : Nat → Option Standing} (owner : Nat) (own : f owner = some .executing)
      (others : ∀ i x, i ≠ owner → f i = some x → x = .unclaimed ∨ x = .answered .inFlight) :
      Owned (some none) f
  | executed {f : Nat → Option Standing} {reply : Envelope} (owner : Nat)
      (own : f owner = some (.executed reply))
      (others : ∀ i x, i ≠ owner → f i = some x →
        x = .unclaimed ∨ x = .answered .inFlight ∨ x = .answered (.done reply)) :
      Owned (some (some reply)) f

namespace Owned

variable {response : Option (Option Envelope)} {f : Nat → Option Standing} {i : Nat}

private theorem arrive (ho : Owned response f) (hi : f i = none) :
    Owned response (Function.update f i (some .unclaimed)) := by
  have hother : ∀ {i' x}, Function.update f i (some Standing.unclaimed) i' = some x →
      x = .unclaimed ∨ f i' = some x := by
    intro i' x hx
    by_cases he : i' = i
    · subst he
      rw [Function.update_self] at hx
      exact .inl (Option.some.inj hx).symm
    · rw [Function.update_of_ne he] at hx
      exact .inr hx
  cases ho with
  | fresh others =>
    refine .fresh fun i' x hx => ?_
    rcases hother hx with rfl | hx
    · rfl
    · exact others i' x hx
  | executing owner own others =>
    have hne : owner ≠ i := fun he => by rw [he, hi] at own; cases own
    refine .executing owner (by rw [Function.update_of_ne hne, own]) fun i' x hi' hx => ?_
    rcases hother hx with rfl | hx
    · exact .inl rfl
    · exact others i' x hi' hx
  | executed owner own others =>
    have hne : owner ≠ i := fun he => by rw [he, hi] at own; cases own
    refine .executed owner (by rw [Function.update_of_ne hne, own]) fun i' x hi' hx => ?_
    rcases hother hx with rfl | hx
    · exact .inl rfl
    · exact others i' x hi' hx

/-- The first claim of a key makes its owner; every later claim is answered. -/
theorem claim (ho : Owned response f) (hi : f i = some .unclaimed) :
    Owned (if response = none then some none else response)
      (Function.update f i (some (Claim.ofResponse response).standing)) := by
  cases ho with
  | fresh others =>
    refine .executing i (Function.update_self ..) fun i' x hne hx => ?_
    rw [Function.update_of_ne hne] at hx
    exact .inl (others i' x hx)
  | executing owner own others =>
    have hne : owner ≠ i := fun he => by rw [he, hi] at own; cases own
    refine .executing owner (by rw [Function.update_of_ne hne, own]) fun i' x hi' hx => ?_
    by_cases he : i' = i
    · subst he
      rw [Function.update_self] at hx
      exact .inr (Option.some.inj hx).symm
    · rw [Function.update_of_ne he] at hx
      exact others i' x hi' hx
  | executed owner own others =>
    have hne : owner ≠ i := fun he => by rw [he, hi] at own; cases own
    refine .executed owner (by rw [Function.update_of_ne hne, own]) fun i' x hi' hx => ?_
    by_cases he : i' = i
    · subst he
      rw [Function.update_self] at hx
      exact .inr (.inr (Option.some.inj hx).symm)
    · rw [Function.update_of_ne he] at hx
      exact others i' x hi' hx

/-- Only the owner is executing, so what it records is the first reply. -/
theorem record (ho : Owned response f) (hi : f i = some .executing) (reply : Envelope) :
    Owned (some (some reply)) (Function.update f i (some (.executed reply))) := by
  cases ho with
  | fresh others => cases others i _ hi
  | executing owner own others =>
    have he : i = owner := by
      by_cases he : i = owner
      · exact he
      · rcases others i _ he hi with h | h <;> cases h
    refine .executed i (Function.update_self ..) fun i' x hne hx => ?_
    rw [Function.update_of_ne hne] at hx
    rcases others i' x (he ▸ hne) hx with h | h
    · exact .inl h
    · exact .inr (.inl h)
  | executed owner own others =>
    by_cases he : i = owner
    · rw [he, own] at hi
      cases hi
    · rcases others i _ he hi with h | h | h <;> cases h

end Owned

/-! ## What one step does -/

namespace Server

variable {σ : Type} {s server : Server σ} {h : Handler σ} {t : Readings} {j : Job} {stage : Stage}
  {act : Option Act}

private theorem claim_eq (hs : s.semantics = .atMostOnce) (request : Envelope) (client : Address) :
    (s.claim request client).1.history = (s.history.claim request client).1 ∧
      (s.claim request client).1.semantics = .atMostOnce ∧
      (s.claim request client).2 = (s.history.claim request client).2 := by
  rw [claim, hs]
  simp only
  split <;> exact ⟨rfl, rfl, rfl⟩

theorem execute_history (s : Server σ) (h : Handler σ) (request : Envelope) (call : Call) :
    (s.execute h request call).1.history = s.history ∧
      (s.execute h request call).1.semantics = s.semantics := by
  unfold execute
  simp only
  split <;> exact ⟨rfl, rfl⟩

theorem announce_history (s : Server σ) (h : Handler σ) (sink : Sink) (t : Readings)
    (op : Operation) (changed : Option String) :
    (s.announce h sink t op changed).1.history = s.history ∧
      (s.announce h sink t op changed).1.semantics = s.semantics := by
  unfold announce
  split
  · unfold notify
    simp only
    split <;> exact ⟨rfl, rfl⟩
  · exact ⟨rfl, rfl⟩

/-- What a step of a dispatch does to the history: nothing, a claim, or the recording of a reply. -/
inductive Touch (s : Server σ) (j : Job) (server : Server σ) (stage : Stage) : Option Act → Prop
  | none {act : Option Act} (same : server.history = s.history)
      (standing : stage.standing = j.stage.standing) (quiet : ∀ c, act ≠ some (.claimed c)) :
      Touch s j server stage act
  | claim (request : Envelope) (before : j.stage = .decoded request)
      (after : server.history = (s.history.claim request j.client).1)
      (standing : stage.standing = (s.history.claim request j.client).2.standing) :
      Touch s j server stage (some (.claimed (s.history.claim request j.client).2))
  | record (request reply : Envelope) (changed : Option String)
      (before : j.stage = .handled request reply changed)
      (after : server.history = s.history.record request j.client reply)
      (standing : stage.standing = .executed reply) :
      Touch s j server stage (some (.recorded reply))

/-- Everything that the invariant needs to know of a step. -/
theorem advance_cases (hs : s.semantics = .atMostOnce) (hj : j.Faithful)
    (ha : s.advance h t j = (server, stage, act)) :
    server.semantics = .atMostOnce ∧ ({ j with stage } : Job).Faithful ∧
      (j.stage.past ++ act.toList = stage.past) ∧ Touch s j server stage act := by
  unfold advance at ha
  cases hstage : j.stage with
  | arrived =>
    simp only [hstage] at ha
    cases hf : Envelope.ofFrame j.frame with
    | error f =>
      simp only [hf] at ha
      cases ha
      exact ⟨hs, .of_none rfl, rfl, .none rfl (by rw [hstage]; rfl) (by simp)⟩
    | ok request =>
      simp only [hf] at ha
      split at ha
      · cases ha
        exact ⟨hs, .of_none rfl, rfl,
          .none rfl (by rw [hstage]; rfl) (by simp)⟩
      · next hecho =>
        cases ha
        refine ⟨hs, ?_, rfl, .none rfl (by rw [hstage]; rfl) (by simp)⟩
        intro r hr
        obtain rfl : request = r := Option.some.inj hr
        simp only [Job.request?, hf, if_neg hecho]
  | decoded request =>
    simp only [hstage] at ha
    have hr : j.request? = some request := hj request (by rw [hstage]; rfl)
    obtain ⟨hh, hsem, hc⟩ := claim_eq hs request j.client
    have htouch : ∀ {stage : Stage}, stage.standing = (s.claim request j.client).2.standing →
        Touch s j (s.claim request j.client).1 stage
          (some (.claimed (s.claim request j.client).2)) := by
      intro stage hstanding
      rw [hc] at hstanding ⊢
      exact .claim request hstage hh hstanding
    split at ha
    · next he =>
      cases ha
      rw [he] at hsem htouch
      exact ⟨hsem, fun r h' => by rw [← h']; exact hr, rfl, htouch rfl⟩
    · next he =>
      cases ha
      rw [he] at hsem htouch
      exact ⟨hsem, .of_none rfl, rfl, htouch rfl⟩
    · next he =>
      cases ha
      rw [he] at hsem htouch
      exact ⟨hsem, .of_none rfl, rfl, htouch rfl⟩
  | claimed request =>
    simp only [hstage] at ha
    cases ha
    obtain ⟨hh, hsem⟩ := execute_history s h request ⟨j.client, t.handled⟩
    exact ⟨hsem.trans hs, fun r h' => hj r (by rw [hstage]; exact h'), rfl,
      .none hh (by rw [hstage]; rfl) (by simp)⟩
  | handled request reply changed =>
    simp only [hstage] at ha
    cases ha
    exact ⟨hs, fun r h' => hj r (by rw [hstage]; exact h'), rfl,
      .record request reply changed hstage rfl rfl⟩
  | recorded request reply changed =>
    simp only [hstage] at ha
    cases ha
    obtain ⟨hh, hsem⟩ := announce_history s h j.sink t request.operation changed
    exact ⟨hsem.trans hs, fun r h' => hj r (by rw [hstage]; exact h'), rfl,
      .none hh (by rw [hstage]; rfl) (by simp)⟩
  | announced request reply publication =>
    simp only [hstage] at ha
    cases ha
    exact ⟨hs, .of_none rfl, rfl, .none rfl (by rw [hstage]; rfl) (by simp)⟩
  | settled answer =>
    simp only [hstage] at ha
    cases ha
    exact ⟨hs, .of_none rfl, rfl, .none rfl (by rw [hstage]; rfl) (by simp)⟩
  | returned answer =>
    simp only [hstage] at ha
    cases ha
    exact ⟨hs, .of_none rfl, List.append_nil _,
      .none rfl (by rw [hstage]) (by simp)⟩

end Server

/-! ## What the past of a dispatch says about its stage -/

/-- A dispatch that executes its request, or has done so. -/
def Standing.Owns : Standing → Prop
  | executing | executed _ => True
  | unclaimed | answered _ => False

namespace Stage

variable {stage : Stage} {reply : Envelope} {d : Dispatched}

theorem eq_returned_of_mem (hm : .returned d ∈ stage.past) : stage = .returned d := by
  cases stage with
  | returned answer =>
    rcases List.mem_append.mp hm with hm | hm
    · unfold Dispatched.past at hm
      split at hm <;> simp at hm
    · rw [Act.returned.inj (List.mem_singleton.mp hm)]
  | settled answer =>
    simp only [past, Dispatched.past] at hm
    split at hm <;> simp at hm
  | _ => simp [past] at hm

theorem owns_of_called (hm : .called ∈ stage.past) : stage.standing.Owns := by
  cases stage with
  | settled answer | returned answer =>
    simp only [past, Dispatched.past] at hm
    simp only [standing, Dispatched.standing]
    split at hm <;> simp_all [Standing.Owns]
  | _ => simp_all [past, standing, Standing.Owns]

theorem count_called_le_one (stage : Stage) : stage.past.count .called ≤ 1 := by
  cases stage with
  | settled answer | returned answer =>
    simp only [past, Dispatched.past]
    split <;> simp
  | _ => simp [past]

theorem claimed_of_owns (ho : stage.standing.Owns) : .claimed .fresh ∈ stage.past := by
  cases stage with
  | settled answer | returned answer =>
    simp only [standing, Dispatched.standing] at ho
    simp only [past, Dispatched.past]
    split at ho <;> simp_all [Standing.Owns]
  | _ => simp_all [past, standing, Standing.Owns]

theorem mem_past_recorded : .recorded reply ∈ stage.past ↔ stage.standing = .executed reply := by
  cases stage with
  | settled answer | returned answer =>
    simp only [past, Dispatched.past, standing, Dispatched.standing]
    split <;> simp [eq_comm]
  | _ => simp [past, standing, eq_comm]

theorem executed_of_announced (hm : .announced ∈ stage.past) :
    ∃ reply, stage.standing = .executed reply := by
  cases stage with
  | settled answer | returned answer =>
    simp only [past, Dispatched.past] at hm
    simp only [standing, Dispatched.standing]
    split at hm <;> simp_all
  | _ => simp_all [past, standing]

theorem claimed_of_inProgress (hd : d.disposition = .inProgress) :
    .claimed .inFlight ∈ (returned d).past := by
  simp [past, Dispatched.past, hd]

/-- A dispatch that found a reply in the history is about to return it, or has returned it. -/
theorem replayed_of_claimed (hm : .claimed (.done reply) ∈ stage.past) :
    ∃ d, d.disposition = .replayed ∧ d.reply = reply ∧
      (stage = .settled d ∨ stage = .returned d) := by
  cases stage with
  | settled answer | returned answer =>
    simp only [past, Dispatched.past] at hm
    refine ⟨answer, ?_⟩
    split at hm <;> simp_all
  | _ => simp [past] at hm

end Stage

namespace Owned

variable {response : Option (Option Envelope)} {f : Nat → Option Standing} {i i' : Nat}

theorem unique (ho : Owned response f) {x x' : Standing} (hi : f i = some x) (hi' : f i' = some x')
    (hx : x.Owns) (hx' : x'.Owns) : i = i' := by
  have key : ∀ owner, (∀ i x, i ≠ owner → f i = some x → ¬ x.Owns) → i = i' := by
    intro owner others
    have h1 : i = owner := Classical.byContradiction fun he => others i x he hi hx
    have h2 : i' = owner := Classical.byContradiction fun he => others i' x' he hi' hx'
    rw [h1, h2]
  cases ho with
  | fresh others =>
    rw [others i x hi] at hx
    exact hx.elim
  | executing owner own others =>
    refine key owner fun i x hne hi hx => ?_
    rcases others i x hne hi with rfl | rfl <;> exact hx
  | executed owner own others =>
    refine key owner fun i x hne hi hx => ?_
    rcases others i x hne hi with rfl | rfl | rfl <;> exact hx

theorem response_of_executed (ho : Owned response f) {reply : Envelope}
    (hi : f i = some (.executed reply)) : response = some (some reply) := by
  cases ho with
  | fresh others => cases others i _ hi
  | executing owner own others =>
    by_cases he : i = owner
    · rw [he, own] at hi
      cases hi
    · rcases others i _ he hi with h | h <;> cases h
  | executed owner own others =>
    by_cases he : i = owner
    · rw [he, own] at hi
      cases hi
      rfl
    · rcases others i _ he hi with h | h | h <;> cases h

theorem exists_executed (ho : Owned response f) {reply : Envelope}
    (hi : f i = some (.answered (.done reply))) : ∃ owner, f owner = some (.executed reply) := by
  cases ho with
  | fresh others => cases others i _ hi
  | executing owner own others =>
    by_cases he : i = owner
    · rw [he, own] at hi
      cases hi
    · rcases others i _ he hi with h | h <;> cases h
  | executed owner own others =>
    by_cases he : i = owner
    · rw [he, own] at hi
      cases hi
    · rcases others i _ he hi with h | h | h <;> cases h
      exact ⟨owner, own⟩

theorem exists_executing (ho : Owned (some none) f) : ∃ owner, f owner = some .executing := by
  cases ho with
  | executing owner own others => exact ⟨owner, own⟩

end Owned

namespace Interleaving

variable {σ : Type} {h : Handler σ} {s : Interleaving σ} {i : Nat} {k : CallKey}

/-- What a dispatch has done, in order. -/
def acts (s : Interleaving σ) (i : Nat) : List Act := (s.log.filter (·.job == i)).map (·.act)

/-- Where the dispatches of a key stand. -/
def standing (s : Interleaving σ) (k : CallKey) (i : Nat) : Option Standing :=
  s.jobs[i]?.bind fun j => if j.key? = some k then some j.stage.standing else none

theorem mem_acts {a : Act} : a ∈ s.acts i ↔ ⟨i, a⟩ ∈ s.log := by
  simp only [acts, List.mem_map, List.mem_filter, beq_iff_eq]
  constructor
  · rintro ⟨⟨i', a'⟩, ⟨hm, hi⟩, ha⟩
    rw [← hi, ← ha]
    exact hm
  · intro hm
    exact ⟨⟨i, a⟩, ⟨hm, rfl⟩, rfl⟩

private theorem standing_of_job {j : Job} (hj : s.jobs[i]? = some j) (hk : j.key? = some k) :
    s.standing k i = some j.stage.standing := by
  rw [standing, hj, Option.bind_some, if_pos hk]

private theorem standing_set {j : Job} (hj : s.jobs[i]? = some j) (server : Server σ)
    (stage : Stage) (log : List Event) (k : CallKey) :
    (⟨server, s.jobs.set i { j with stage }, log⟩ : Interleaving σ).standing k =
      if j.key? = some k then Function.update (s.standing k) i (some stage.standing)
      else s.standing k := by
  have hi : i < s.jobs.length := (List.getElem?_eq_some_iff.mp hj).1
  funext i'
  by_cases he : i' = i
  · subst he
    simp only [standing, List.getElem?_set_self hi, Option.bind_some]
    by_cases hk : j.key? = some k
    · rw [if_pos hk, Function.update_self]
      exact if_pos hk
    · rw [if_neg hk, standing, hj, Option.bind_some, if_neg hk]
      exact if_neg hk
  · simp only [standing, List.getElem?_set_ne (Ne.symm he)]
    split
    · rw [Function.update_of_ne he]
      rfl
    · rfl

/-- The invariant of a run: the log is what the stages say, and every key has its owner. -/
structure Coherent (s : Interleaving σ) : Prop where
  semantics : s.server.semantics = .atMostOnce
  unbounded : s.server.history.limit = 0
  faithful : ∀ (i : Nat) (j : Job), s.jobs[i]? = some j → j.Faithful
  acts_eq : ∀ i : Nat, s.acts i = s.jobs[i]?.elim [] fun j => j.stage.past
  owned : ∀ k : CallKey, Owned (s.server.history.response? k) (s.standing k)

theorem coherent_start (handler : σ) : Coherent (start (Server.start .atMostOnce 0 handler)) where
  semantics := rfl
  unbounded := rfl
  faithful := by simp [start]
  acts_eq := by simp [start, acts]
  owned k := .fresh (by simp [standing, start])

private theorem coherent_arrive (hs : Coherent s) (client : Address) (frame : List UInt8)
    (sink : Sink) : Coherent (step h s (.arrive client frame sink)) := by
  have hjobs := jobs_arrive h s client frame sink
  have hend : s.jobs[s.jobs.length]? = none := List.getElem?_eq_none (Nat.le_refl _)
  refine ⟨hs.semantics, hs.unbounded, fun i j hj => ?_, fun i => ?_, fun k => ?_⟩
  · rw [hjobs] at hj
    split at hj
    · cases hj
      exact .of_none rfl
    · exact hs.faithful i j hj
  · have hacts := hs.acts_eq i
    rw [hjobs]
    split
    · next he =>
      rw [he, hend] at hacts
      rw [he]
      exact hacts
    · exact hacts
  · let j : Job := ⟨client, frame, sink, .arrived⟩
    have hstanding : (step h s (.arrive client frame sink)).standing k =
        if j.key? = some k then Function.update (s.standing k) s.jobs.length (some .unclaimed)
        else s.standing k := by
      funext i
      rw [standing, hjobs]
      by_cases he : i = s.jobs.length
      · subst he
        rw [if_pos rfl, Option.bind_some]
        split
        · rw [Function.update_self]
          rfl
        · rw [standing, hend, Option.bind_none]
      · rw [if_neg he]
        split
        · rw [Function.update_of_ne he]
          rfl
        · rfl
    rw [hstanding]
    split
    · exact (hs.owned k).arrive (by rw [standing, hend, Option.bind_none])
    · exact hs.owned k

/-- The key of a request that its dispatch works on. -/
theorem key?_of_stage {j : Job} (hj : j.Faithful) {request : Envelope}
    (hr : j.stage.request? = some request) : j.key? = some ⟨request.id, j.client⟩ := by
  rw [Job.key?, hj request hr, Option.map_some]

/-- A step of a dispatch concerns its own key only, and there it hands the key on as `Owned`
allows. -/
theorem owned_advance (hs : Coherent s) {j : Job} (hj : s.jobs[i]? = some j) {server : Server σ}
    {stage : Stage} {act : Option Act} (htouch : Server.Touch s.server j server stage act)
    (k : CallKey) :
    Owned (server.history.response? k)
      (if j.key? = some k then Function.update (s.standing k) i (some stage.standing)
        else s.standing k) := by
  cases htouch with
  | none same standing =>
    rw [same]
    split
    · next hk =>
      rw [standing, ← standing_of_job hj hk, Function.update_eq_self]
      exact hs.owned k
    · exact hs.owned k
  | claim request before after standing =>
    have hrequest : j.stage.request? = some request := by rw [before]; rfl
    have hkey := key?_of_stage (hs.faithful i j hj) hrequest
    rw [after, History.response?_claim hs.unbounded, standing, History.claim_snd, hkey]
    by_cases hk : ⟨request.id, j.client⟩ = k
    · subst hk
      have hi := standing_of_job hj hkey
      rw [before] at hi
      simpa only [true_and, if_true] using (hs.owned _).claim hi
    · rw [if_neg fun hc => hk hc.1, if_neg fun hc => hk (Option.some.inj hc)]
      exact hs.owned k
  | record request reply changed before after standing =>
    have hrequest : j.stage.request? = some request := by rw [before]; rfl
    have hkey := key?_of_stage (hs.faithful i j hj) hrequest
    rw [after, History.response?_record hs.unbounded, standing, hkey]
    by_cases hk : ⟨request.id, j.client⟩ = k
    · subst hk
      have hi := standing_of_job hj hkey
      rw [before] at hi
      simpa only [if_true] using (hs.owned _).record hi reply
    · rw [if_neg hk, if_neg fun hc => hk (Option.some.inj hc)]
      exact hs.owned k

private theorem coherent_advance (hs : Coherent s) (i : Nat) (t : Readings) :
    Coherent (step h s (.advance i t)) := by
  cases hj : s.jobs[i]? with
  | none => rw [step_advance_none hj]; exact hs
  | some j =>
    obtain ⟨server, stage, act, ha⟩ : ∃ server stage act,
        s.server.advance h t j = (server, stage, act) := ⟨_, _, _, rfl⟩
    obtain ⟨hsem, hfaithful, hpast, htouch⟩ :=
      Server.advance_cases hs.semantics (hs.faithful i j hj) ha
    have hi : i < s.jobs.length := (List.getElem?_eq_some_iff.mp hj).1
    rw [step_advance hj ha]
    refine ⟨hsem, ?_, fun i' j' hj' => ?_, fun i' => ?_, fun k => ?_⟩
    · cases htouch with
      | none same => exact (congrArg History.limit same).trans hs.unbounded
      | claim request before after =>
        exact (congrArg History.limit after).trans (History.limit_claim hs.unbounded _ _)
      | record request reply changed before after =>
        exact (congrArg History.limit after).trans (History.limit_insert hs.unbounded _)
    · by_cases he : i = i'
      · subst he
        rw [List.getElem?_set_self hi] at hj'
        cases hj'
        exact hfaithful
      · rw [List.getElem?_set_ne he] at hj'
        exact hs.faithful i' j' hj'
    · have hacts := hs.acts_eq i'
      by_cases he : i = i'
      · subst he
        rw [hj] at hacts
        rw [List.getElem?_set_self hi, Option.elim_some, ← hpast, acts, List.filter_append,
          List.map_append]
        refine congrArg₂ (· ++ ·) hacts ?_
        cases act <;> simp
      · rw [List.getElem?_set_ne he, ← hacts, acts, acts, List.filter_append, List.map_append]
        cases act <;> simp [he]
    · rw [standing_set hj]
      exact owned_advance hs hj htouch k

private theorem coherent_step (hs : Coherent s) (a : Action σ) : Coherent (step h s a) := by
  cases a with
  | arrive client frame sink => exact coherent_arrive hs client frame sink
  | advance i t => exact coherent_advance hs i t
  | outside handler monitors =>
    exact ⟨hs.semantics, hs.unbounded, hs.faithful, hs.acts_eq, hs.owned⟩

theorem coherent_run (hs : Coherent s) (actions : List (Action σ)) :
    Coherent (run h s actions) := by
  induction actions generalizing s with
  | nil => exact hs
  | cons a rest ih => exact ih (coherent_step hs a)

/-- The stage of a dispatch. -/
def stage? (s : Interleaving σ) (i : Nat) : Option Stage := s.jobs[i]?.map (·.stage)

/-- Whoever has acted is there. -/
theorem lt_of_mem_log (hs : Coherent s) {a : Act} (hm : ⟨i, a⟩ ∈ s.log) : i < s.jobs.length := by
  rcases Nat.lt_or_ge i s.jobs.length with hi | hi
  · exact hi
  · have ha := mem_acts.mpr hm
    rw [hs.acts_eq, List.getElem?_eq_none hi] at ha
    cases ha

/-- What the log, the stage and the standing of a dispatch have to do with each other. -/
theorem stage_of_key (hs : Coherent s) (hk : s.key? i = some k) :
    ∃ stage : Stage, s.stage? i = some stage ∧ s.standing k i = some stage.standing ∧
      s.acts i = stage.past := by
  obtain ⟨j, hj, hjk⟩ := Option.bind_eq_some_iff.mp hk
  refine ⟨j.stage, by rw [stage?, hj]; rfl, standing_of_job hj hjk, ?_⟩
  rw [hs.acts_eq, hj]
  rfl

theorem key_of_standing {x : Standing} (hx : s.standing k i = some x) : s.key? i = some k := by
  obtain ⟨j, hj, hjx⟩ := Option.bind_eq_some_iff.mp hx
  rw [key?, hj, Option.bind_some]
  split at hjx
  · next hk => exact hk
  · cases hjx

/-- A claim is answered with what the history knew of the key. -/
theorem claim_of_log (hs : Coherent s) {action : Action σ} {c : Claim}
    (hlog : (step h s action).log = s.log ++ [⟨i, .claimed c⟩]) :
    ∃ key, s.key? i = some key ∧ c = .ofResponse (s.server.history.response? key) := by
  cases action with
  | arrive client frame sink => simp [step] at hlog
  | outside handler monitors => simp [step] at hlog
  | advance i' t =>
    cases hj : s.jobs[i']? with
    | none => simp [step_advance_none hj] at hlog
    | some j =>
      obtain ⟨server, stage, act, ha⟩ : ∃ server stage act,
          s.server.advance h t j = (server, stage, act) := ⟨_, _, _, rfl⟩
      rw [step_advance hj ha] at hlog
      cases act with
      | none => simp at hlog
      | some act =>
        obtain ⟨rfl, rfl⟩ : i' = i ∧ act = .claimed c := by simpa using hlog
        obtain ⟨-, -, -, htouch⟩ := Server.advance_cases hs.semantics (hs.faithful i' j hj) ha
        cases htouch with
        | none same standing quiet => exact absurd rfl (quiet c)
        | claim request before after standing =>
          have hrequest : j.stage.request? = some request := by rw [before]; rfl
          have hkey := key?_of_stage (hs.faithful i' j hj) hrequest
          exact ⟨_, by rw [key?, hj, Option.bind_some, hkey], History.claim_snd ..⟩

end Interleaving

end DatagramRpc
