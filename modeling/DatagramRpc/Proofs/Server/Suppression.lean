import DatagramRpc.Proofs.Server.Correlation
import DatagramRpc.Proofs.Server.Retransmission

/-!
# Which requests are suppressed

A server that executes requests at most once tells them apart by number and client alone. What a
client asks for plays no part: a request under a number that its client has used before is answered
with the old reply, be it a retransmission or not. `Recalls` says what a session knows of the
datagrams it has answered, and the three ways to answer one more of them are read off it.

Whatever datagrams have come one after another, the handler was called for the requests that were
answered as executed and no others. One more is answered from the history exactly if an earlier one
made the same call, with the reply to the first of these, which was executed; else it is executed.
Only where those who made its call before made the same request does this come to saying that it is
executed exactly if it never came.
-/

namespace DatagramRpc

variable {σ : Type}

namespace Arrival

/-- The request in a datagram, unless it is an echo. -/
def call? (a : Arrival) : Option Envelope :=
  (Envelope.ofFrame a.frame).toOption.filter fun request => request.operation ≠ .echo

/-- The same call to the server, which looks at the number and the client. -/
def SameCall (b a : Arrival) : Prop := ∃ k, b.key? = some k ∧ a.key? = some k

/-- The same request of the same client, in all that it says. -/
def SameRequest (b a : Arrival) : Prop :=
  b.client = a.client ∧ ∃ request, b.call? = some request ∧ a.call? = some request

private theorem key?_eq_map (a : Arrival) :
    a.key? = a.call?.map fun request => ⟨request.id, a.client⟩ := by
  unfold key? call? Server.keyOf?
  cases Envelope.ofFrame a.frame with
  | error fault => rfl
  | ok request =>
    by_cases hecho : request.operation = .echo <;> simp [Except.toOption, hecho]

private theorem key?_of_call {a : Arrival} {request : Envelope} (call : a.call? = some request) :
    a.key? = some ⟨request.id, a.client⟩ := by
  rw [key?_eq_map, call, Option.map_some]

/-- Whoever sends the same request again makes the same call. -/
theorem SameRequest.sameCall {b a : Arrival} (hb : b.SameRequest a) : b.SameCall a := by
  obtain ⟨hclient, request, hcall, hcall'⟩ := hb
  exact ⟨⟨request.id, a.client⟩, hclient ▸ key?_of_call hcall, key?_of_call hcall'⟩

end Arrival

namespace Session

variable {x : Session (σ × List Execution)} {answers : List (Arrival × Dispatched)} {h : Handler σ}
  {sink : Sink} {a : Arrival} {k : CallKey}

/-- The first datagram that came under a key, with its answer. -/
def firstUnder (k : CallKey) (answers : List (Arrival × Dispatched)) :
    Option (Arrival × Dispatched) :=
  answers.find? fun b => b.1.key? = some k

/-- The requests that were answered by executing them, in order. -/
def carriedOut (answers : List (Arrival × Dispatched)) : List Execution :=
  answers.filterMap fun b =>
    if b.2.disposition = .executed then b.1.call?.map fun request => ⟨b.1.client, request⟩ else none

private theorem firstUnder_eq_none :
    firstUnder k answers = none ↔ ∀ b ∈ answers, b.1.key? ≠ some k := by
  simp [firstUnder]

private theorem firstUnder_append (k : CallKey) (answers : List (Arrival × Dispatched))
    (b : Arrival × Dispatched) :
    firstUnder k (answers ++ [b]) =
      if b.1.key? = some k ∧ firstUnder k answers = none then some b else firstUnder k answers := by
  unfold firstUnder
  rw [List.find?_append]
  cases answers.find? fun b => b.1.key? = some k with
  | none => by_cases hb : b.1.key? = some k <;> simp [hb]
  | some first => simp

private theorem map_fst_run {σ : Type} (h : Handler σ) (sink : Sink) (x : Session σ)
    (arrivals : List Arrival) : (run h sink x arrivals).2.map (·.1) = arrivals := by
  induction arrivals generalizing x with
  | nil => rfl
  | cons a arrivals ih => exact congrArg (a :: ·) (ih (x.receive h sink a).1)

/-! ## What a session knows of its datagrams -/

/-- Forgets nothing: what it has for a key is the reply to the first datagram under the key, which
was executed, and its handler was called for the executed requests and no others. -/
structure Recalls (x : Session (σ × List Execution)) (answers : List (Arrival × Dispatched)) :
    Prop where
  remembering : x.server.Remembering
  response : ∀ k, x.server.history.response? k = (firstUnder k answers).map fun b => some b.2.reply
  executed : ∀ k b, firstUnder k answers = some b → b.2.disposition = .executed
  executions : x.server.handler.2 = carriedOut answers

private theorem recalls_start (handler : σ) :
    (start (.start .atMostOnce 0 (handler, []))).Recalls [] where
  remembering := Server.remembering_start _
  response _ := rfl
  executed _ _ hb := nomatch hb
  executions := rfl

/-- The answer to a datagram, given those to the datagrams before it. -/
inductive Outcome (answers : List (Arrival × Dispatched)) (a : Arrival) (d : Dispatched) : Prop
  | apart (noCall : a.call? = none) (unexecuted : d.disposition ≠ .executed)
      (unreplayed : d.disposition ≠ .replayed)
  | fresh (request : Envelope) (call : a.call? = some request)
      (new : firstUnder ⟨request.id, a.client⟩ answers = none)
      (executed : d.disposition = .executed)
  | known (request : Envelope) (first : Arrival × Dispatched) (call : a.call? = some request)
      (seen : firstUnder ⟨request.id, a.client⟩ answers = some first)
      (replayed : d.disposition = .replayed)
      (same : d.reply = first.2.reply)

/-- One datagram more: how it is answered, and whether the handler is called for it. -/
theorem Recalls.outcome (hx : x.Recalls answers) (h : Handler σ) (sink : Sink) (a : Arrival) :
    Outcome answers a (x.receive h.logged sink a).2 ∧
      (x.receive h.logged sink a).1.server.handler.2 =
        x.server.handler.2 ++ carriedOut [(a, (x.receive h.logged sink a).2)] := by
  have hcases :=
    Server.dispatches hx.remembering.semantics h.logged (fun n => sink (x.sent.length + n))
    a.readings a.client a.frame
  simp only [Session.receive]
  generalize x.server.dispatch h.logged _ a.readings a.client a.frame = after at hcases
  -- The call in a frame that was read as a request.
  have hcall {request : Envelope} (decoded : Envelope.ofFrame a.frame = .ok request)
      (noEcho : request.operation ≠ .echo) : a.call? = some request := by
    simp [Arrival.call?, decoded, Except.toOption, noEcho]
  cases hcases with
  | rejected malformed =>
    refine ⟨.apart ?_ (by simp) (by simp), (List.append_nil _).symm⟩
    simp [Arrival.call?, malformed, Except.toOption]
  | echoed decoded echo =>
    refine ⟨.apart ?_ (by simp) (by simp), (List.append_nil _).symm⟩
    simp [Arrival.call?, decoded, Except.toOption, echo]
  | @known request response metrics decoded noEcho seen =>
    rw [hx.response] at seen
    obtain ⟨first, hfirst, rfl⟩ := Option.map_eq_some_iff.mp seen
    exact ⟨.known request first (hcall decoded noEcho) hfirst rfl rfl, (List.append_nil _).symm⟩
  | @executed request metrics decoded noEcho new =>
    rw [hx.response, Option.map_eq_none_iff] at new
    refine ⟨.fresh request (hcall decoded noEcho) new rfl, ?_⟩
    have hran := (Server.ran_run (x.server.begun metrics request a.client) h.logged
      (fun n => sink (x.sent.length + n)) a.readings a.client request).handler
    rw [hran]
    simp [carriedOut, hcall decoded noEcho, Server.run, Handler.logged, Server.begun]

private theorem Recalls.receive (hx : x.Recalls answers) (h : Handler σ) (sink : Sink)
    (a : Arrival) :
    (x.receive h.logged sink a).1.Recalls (answers ++ [(a, (x.receive h.logged sink a).2)]) := by
  obtain ⟨hremembering, hresponse⟩ := Server.response?_dispatch hx.remembering h.logged
    (fun n => sink (x.sent.length + n)) a.readings a.client a.frame
  obtain ⟨houtcome, hexecutions⟩ := hx.outcome h sink a
  refine ⟨hremembering, fun k => ?_, fun k b hb => ?_, ?_⟩
  · have hnew : x.server.history.response? k = none ↔ firstUnder k answers = none := by
      rw [hx.response, Option.map_eq_none_iff]
    rw [firstUnder_append, apply_ite (Option.map _), ← hx.response k]
    simp only [← hnew]
    exact hresponse k
  · rw [firstUnder_append] at hb
    split at hb
    · next hfirst =>
      obtain rfl := Option.some.inj hb
      obtain ⟨hkey, hnone⟩ := hfirst
      cases houtcome with
      | apart noCall => simp [Arrival.key?_eq_map, noCall] at hkey
      | fresh request call new executed => exact executed
      | known request first call seen =>
        rw [Option.some.inj ((Arrival.key?_of_call call).symm.trans hkey), hnone] at seen
        cases seen
    · exact hx.executed k b hb
  · rw [hexecutions, hx.executions, carriedOut, carriedOut, carriedOut, List.filterMap_append]

private theorem Recalls.run (hx : x.Recalls answers) (h : Handler σ) (sink : Sink)
    (arrivals : List Arrival) :
    (run h.logged sink x arrivals).1.Recalls (answers ++ (run h.logged sink x arrivals).2) := by
  induction arrivals generalizing x answers with
  | nil =>
    rw [Session.run, List.append_nil]
    exact hx
  | cons a arrivals ih =>
    have hrest := ih (hx.receive h sink a)
    rw [List.append_assoc] at hrest
    exact hrest

/-! ## Calls that came before -/

private theorem exists_sameCall {request : Envelope} (call : a.call? = some request) :
    (∃ b ∈ answers, b.1.SameCall a) ↔ firstUnder ⟨request.id, a.client⟩ answers ≠ none := by
  have hkey := Arrival.key?_of_call call
  simp only [ne_eq, firstUnder_eq_none, not_forall, not_not, exists_prop]
  refine exists_congr fun b => and_congr_right fun _ => ⟨?_, fun hb => ⟨_, hb, hkey⟩⟩
  rintro ⟨k, hb, ha⟩
  rw [hb, ← ha, hkey]

private theorem not_sameCall_of_noCall (noCall : a.call? = none) (b : Arrival) :
    ¬ b.SameCall a := by
  rintro ⟨k, -, ha⟩
  rw [Arrival.key?_eq_map, noCall] at ha
  cases ha

namespace Outcome

variable {d : Dispatched}

private theorem replayed_iff (ho : Outcome answers a d) :
    d.disposition = .replayed ↔ ∃ b ∈ answers, b.1.SameCall a := by
  cases ho with
  | apart noCall unexecuted unreplayed =>
    refine iff_of_false unreplayed ?_
    rintro ⟨b, -, hb⟩
    exact not_sameCall_of_noCall noCall b.1 hb
  | fresh request call new executed =>
    rw [exists_sameCall call, new, executed]
    simp
  | known request first call seen replayed same =>
    rw [exists_sameCall call, seen, replayed]
    simp

private theorem executed_iff (ho : Outcome answers a d) :
    d.disposition = .executed ↔ a.call? ≠ none ∧ ∀ b ∈ answers, ¬ b.1.SameCall a := by
  have hseen : (∀ b ∈ answers, ¬ b.1.SameCall a) ↔ ¬ ∃ b ∈ answers, b.1.SameCall a := by
    simp only [not_exists, not_and]
  rw [hseen]
  cases ho with
  | apart noCall unexecuted unreplayed => exact iff_of_false unexecuted fun hcall => hcall.1 noCall
  | fresh request call new executed =>
    rw [exists_sameCall call, call, new, executed]
    simp
  | known request first call seen replayed same =>
    rw [exists_sameCall call, seen, replayed]
    simp

/-- The reply comes from the first datagram that made the call. -/
theorem first_of_replayed (ho : Outcome answers a d)
    (hexecuted : ∀ k b, firstUnder k answers = some b → b.2.disposition = .executed)
    (hd : d.disposition = .replayed) :
    ∃ before first after, answers = before ++ first :: after ∧ (∀ b ∈ before, ¬ b.1.SameCall a) ∧
      first.1.SameCall a ∧ first.2.disposition = .executed ∧ d.reply = first.2.reply := by
  cases ho with
  | apart noCall unexecuted unreplayed => exact absurd hd unreplayed
  | fresh request call new executed =>
    rw [executed] at hd
    cases hd
  | known request first call seen replayed same =>
    have hkey := Arrival.key?_of_call call
    obtain ⟨hfirst, before, after, hsplit, hbefore⟩ := List.find?_eq_some_iff_append.mp seen
    refine ⟨before, first, after, hsplit, fun b hb hcall => ?_, ⟨_, by simpa using hfirst, hkey⟩,
      hexecuted _ _ seen, same⟩
    obtain ⟨k, hk, ha⟩ := hcall
    have hother := hbefore b hb
    rw [hkey] at ha
    obtain rfl := Option.some.inj ha
    simp [hk] at hother

end Outcome

/-! ## The main statement -/

/-- **A known number suppresses a request**, whatever it asks for: it is answered from the history
exactly if an earlier datagram had its number and client. -/
theorem suppressed_by_number (h : Handler σ) (sink : Sink) (handler : σ) (earlier : List Arrival)
    (a : Arrival) :
    let x := run h.logged sink (start (.start .atMostOnce 0 (handler, []))) earlier
    let d := (x.1.receive h.logged sink a).2
    x.1.server.handler.2 = carriedOut x.2 ∧
      (d.disposition = .replayed ↔ ∃ b ∈ earlier, b.SameCall a) ∧
      (d.disposition = .replayed → ∃ before first after, x.2 = before ++ first :: after ∧
        (∀ b ∈ before, ¬ b.1.SameCall a) ∧ first.1.SameCall a ∧ first.2.disposition = .executed ∧
        d.reply = first.2.reply) ∧
      (d.disposition = .executed ↔ a.call? ≠ none ∧ ∀ b ∈ earlier, ¬ b.SameCall a) ∧
      ((∀ b ∈ earlier, b.SameCall a → b.SameRequest a) →
        (d.disposition = .replayed ↔ ∃ b ∈ x.2, b.1.SameRequest a ∧ b.2.disposition = .executed) ∧
        (d.disposition = .executed ↔ a.call? ≠ none ∧ ∀ b ∈ earlier, ¬ b.SameRequest a)) := by
  intro x d
  have hx : x.1.Recalls x.2 := (recalls_start handler).run h sink earlier
  have harrivals : x.2.map (·.1) = earlier := map_fst_run _ _ _ _
  have hearlier : (∃ b ∈ earlier, b.SameCall a) ↔ ∃ b ∈ x.2, b.1.SameCall a := by
    rw [← harrivals]
    simp
  obtain ⟨houtcome, -⟩ := hx.outcome h sink a
  have hreplayed : d.disposition = .replayed ↔ ∃ b ∈ earlier, b.SameCall a :=
    houtcome.replayed_iff.trans hearlier.symm
  have hfirst := houtcome.first_of_replayed hx.executed
  have hexecuted : d.disposition = .executed ↔ a.call? ≠ none ∧ ∀ b ∈ earlier, ¬ b.SameCall a := by
    have hnone := not_congr hearlier
    simp only [not_exists, not_and] at hnone
    rw [hnone]
    exact houtcome.executed_iff
  refine ⟨hx.executions, hreplayed, hfirst, hexecuted,
    fun hreuse => ⟨⟨fun hd => ?_, fun hseen => ?_⟩, ?_⟩⟩
  · obtain ⟨before, first, after, hsplit, -, hcall, hran, -⟩ := hfirst hd
    have hmem : first ∈ x.2 := by simp [hsplit]
    have hold : first.1 ∈ earlier := harrivals ▸ List.mem_map_of_mem hmem
    exact ⟨first, hmem, hreuse _ hold hcall, hran⟩
  · obtain ⟨b, hb, hsame, -⟩ := hseen
    exact hreplayed.mpr (hearlier.mpr ⟨b, hb, hsame.sameCall⟩)
  · rw [hexecuted]
    refine and_congr_right fun _ => forall₂_congr fun b hb =>
      not_congr ⟨hreuse b hb, fun hsame => hsame.sameCall⟩

/-! ## A number that is used again -/

open BookingService (sampleArrival sampleBooking sampleClient sampleIds sampleStart)

def sampleListing : Envelope := .of .read 1 "facility,ALL"

/-- A booking service after some datagrams. -/
def sampleRun (earlier : List Arrival) :
    Session (BookingService × List Execution) × List (Arrival × Dispatched) :=
  run (BookingService.handler sampleIds).logged (fun _ _ => true)
    (start (.start .atMostOnce 0 (sampleStart, []))) earlier

/-- Its answer to another. -/
def sampleAnswer (earlier : List Arrival) (a : Arrival) : Dispatched :=
  ((sampleRun earlier).1.receive (BookingService.handler sampleIds).logged (fun _ _ => true) a).2

/-- A client asks for the facilities and books, and the booking comes twice. -/
theorem suppressed_by_number_sample :
    let earlier := [sampleArrival 1 sampleListing, sampleArrival 1 (sampleBooking 2)]
    let again := sampleArrival 1 (sampleBooking 2)
    (∀ b ∈ earlier, b.SameCall again → b.SameRequest again) ∧
      (sampleAnswer earlier again).disposition = .replayed ∧
      ∃ b ∈ (sampleRun earlier).2, b.1.SameRequest again ∧ b.2.disposition = .executed := by
  intro earlier again
  have hcall : again.call? = some (sampleBooking 2) := by decide +kernel
  have hsame : again.SameRequest again := ⟨rfl, _, hcall, hcall⟩
  have hreuse : ∀ b ∈ earlier, b.SameCall again → b.SameRequest again := by
    intro b hb hb'
    rcases List.mem_cons.mp hb with rfl | hb
    · -- The first request has a number of its own.
      obtain ⟨k, hk, hagain⟩ := hb'
      have hkeys : (sampleArrival 1 sampleListing).key? ≠ again.key? := by decide +kernel
      exact absurd (hk.trans hagain.symm) hkeys
    · rw [List.mem_singleton.mp hb]
      exact hsame
  obtain ⟨-, hreplayed, -, -, hagain⟩ := suppressed_by_number (BookingService.handler sampleIds)
    (fun _ _ => true) sampleStart earlier again
  have hd := hreplayed.mpr ⟨again, by simp [earlier, again], hsame.sameCall⟩
  rw [sampleAnswer, sampleRun]
  exact ⟨hreuse, hd, (hagain hreuse).1.mp hd⟩

/-- A client starts again and counts from one again. Its booking comes under the number of its first
request, so it is answered with the list of the facilities, and nothing is booked. -/
theorem other_request_suppressed :
    let booking := sampleBooking 1
    let earlier := [sampleArrival 1 sampleListing]
    let answer := sampleAnswer earlier (sampleArrival 1 booking)
    (sampleArrival 1 booking).call? = some booking ∧ booking ≠ sampleListing ∧
    answer.disposition = .replayed ∧
      answer.reply = sampleListing.reply "status:SUCCESS\nfacilityNames:Gym," ∧
      carriedOut ((sampleRun earlier).2 ++ [(sampleArrival 1 booking, answer)]) =
        [⟨sampleClient 1, sampleListing⟩] := by
  intro booking earlier answer
  refine ⟨?_, ?_, ?_, ?_, ?_⟩
  all_goals decide +kernel

end Session

end DatagramRpc
