import DatagramRpc.Proofs.Facility.Changes
import DatagramRpc.Proofs.Server.Correlation
import DatagramRpc.Proofs.Server.Notification

/-!
# Subscribers learn of every change

Whatever a server of the booking service has done before, a dispatch that changes the bookings of a
facility tells every subscriber of this facility what is now free there, and a dispatch that changes
no bookings tells nobody anything. The subscribers are all that ever subscribed and whose interval
has not passed, as if none were ever swept.

That nobody is told anything where no bookings change needs a supply that has never given an id
twice: with an old id again, a booking could be moved to its own place under its own id.
-/

namespace DatagramRpc

namespace BookingService

variable {supply : IdSupply} {now : Instant} {service : BookingService} {monitors made : Registry}
  {s : Server BookingService} {t : Readings}

/-- What a service and its subscriptions can come to, not later than now, beside the subscriptions
as they would be if none were ever swept. -/
inductive Reached (supply : IdSupply) (now : Instant) : BookingService → Registry → Registry → Prop
  | start {settings : List Config.FacilitySettings} {service : BookingService}
      (started : ofSettings settings = .ok service) : Reached supply now service .empty .empty
  | handled {service : BookingService} {monitors made : Registry}
      (before : Reached supply now service monitors made) (call : Call) (request : Envelope) :
      Reached supply now (handle supply call request (service, monitors)).2.1
        (handle supply call request (service, monitors)).2.2
          (handle supply call request (service, made)).2.2
  | swept {service : BookingService} {monitors made : Registry} {time : Instant}
      (before : Reached supply now service monitors made) (past : time.nanos ≤ now.nanos) :
      Reached supply now service (monitors.sweep time) made

private theorem Reached.sound (h : Reached supply now service monitors made) :
    Sound supply service := by
  induction h with
  | start started => exact sound_start supply (filled_ofSettings started)
  | handled _ call request ih => exact sound_step ih (handle_step supply call request _ _)
  | swept _ _ ih => exact ih

/-- Sweeping makes no difference to what is live from now on. -/
theorem Reached.live (h : Reached supply now service monitors made) {later : Instant}
    (hlater : now.nanos ≤ later.nanos) (resource : String) :
    monitors.live resource later = made.live resource later := by
  induction h with
  | start _ => rfl
  | @handled service monitors made _ call request ih =>
    obtain ⟨records, hrecords⟩ := handle_monitors supply call request service
    rw [hrecords, hrecords, Registry.live, Registry.live, List.filter_append, List.filter_append]
    exact congrArg (· ++ _) ih
  | swept _ past ih => exact (Registry.live_sweep (past.trans hlater) _ resource).trans ih

/-- A dispatch comes to nothing else, whatever else is true of the server. -/
theorem Reached.dispatch (h : Reached supply now s.handler s.monitors made)
    (hpast : t.swept.nanos ≤ now.nanos) (sink : Sink) (client : Address) (frame : List UInt8) :
    ∃ made', Reached supply now (s.dispatch (handler supply) sink t client frame).1.handler
      (s.dispatch (handler supply) sink t client frame).1.monitors made' := by
  have hturn := s.turn_dispatch (handler supply) sink t client frame
  generalize s.dispatch (handler supply) sink t client frame = after at hturn
  have hnext (request : Envelope) : ∃ made', Reached supply now
      ((handler supply).handle ⟨client, t.handled⟩ request (s.handler, s.monitors)).2.1
      ((handler supply).handle ⟨client, t.handled⟩ request (s.handler, s.monitors)).2.2 made' :=
    ⟨_, h.handled ⟨client, t.handled⟩ request⟩
  cases hturn with
  | idle handler monitors quiet =>
    rw [handler, monitors]
    exact ⟨made, h⟩
  | @silent request result _ decoded handled unchanged quiet =>
    have hrequest := hnext request
    rwa [handled] at hrequest
  | @announced request outcome resource monitors _ decoded handled mutating changed
      swept published =>
    obtain ⟨made', hrequest⟩ := hnext request
    rw [handled] at hrequest
    rw [swept]
    exact ⟨made', hrequest.swept hpast⟩

/-- A session comes to nothing else, as long as the clock has not gone back behind it. -/
theorem Reached.session {x : Session BookingService}
    (h : Reached supply now x.server.handler x.server.monitors made) (sink : Sink)
    (arrivals : List Arrival) (hpast : ∀ a ∈ arrivals, a.readings.swept.nanos ≤ now.nanos) :
    ∃ made', Reached supply now (Session.run (handler supply) sink x arrivals).1.server.handler
      (Session.run (handler supply) sink x arrivals).1.server.monitors made' := by
  induction arrivals generalizing x made with
  | nil => exact ⟨made, h⟩
  | cons a arrivals ih =>
    obtain ⟨made', hnext⟩ :=
      h.dispatch (hpast a List.mem_cons_self) (fun n => sink (x.sent.length + n))
      a.client a.frame
    exact ih (x := (x.receive (handler supply) sink a).1) hnext fun b hb =>
      hpast b (List.mem_cons_of_mem a hb)

/-- What a dispatch announces: nothing if it changes no bookings, and else what is free at the
facility. -/
inductive Announces (supply : IdSupply) (s : Server BookingService) (sink : Sink) (t : Readings) :
    Server BookingService × Dispatched → Prop
  | nothing {after : Server BookingService × Dispatched}
      (kept : ∀ name, after.1.handler.catalog.bookingsOf name = s.handler.catalog.bookingsOf name)
      (quiet : after.2.publication = .none) : Announces supply s sink t after
  | change {f g : Facility} {listing : String} {after : Server BookingService × Dispatched}
      (found : s.handler.catalog.get? f.name = some f) (name : g.name = f.name)
      (replaced : after.1.handler.catalog = s.handler.catalog.replace g)
      (other : Set.InjOn supply {n | n < after.1.handler.issued} → g.bookings ≠ f.bookings)
      (listed : availability after.1.handler.catalog f.name [] = .ok listing)
      (published : after.2.publication =
        (s.monitors.sweep t.swept).publish sink t.published f.name listing) :
      Announces supply s sink t after

private theorem exists_availability {c : Catalog} {name : String} {f : Facility}
    (hf : c.get? name = some f) (days : List Weekday) :
    ∃ listing, availability c name days = .ok listing := by
  exact ⟨_, bind_eq_ok.mpr ⟨f, Catalog.require_of_get? hf, rfl⟩⟩

private theorem announces_dispatch (hs : Sound supply s.handler) (sink : Sink) (t : Readings)
    (client : Address) (frame : List UInt8) :
    Announces supply s sink t (s.dispatch (handler supply) sink t client frame) := by
  have hturn := s.turn_dispatch (handler supply) sink t client frame
  generalize s.dispatch (handler supply) sink t client frame = after at hturn
  have hreport (request : Envelope) : Report supply s.handler s.monitors request.operation
      ((handler supply).handle ⟨client, t.handled⟩ request (s.handler, s.monitors)) :=
    (handle_effect supply ⟨client, t.handled⟩ request s.handler s.monitors).report hs
  cases hturn with
  | idle handler monitors quiet => exact .nothing (fun name => by rw [handler]) quiet
  | @silent request result _ decoded handled unchanged quiet =>
    have hrequest := hreport request
    rw [handled] at hrequest
    generalize hservice : after.1.handler = service at hrequest
    generalize after.1.monitors = monitors at hrequest
    cases hrequest with
    | unchanged kept _ => exact .nothing (fun name => by rw [hservice, kept]) quiet
    | changed mutating => cases unchanged _ rfl mutating
  | @announced request outcome resource monitors _ decoded handled mutating changed
      swept published =>
    have hrequest := hreport request
    rw [handled] at hrequest
    generalize hservice : after.1.handler = service at hrequest published
    cases hrequest with
    | unchanged _ unreported =>
      rw [unreported outcome rfl] at changed
      cases changed
    | @changed payload f g issued _ found name other =>
      cases changed
      have hfound : (s.handler.catalog.replace g).get? f.name = some g := by
        rw [Catalog.get?_replace found name, if_pos rfl]
      obtain ⟨listing, hlisting⟩ := exists_availability hfound []
      refine .change found name (by rw [hservice]) (by rw [hservice]; exact other)
        (by rw [hservice]; exact hlisting) ?_
      have hsnapshot : (handler supply).snapshot
          ⟨s.handler.catalog.replace g, issued⟩ f.name = .ok listing :=
        hlisting
      rw [published, hsnapshot, swept]

/-- **Subscribers learn of every change of bookings, and of nothing else**: one notice for each live
subscription, in their order, whichever of them cannot be sent. -/
theorem subscribers_informed (hs : Reached supply t.swept s.handler s.monitors made)
    (hclock : t.swept.nanos ≤ t.published.nanos) (sink : Sink) (client : Address)
    (frame : List UInt8) :
    let after := s.dispatch (handler supply) sink t client frame
    (∀ name, after.1.handler.catalog.bookingsOf name ≠ s.handler.catalog.bookingsOf name →
      ∃ listing, availability after.1.handler.catalog name [] = .ok listing ∧
        ((Text.encodeUtf8 listing).length ≤ Wire.greatestLength →
          after.2.publication.Informs sink listing (made.live name t.published))) ∧
      ((∀ name, after.1.handler.catalog.bookingsOf name = s.handler.catalog.bookingsOf name) →
        Set.InjOn supply {n | n < after.1.handler.issued} → after.2.publication = .none) := by
  intro after
  have hannounces : Announces supply s sink t after :=
    announces_dispatch hs.sound sink t client frame
  generalize after = after at hannounces
  cases hannounces with
  | nothing kept quiet => exact ⟨fun name hname => absurd (kept name) hname, fun _ _ => quiet⟩
  | @change f g listing _ found same replaced other listed published =>
    refine ⟨fun name hname => ?_, fun hkept hfresh => ?_⟩
    · have he : f.name = name := by
        by_contra hne
        rw [replaced, Catalog.bookingsOf_replace found same, if_neg hne] at hname
        exact hname rfl
      subst he
      refine ⟨listing, listed, fun hlength => ?_⟩
      rw [published, ← hs.live hclock, ← Registry.live_sweep hclock]
      exact Registry.informs_publish hlength ..
    · have hsame := hkept f.name
      rw [replaced, Catalog.bookingsOf_replace found same, if_pos rfl, Catalog.bookingsOf, found,
        Option.map_some] at hsame
      exact absurd (Option.some.inj hsame) (other hfresh)

/-- Two clients who subscribe to a facility: the second for one second only, and the first once
more. -/
def sampleSubscriptions : List Arrival :=
  [sampleArrival 1 (sampleSubscription 1 "60"), sampleArrival 2 (sampleSubscription 2 "1"),
    sampleArrival 1 (sampleSubscription 3 "60")]

def subscribedServer : Server BookingService :=
  (Session.run (handler sampleIds) (fun _ _ => true) (.start (.start .atLeastOnce 0 sampleStart))
    sampleSubscriptions).1.server

/-- A third client books five seconds later, and the first notice cannot be sent. -/
def sampleBooked : Server BookingService × Dispatched :=
  subscribedServer.dispatch (handler sampleIds) (fun n _ => n != 0) (.at ⟨5000000000⟩)
    (sampleClient 3) (sampleArrival 3 (sampleBooking 4)).frame

theorem subscribers_informed_sample :
    sampleBooked.1.handler.catalog.bookingsOf "Gym" ≠
      subscribedServer.handler.catalog.bookingsOf "Gym" ∧
      sampleBooked.2.publication.Informs (fun n _ => n != 0) sampleNotice
        (subscribedServer.monitors.live "Gym" ⟨5000000000⟩) ∧
      (subscribedServer.monitors.live "Gym" ⟨5000000000⟩).map (·.requestId) = [1, 3] ∧
      sampleBooked.2.publication.attempts.map (·.delivered) = [false, true] := by
  have hstart : ofSettings sampleSettings = .ok sampleStart := rfl
  have hpast : ∀ a ∈ sampleSubscriptions, a.readings.swept.nanos ≤ 5000000000 := by decide +kernel
  have hopened : Reached sampleIds ⟨5000000000⟩ sampleStart .empty .empty := .start hstart
  obtain ⟨made, hreached⟩ :=
    Reached.session (x := .start (.start .atLeastOnce 0 sampleStart)) hopened
    (fun _ _ => true) sampleSubscriptions hpast
  rw [← subscribedServer] at hreached
  have hchanged : sampleBooked.1.handler.catalog.bookingsOf "Gym" ≠
      subscribedServer.handler.catalog.bookingsOf "Gym" := by
    intro he
    have hcount := congrArg (Option.map fun w => (w.get .saturday).length) he
    exact absurd hcount (by decide +kernel)
  have hlisting : availability sampleBooked.1.handler.catalog "Gym" [] = .ok sampleNotice :=
    ok_of_toOption (by decide +kernel)
  obtain ⟨hinformed, -⟩ :=
    subscribers_informed (s := subscribedServer) (t := .at ⟨5000000000⟩) hreached
    (Int.le_refl _) (fun n _ => n != 0) (sampleClient 3) (sampleArrival 3 (sampleBooking 4)).frame
  rw [← sampleBooked] at hinformed
  obtain ⟨listing, hlisted, hinforms⟩ := hinformed "Gym" hchanged
  cases hlisting.symm.trans hlisted
  rw [hreached.live (Int.le_refl _)]
  refine ⟨hchanged, hinforms (by decide +kernel), ?_, by decide +kernel⟩
  rw [← hreached.live (Int.le_refl _)]
  decide +kernel

end BookingService

end DatagramRpc
