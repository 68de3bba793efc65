import DatagramRpc.Proofs.Facility.Changes

/-!
# Requests are all or nothing

A request that is refused leaves everything as it was, and the refusal is the handler's. One that
succeeds reports a facility if it has added, removed or moved a booking of its sender there, and
then nothing else has changed; if it reports none, no booking and no opening hours have changed. A
move is made in two steps, and the second cannot fail once the first is done: carried out in place,
it loses nothing.
-/

namespace DatagramRpc

/-! ## A move in two steps -/

namespace Facility

variable {f kept : Facility} {b : Booking} {slot : Slot} {fresh previous owner : String}

/-- The steps of a move on the facility itself, with what they leave behind also where one of them
fails. -/
def rescheduleInPlace (f : Facility) (fresh previous owner : String) (slot : Slot) :
    Except Fault Unit × Facility :=
  if !(f.booking? previous).any fun b => b.owner == owner then
    (.error (.handler (.bookingNotHeld owner)), f)
  else if !f.isBookable slot (some previous) then (.error (.handler .facilityTaken), f)
  else
    match f.cancel previous owner with
    | .error fault => (.error fault, f)
    | .ok (kept, _) =>
      match kept.book fresh owner slot with
      | .error fault => (.error fault, kept)
      | .ok g => (.ok (), g)

theorem Removes.eq_bookings (h : f.Removes b kept) :
    kept = { f with bookings := kept.bookings } := by
  cases h
  rfl

/-- Where no two bookings have the same id, none is left with the id of one that was taken out. -/
theorem Removes.id_ne (h : f.Removes b kept) (hids : (f.bookings.flatten.map (·.id)).Nodup) :
    ∀ a ∈ kept.bookings.flatten, a.id ≠ b.id := by
  intro a ha he
  have hnodup := (h.flatten_perm.map (·.id)).nodup_iff.mp hids
  rw [List.map_cons, List.nodup_cons] at hnodup
  exact hnodup.1 (List.mem_map.mpr ⟨a, ha, he⟩)

/-- What is bookable but for a booking is bookable once this booking has been cancelled. -/
theorem isBookable_of_cancel (hids : (f.bookings.flatten.map (·.id)).Nodup)
    (hfree : f.isBookable slot (some previous) = true)
    (hcancel : f.cancel previous owner = .ok (kept, b)) : kept.isBookable slot none = true := by
  obtain ⟨hremoves, hid, -⟩ := cancel_removes hcancel
  have hthinned := hremoves.thinned
  obtain ⟨hours, hhours, hopens, hcloses, hapart⟩ := isBookable_ignoring_iff.mp hfree
  refine isBookable_iff.mpr ⟨hours, ?_, hopens, hcloses, fun a ha => ?_⟩
  · rw [hthinned.hours, hhours]
  · have hother : a.id ≠ b.id := hremoves.id_ne hids a (Week.mem_flatten ha)
    refine hapart a ((hthinned.bookings slot.day).subset ha) fun he => ?_
    exact hother ((Option.some.inj he).trans hid.symm)

/-- **A move loses nothing.** Carried out in place it comes to the same as if nothing were kept of
it when it fails. -/
theorem rescheduleInPlace_eq (hids : (f.bookings.flatten.map (·.id)).Nodup)
    (fresh previous owner : String) (slot : Slot) :
    f.rescheduleInPlace fresh previous owner slot =
      match f.reschedule fresh previous owner slot with
      | .ok g => (.ok (), g)
      | .error fault => (.error fault, f) := by
  unfold rescheduleInPlace reschedule
  simp only
  split
  · rfl
  split
  · rfl
  next hfree =>
    have hfree : f.isBookable slot (some previous) = true := by simpa using hfree
    cases hcancel : f.cancel previous owner with
    | error fault => rfl
    | ok r =>
      obtain ⟨kept, b⟩ := r
      have hbook : kept.book fresh owner slot = .ok (kept.withBooking ⟨fresh, owner, slot⟩) :=
        book_ok.mpr ⟨isBookable_of_cancel hids hfree hcancel, rfl⟩
      simp only [bind, Except.bind, hbook]

end Facility

/-! ## One facility of a catalog -/

namespace Catalog

variable {c : Catalog} {f g : Facility}

/-- The second catalog has one facility in the place of another with its name, and all others as
they are. -/
def Exchanged (c c' : Catalog) (f g : Facility) : Prop :=
  g.name = f.name ∧ ∃ before after, c.facilities = before ++ f :: after ∧
  c'.facilities = before ++ g :: after

private theorem exchanged_replace (hn : c.names.Nodup) (hf : c.get? f.name = some f)
    (hname : g.name = f.name) : c.Exchanged (c.replace g) f g := by
  obtain ⟨before, after, hc, hreplace⟩ := exists_replace hn hf
  exact ⟨hname, before, after, hc, hreplace g hname⟩

/-- No booking of a facility has the id of another if none of the catalog has. -/
theorem nodup_of_mem (hids : (c.bookings.map (·.id)).Nodup) (hf : f ∈ c.facilities) :
    (f.bookings.flatten.map (·.id)).Nodup := by
  rw [bookings, List.map_flatMap] at hids
  exact (List.nodup_flatMap.mp hids).1 f hf

end Catalog

/-! ## What a request may do -/

namespace BookingService

variable {supply : IdSupply} {call : Call} {request : Envelope} {s : BookingService}
  {monitors : Registry}

/-- What a request that reports nothing may have done: one rating changed, or one more
subscription. -/
def Unreported (before after : BookingService × Registry) : Prop :=
  after = before ∨
    (after.2 = before.2 ∧ ∃ f rating,
      before.1.catalog.Exchanged after.1.catalog f { f with rating }) ∨
    (after.1 = before.1 ∧ ∃ r, after.2 = before.2.register r)

/-- How a request of a client changes the bookings of a facility: one of the client's is there more,
or less, or there for another. -/
inductive Rebooks (owner : String) (f : Facility) : Operation → Facility → Prop
  | added {b : Booking} (mine : b.owner = owner) : Rebooks owner f .write (f.withBooking b)
  | removed {b : Booking} {g : Facility} (mine : b.owner = owner) (removes : f.Removes b g) :
      Rebooks owner f .delete g
  | moved {b new : Booking} {kept : Facility} (mine : b.owner = owner) (removes : f.Removes b kept)
      (also : new.owner = owner) : Rebooks owner f .update (kept.withBooking new)

private theorem Rebooks.eq_bookings {owner : String} {op : Operation} {f g : Facility}
    (h : Rebooks owner f op g) : g = { f with bookings := g.bookings } := by
  cases h with
  | added mine => rfl
  | removed mine removes => exact removes.eq_bookings
  | @moved b new kept mine removes also =>
    rw [removes.eq_bookings]
    rfl

/-- What comes of a request of a client, in view of the answer. -/
structure AllOrNothing (owner : String) (op : Operation) (before : BookingService × Registry)
    (after : Except Fault Outcome × BookingService × Registry) : Prop where
  /-- A refusal is the handler's, and leaves everything as it was. -/
  refused : ∀ fault, after.1 = .error fault → fault.kind = .handler ∧ after.2 = before
  unreported : ∀ payload, after.1 = .ok ⟨payload, none⟩ → Unreported before after.2
  /-- The facility that is reported has its name, hours and rating still, and the others are as they
  were. -/
  reported : ∀ payload name, after.1 = .ok ⟨payload, some name⟩ →
    after.2.2 = before.2 ∧ ∃ f g, f.name = name ∧ before.1.catalog.Exchanged after.2.1.catalog f g ∧
      g = { f with bookings := g.bookings } ∧ Rebooks owner f op g

namespace AllOrNothing

variable {owner payload : String} {op : Operation} {before after : BookingService × Registry}
  {f g : Facility}

private theorem refusal {fault : Fault} (kind : fault.kind = .handler) :
    AllOrNothing owner op before (.error fault, before) where
  refused other he := by
    cases he
    exact ⟨kind, rfl⟩
  unreported payload he := by cases he
  reported payload name he := by cases he

private theorem silent (h : Unreported before after) :
    AllOrNothing owner op before (.ok (.plain payload), after) where
  refused fault he := by cases he
  unreported payload he := h
  reported payload name he := by cases he

private theorem report (hsame : after.2 = before.2)
    (hexchanged : before.1.catalog.Exchanged after.1.catalog f g) (h : Rebooks owner f op g) :
    AllOrNothing owner op before (.ok ⟨payload, some f.name⟩, after) where
  refused fault he := by cases he
  unreported payload he := by cases he
  reported payload name he := by
    cases he
    exact ⟨hsame, f, g, rfl, hexchanged, h.eq_bookings, h⟩

end AllOrNothing

private theorem Effect.allOrNothing (hn : s.catalog.names.Nodup)
    {after : Except Fault Outcome × BookingService × Registry}
    (h : Effect supply call request s monitors after) :
    AllOrNothing call.client.render request.operation (s, monitors) after := by
  cases h with
  | refused fault kind => exact .refusal kind
  | answered payload op => exact .silent (.inl rfl)
  | @rated payload f rating asked found =>
    exact .silent (.inr (.inl ⟨rfl, f, rating, Catalog.exchanged_replace hn found rfl⟩))
  | @subscribed payload r op asked => exact .silent (.inr (.inr ⟨rfl, r, rfl⟩))
  | booked op found free proper =>
    rw [op]
    exact .report rfl (Catalog.exchanged_replace hn found rfl) (.added rfl)
  | moved op named found removed held free proper =>
    rw [op]
    exact .report rfl (Catalog.exchanged_replace hn found removed.name) (.moved held removed rfl)
  | cancelled payload op named found removed held =>
    rw [op]
    exact .report rfl (Catalog.exchanged_replace hn found removed.name) (.removed held removed)

/-- **Requests are all or nothing**, in every state of a service that started from settings. Nor is
a move ever left half done, as long as the supply has never given an id twice. -/
theorem requests_all_or_nothing (supply : IdSupply) {settings : List Config.FacilitySettings}
    {s₀ : BookingService} (hs : ofSettings settings = .ok s₀) (start : Registry)
    (requests : List (Call × Envelope)) :
    let s := (run supply requests (s₀, start)).1
    (∀ (call : Call) (request : Envelope) (monitors : Registry),
        AllOrNothing call.client.render request.operation (s, monitors)
          (handle supply call request (s, monitors))) ∧
      (Set.InjOn supply {n | n < s.issued} →
        ∀ f ∈ s.catalog.facilities, ∀ fresh previous owner slot,
          f.rescheduleInPlace fresh previous owner slot =
            match f.reschedule fresh previous owner slot with
            | .ok g => (.ok (), g)
            | .error fault => (.error fault, f)) := by
  intro s
  have hsound : Sound supply s := sound_run requests (sound_start supply (filled_ofSettings hs))
  refine ⟨fun call request monitors => ?_, fun hfresh f hf fresh previous owner slot => ?_⟩
  · exact (handle_effect supply call request s monitors).allOrNothing hsound.names
  · exact Facility.rescheduleInPlace_eq (Catalog.nodup_of_mem (hsound.ids hfresh) hf) fresh
      previous owner slot

/-- The second client cannot move a booking to where the first has one, and everything stays, also
in place. The client can move it elsewhere, and then has another booking instead. -/
theorem requests_all_or_nothing_sample :
    let state := run sampleIds sampleRequests (sampleStart, .empty)
    let bob := sampleCall 2
    let taken : Envelope := .of .update 5 ("booking," ++ sampleIds 2 ++ ",Gym,saturday,9,0,11,0")
    let free : Envelope := .of .update 6 ("booking," ++ sampleIds 2 ++ ",Gym,saturday,12,0,13,0")
    (handle sampleIds bob taken state).2 = state ∧
      (∃ f g, f.name = "Gym" ∧
        state.1.catalog.Exchanged (handle sampleIds bob free state).2.1.catalog f g ∧
        Rebooks bob.client.render f .update g) ∧
      ∀ f ∈ state.1.catalog.facilities,
        (f.rescheduleInPlace (sampleIds 3) (sampleIds 2) "10.0.0.2:7000"
          ⟨.saturday, ⟨9, 0⟩, ⟨11, 0⟩⟩).2 = f := by
  intro state bob taken free
  have hstart : ofSettings sampleSettings = .ok sampleStart := rfl
  have hop : free.operation = .update := by decide
  obtain ⟨hissued, htaken, hfree, hstays⟩ : state.1.issued = 3 ∧
      (handle sampleIds bob taken state).1.toOption = none ∧
      (handle sampleIds bob free state).1.toOption.map (·.changed) = some (some "Gym") ∧
      ∀ f ∈ state.1.catalog.facilities,
        (f.reschedule (sampleIds 3) (sampleIds 2) "10.0.0.2:7000"
          ⟨.saturday, ⟨9, 0⟩, ⟨11, 0⟩⟩).isOk = false := by
    decide +kernel
  obtain ⟨hall, hmoves⟩ := requests_all_or_nothing sampleIds hstart .empty sampleRequests
  have hhere (request : Envelope) : AllOrNothing bob.client.render request.operation state
      (handle sampleIds bob request state) := by
    have hstate := hall bob request (run sampleIds sampleRequests (sampleStart, .empty)).2
    rwa [Prod.mk.eta] at hstate
  refine ⟨?_, ?_, fun f hf => ?_⟩
  · cases he : (handle sampleIds bob taken state).1 with
    | error fault => exact ((hhere taken).refused fault he).2
    | ok outcome =>
      rw [he] at htaken
      cases htaken
  · cases he : (handle sampleIds bob free state).1 with
    | error fault =>
      rw [he] at hfree
      cases hfree
    | ok outcome =>
      obtain ⟨payload, changed⟩ := outcome
      rw [he] at hfree
      cases hfree
      obtain ⟨-, f, g, hf, hexchanged, -, hrebooks⟩ := (hhere free).reported payload "Gym" he
      rw [hop] at hrebooks
      exact ⟨f, g, hf, hexchanged, hrebooks⟩
  · have hfresh : Set.InjOn sampleIds {n | n < state.1.issued} := by
      rw [hissued]
      exact sampleIds_injOn
    have hfails := hstays f hf
    rw [hmoves hfresh f hf]
    split
    · next he =>
      rw [he] at hfails
      cases hfails
    · rfl

end BookingService

end DatagramRpc
