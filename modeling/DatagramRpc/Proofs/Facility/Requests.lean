import DatagramRpc.Proofs.Facility.Bookings
import DatagramRpc.Proofs.Facility.Refusals

/-!
# What requests do

A request to the booking service that fails changes nothing. One that succeeds answers a question,
rates a facility, adds a subscription, or adds, moves or removes one booking of the caller. Only in
the last three cases is a facility reported as changed.
-/

namespace DatagramRpc

/-! ## One booking fewer -/

namespace Facility

variable {f g : Facility} {b : Booking} {slot : Slot}

/-- One booking is taken out of its day, and all else stays. -/
inductive Removes (f : Facility) (b : Booking) : Facility → Prop
  | intro {day : Weekday} {before after : List Booking}
      (there : f.bookings.get day = before ++ b :: after) :
      Removes f b { f with bookings := f.bookings.set day (before ++ after) }

theorem Removes.name (h : f.Removes b g) : g.name = f.name := by
  cases h
  rfl

theorem Removes.thinned (h : f.Removes b g) : f.Thinned g := by
  cases h with
  | @intro day before after there =>
    refine thinned_set ?_
    rw [there]
    exact (List.Sublist.refl before).append (List.sublist_cons_self b after)

theorem Removes.bookings_ne (h : f.Removes b g) : g.bookings ≠ f.bookings := by
  cases h with
  | @intro day before after there =>
    intro he
    have hday : (f.bookings.set day (before ++ after)).get day = f.bookings.get day :=
      congrArg (·.get day) he
    rw [Week.get_set_self, there] at hday
    have hlength := congrArg List.length hday
    simp only [List.length_append, List.length_cons] at hlength
    omega

/-- Cancelling removes a booking of that owner with that id. -/
theorem cancel_removes {id owner : String} (h : f.cancel id owner = .ok (g, b)) :
    f.Removes b g ∧ b.id = id ∧ b.owner = owner := by
  unfold cancel at h
  simp only at h
  split at h
  · next day b' found =>
    cases h
    obtain ⟨day', -, hday⟩ := List.exists_of_findSome?_eq_some found
    obtain ⟨b', hfind, he⟩ := Option.map_eq_some_iff.mp hday
    cases he
    obtain ⟨hholds, before, after, hsplit, hbefore⟩ := List.find?_eq_some_iff_append.mp hfind
    have hkept : (f.bookings.get day).eraseP (holds id owner) = before ++ after := by
      rw [hsplit, List.eraseP_append_right _ (by simpa using hbefore),
        List.eraseP_cons_of_pos hholds]
    rw [hkept]
    have hboth : b.id = id ∧ b.owner = owner := by simpa [holds] using hholds
    exact ⟨.intro hsplit, hboth⟩
  · cases h

/-- Rescheduling removes a booking of that owner with that id, and adds one that is then
bookable. -/
theorem reschedule_removes {fresh previous owner : String}
    (h : f.reschedule fresh previous owner slot = .ok g) :
    ∃ kept b, f.Removes b kept ∧ b.id = previous ∧ b.owner = owner ∧
      kept.isBookable slot none = true ∧ g = kept.withBooking ⟨fresh, owner, slot⟩ := by
  unfold reschedule at h
  simp only at h
  split at h
  · cases h
  split at h
  · cases h
  obtain ⟨⟨kept, b⟩, hcancel, hbook⟩ := bind_eq_ok.mp h
  obtain ⟨hremoves, hid, howner⟩ := cancel_removes hcancel
  obtain ⟨hfree, hg⟩ := book_ok.mp hbook
  exact ⟨kept, b, hremoves, hid, howner, hfree, hg⟩

theorem rate_eq {value : Float} (h : f.rate value = .ok g) : ∃ rating, g = { f with rating } := by
  unfold rate at h
  split at h
  · cases h
    exact ⟨_, rfl⟩
  · cases h

end Facility

/-! ## Looking a facility up -/

namespace Catalog

variable {c : Catalog} {f : Facility} {name : String}

theorem get?_name (h : c.get? name = some f) : f.name = name := by
  simpa using List.find?_some h

private theorem require_ok (h : c.require name = .ok f) :
    f.name = name ∧ c.get? f.name = some f := by
  unfold require at h
  split at h
  · next hf =>
    cases h
    obtain rfl := get?_name hf
    exact ⟨rfl, hf⟩
  · cases h

theorem require_of_get? (h : c.get? name = some f) : c.require name = .ok f := by
  rw [require, h]

end Catalog

/-! ## Requests -/

namespace BookingService

variable {supply : IdSupply} {call : Call} {request : Envelope} {s s' : BookingService}
  {monitors : Registry} {outcome : Outcome} {owner : String}

/-- Words between commas are read back, without the blanks around them. -/
theorem words_intercalate {l : List String} (hne : l ≠ []) (hl : ∀ w ∈ l, ',' ∉ w.toList) :
    words (",".intercalate l) = l.map Text.trim := by
  have hpieces : Text.pieces ',' (",".intercalate l) = l := by
    rw [Text.pieces, String.toList_intercalate]
    induction l with
    | nil => exact absurd rfl hne
    | cons w l ih =>
      obtain ⟨hw, hothers⟩ := List.forall_mem_cons.mp hl
      cases l with
      | nil => simp [Text.piecesList_of_notMem hw]
      | cons v l =>
        have hrest := ih (List.cons_ne_nil v l) hothers
        have hcut : ",".toList.intercalate ((w :: v :: l).map String.toList) =
            w.toList ++ ',' :: ",".toList.intercalate ((v :: l).map String.toList) := by
          rw [List.map_cons, List.map_cons, List.intercalate_cons_cons, List.append_assoc]
          rfl
        rw [hcut, Text.piecesList_append_cons hw, List.map_cons, String.ofList_toList, hrest]
  rw [words, hpieces]

/-- Reading changes nothing. -/
theorem handle_of_read (hop : request.operation = .read) (state : BookingService × Registry) :
    handle supply call request state = (read state.1.catalog (words request.payload), state) := by
  simp only [handle, hop]

/-- The lines about a booking in an answer. -/
def described (heading facility : String) (b : Booking) : String :=
  heading ++ b.id ++ "\nuser:" ++ b.owner ++ "\nfacility:" ++ facility ++ slotLines b.slot

/-- The answer to a client who has booked. -/
def bookedText (facility : String) (b : Booking) : String :=
  described "status:SUCCESS\nbookingID:" facility b

/-- The answer to a client who has moved a booking. -/
def movedText (previous facility : String) (b : Booking) : String :=
  described ("status:SUCCESS\noldBookingID:" ++ previous ++ "\nnewBookingID:") facility b ++ "\n"

/-- The request rates a facility, in one of the two ways there are. -/
inductive RatesFacility (request : Envelope) : Prop
  | rating (op : request.operation = .rating)
  | update {rest : List String} (op : request.operation = .update)
      (words : words request.payload = "rating" :: rest)

/-- What a request does, in the order of the cases of the answer. -/
inductive Effect (supply : IdSupply) (call : Call) (request : Envelope) (s : BookingService)
    (monitors : Registry) : Except Fault Outcome × BookingService × Registry → Prop
  | refused (fault : Fault) (kind : fault.kind = .handler) :
      Effect supply call request s monitors (.error fault, s, monitors)
  | answered (payload : String) (op : request.operation = .read) :
      Effect supply call request s monitors (.ok (.plain payload), s, monitors)
  | rated (payload : String) {f : Facility} (rating : Rating) (asked : RatesFacility request)
      (found : s.catalog.get? f.name = some f) :
      Effect supply call request s monitors
        (.ok (.plain payload), { s with catalog := s.catalog.replace { f with rating } }, monitors)
  | subscribed (payload : String) {r : MonitorRecord} (op : request.operation = .monitor)
      (asked : subscribe s.catalog call request (words request.payload) = .ok (.plain payload, r)) :
      Effect supply call request s monitors (.ok (.plain payload), s, monitors.register r)
  | booked {f : Facility} {slot : Slot} (op : request.operation = .write)
      (found : s.catalog.get? f.name = some f) (free : f.isBookable slot none = true)
      (proper : slot.start < slot.finish) :
      Effect supply call request s monitors
        (.ok ⟨bookedText f.name ⟨supply s.issued, call.client.render, slot⟩, some f.name⟩,
          ⟨s.catalog.replace (f.withBooking ⟨supply s.issued, call.client.render, slot⟩),
            s.issued + 1⟩, monitors)
  | moved {f kept : Facility} {b : Booking} {slot : Slot} (op : request.operation = .update)
      (named : ∃ rest, words request.payload = "booking" :: b.id :: rest)
      (found : s.catalog.get? f.name = some f) (removed : f.Removes b kept)
      (held : b.owner = call.client.render) (free : kept.isBookable slot none = true)
      (proper : slot.start < slot.finish) :
      Effect supply call request s monitors
        (.ok ⟨movedText b.id f.name ⟨supply s.issued, call.client.render, slot⟩, some f.name⟩,
          ⟨s.catalog.replace (kept.withBooking ⟨supply s.issued, call.client.render, slot⟩),
            s.issued + 1⟩, monitors)
  | cancelled (payload : String) {f g : Facility} {b : Booking} (op : request.operation = .delete)
      (named : ∃ rest, words request.payload = b.id :: rest)
      (found : s.catalog.get? f.name = some f) (removed : f.Removes b g)
      (held : b.owner = call.client.render) :
      Effect supply call request s monitors
        (.ok ⟨payload, some f.name⟩, { s with catalog := s.catalog.replace g }, monitors)

/-- The slot of a request holds at least one minute. -/
theorem slotOf_ok {day sh sm eh em : String} {slot : Slot} (h : slotOf day sh sm eh em = .ok slot) :
    slot.start < slot.finish := by
  obtain ⟨day, -, h⟩ := bind_eq_ok.mp h
  obtain ⟨startHour, -, h⟩ := bind_eq_ok.mp h
  obtain ⟨startMinute, -, h⟩ := bind_eq_ok.mp h
  obtain ⟨start, -, h⟩ := bind_eq_ok.mp h
  obtain ⟨endHour, -, h⟩ := bind_eq_ok.mp h
  obtain ⟨endMinute, -, h⟩ := bind_eq_ok.mp h
  obtain ⟨finish, -, h⟩ := bind_eq_ok.mp h
  obtain ⟨rfl, hlt⟩ := Slot.of_ok h
  exact hlt

theorem commit_monitors (s : BookingService) (monitors : Registry)
    (r : Except Fault (Outcome × BookingService)) : (commit s monitors r).2.2 = monitors := by
  cases r <;> rfl

private theorem effect_commit {r : Except Fault (Outcome × BookingService)}
    (hrefused : RefusedByHandler r)
    (h : ∀ outcome s', r = .ok (outcome, s') →
      Effect supply call request s monitors (.ok outcome, s', monitors)) :
    Effect supply call request s monitors (commit s monitors r) := by
  cases r with
  | error fault => exact .refused fault (hrefused fault rfl)
  | ok r => exact h r.1 r.2 rfl

private theorem effect_book (op : request.operation = .write) {args : List String}
    (h : s.book supply call.client.render args = .ok (outcome, s')) :
    Effect supply call request s monitors (.ok outcome, s', monitors) := by
  unfold book at h
  split at h
  · obtain ⟨slot, hslot, h⟩ := bind_eq_ok.mp h
    obtain ⟨f, hf, h⟩ := bind_eq_ok.mp h
    obtain ⟨g, hg, h⟩ := bind_eq_ok.mp h
    obtain ⟨rfl, hfound⟩ := Catalog.require_ok hf
    obtain ⟨hfree, rfl⟩ := Facility.book_ok.mp hg
    cases h
    exact .booked op hfound hfree (slotOf_ok hslot)
  · cases h

private theorem effect_move (op : request.operation = .update) {previous name : String}
    {slot : Slot} (hnamed : ∃ rest, words request.payload = "booking" :: previous :: rest)
    (hslot : slot.start < slot.finish)
    (h : s.move supply call.client.render previous name slot = .ok (outcome, s')) :
    Effect supply call request s monitors (.ok outcome, s', monitors) := by
  obtain ⟨f, hf, h⟩ := bind_eq_ok.mp h
  obtain ⟨g, hg, h⟩ := bind_eq_ok.mp h
  obtain ⟨rfl, hfound⟩ := Catalog.require_ok hf
  obtain ⟨kept, b, hremoves, rfl, howner, hfree, rfl⟩ := Facility.reschedule_removes hg
  cases h
  exact .moved op hnamed hfound hremoves howner hfree hslot

private theorem effect_rate (hasked : RatesFacility request) {name value : String}
    (h : s.rate owner name value = .ok (outcome, s')) :
    Effect supply call request s monitors (.ok outcome, s', monitors) := by
  unfold rate at h
  split at h
  · cases h
  · obtain ⟨f, hf, h⟩ := bind_eq_ok.mp h
    obtain ⟨g, hg, h⟩ := bind_eq_ok.mp h
    obtain ⟨rating, rfl⟩ := Facility.rate_eq hg
    cases h
    exact .rated _ rating hasked (Catalog.require_ok hf).2

private theorem effect_update (op : request.operation = .update)
    (h : s.update supply call.client.render (words request.payload) = .ok (outcome, s')) :
    Effect supply call request s monitors (.ok outcome, s', monitors) := by
  unfold update at h
  split at h
  · next hargs =>
    obtain ⟨slot, hslot, h⟩ := bind_eq_ok.mp h
    exact effect_move op ⟨_, hargs⟩ (slotOf_ok hslot) h
  · next hargs => exact effect_rate (.update op hargs) h
  · cases h
  · cases h
  · cases h

private theorem effect_cancel (op : request.operation = .delete)
    (h : s.cancel call.client.render (words request.payload) = .ok (outcome, s')) :
    Effect supply call request s monitors (.ok outcome, s', monitors) := by
  unfold cancel at h
  split at h
  · next hargs =>
    obtain ⟨f, hf, h⟩ := bind_eq_ok.mp h
    obtain ⟨⟨g, removed⟩, hg, h⟩ := bind_eq_ok.mp h
    obtain ⟨rfl, hfound⟩ := Catalog.require_ok hf
    obtain ⟨hremoves, hid, howner⟩ := Facility.cancel_removes hg
    cases h
    exact .cancelled _ op ⟨_, hid ▸ hargs⟩ hfound hremoves howner
  · cases h

private theorem read_plain {c : Catalog} {args : List String} (h : read c args = .ok outcome) :
    ∃ payload, outcome = .plain payload := by
  unfold read at h
  split at h
  · cases h
    exact ⟨_, rfl⟩
  · obtain ⟨days, -, h⟩ := bind_eq_ok.mp h
    obtain ⟨listing, -, h⟩ := bind_eq_ok.mp h
    cases h
    exact ⟨listing, rfl⟩
  · split at h
    · cases h
    · cases h
      exact ⟨_, rfl⟩
  · obtain ⟨f, -, h⟩ := bind_eq_ok.mp h
    cases h
    exact ⟨_, rfl⟩
  · cases h

private theorem subscribe_plain {c : Catalog} {args : List String} {r : MonitorRecord}
    (h : subscribe c call request args = .ok (outcome, r)) :
    ∃ payload, outcome = .plain payload := by
  unfold subscribe at h
  split at h
  · split at h
    · cases h
    · split at h
      · cases h
      · cases h
        exact ⟨_, rfl⟩
  · cases h

/-- Every request has one of these effects, whoever sends it and whatever it says. -/
theorem handle_effect (supply : IdSupply) (call : Call) (request : Envelope) (s : BookingService)
    (monitors : Registry) :
    Effect supply call request s monitors (handle supply call request (s, monitors)) := by
  simp only [handle]
  split
  case h_1 hop =>
    cases hread : read s.catalog (words request.payload) with
    | error fault => exact .refused fault (refused_read s.catalog _ fault hread)
    | ok outcome =>
      obtain ⟨payload, rfl⟩ := read_plain hread
      exact .answered payload hop
  case h_2 hop => exact effect_commit (refused_book s _ _) fun outcome s' h => effect_book hop h
  case h_3 hop => exact effect_commit (refused_update s _ _) fun outcome s' h => effect_update hop h
  case h_4 hop =>
    split
    · exact effect_commit (refused_rate s _ _ _) fun outcome s' h => effect_rate (.rating hop) h
    · exact .refused _ rfl
  case h_5 hop => exact effect_commit (refused_cancel s _ _) fun outcome s' h => effect_cancel hop h
  case h_6 hop =>
    split
    · next outcome r hsubscribe =>
      obtain ⟨payload, rfl⟩ := subscribe_plain hsubscribe
      exact .subscribed payload hop hsubscribe
    · next fault hsubscribe =>
        exact .refused fault (refused_subscribe s.catalog call request _ fault hsubscribe)
  case h_7 => exact .refused _ rfl
  case h_8 => exact .refused _ rfl

/-- What a request adds to the subscriptions does not depend on those that are there. -/
theorem handle_monitors (supply : IdSupply) (call : Call) (request : Envelope)
    (s : BookingService) :
    ∃ records, ∀ monitors : Registry,
      (handle supply call request (s, monitors)).2.2 = ⟨monitors.records ++ records⟩ := by
  have hsame : ∃ records, ∀ monitors : Registry, monitors = ⟨monitors.records ++ records⟩ :=
    ⟨[], fun monitors => by rw [List.append_nil]⟩
  simp only [handle]
  split
  case h_4 =>
    split
    · simpa only [commit_monitors] using hsame
    · exact hsame
  case h_6 =>
    split
    · next r _ => exact ⟨[r], fun monitors => rfl⟩
    · exact hsame
  all_goals simpa only [commit_monitors] using hsame

end BookingService

end DatagramRpc
