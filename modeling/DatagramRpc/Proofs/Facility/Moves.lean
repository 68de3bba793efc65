import DatagramRpc.Proofs.Facility.AllOrNothing

/-!
# Moving a booking

A booking can be moved exactly if it is there and its owner asks, and if the new slot lies within
the hours of its day and apart from all other bookings. Then it is taken out, the new one comes last
on its day, and all others stay in their order. In every other case the facility stays as it was:
once the old booking has been taken out, the new one is always accepted.
-/

namespace DatagramRpc

private theorem Week.exists_of_mem_flatten {α : Type} {w : Week (List α)} {a : α}
    (h : a ∈ w.flatten) : ∃ day, a ∈ w.get day := by
  obtain ⟨day, -, ha⟩ := List.mem_flatMap.mp h
  exact ⟨day, ha⟩

namespace Facility

variable {f g kept : Facility} {b : Booking} {slot : Slot} {id fresh previous owner : String}

/-! ## When a booking can be moved -/

/-- The facility has a booking of that owner with that id. -/
def HeldBy (f : Facility) (id owner : String) : Prop :=
  ∃ b ∈ f.bookings.flatten, b.id = id ∧ b.owner = owner

/-- The slot lies within the opening hours of its day and conflicts with no booking but the one with
that id. -/
def FreeBut (f : Facility) (slot : Slot) (id : String) : Prop :=
  (∃ hours, f.hours.get slot.day = some hours ∧ slot.within hours.opens hours.closes = true) ∧
    ∀ b ∈ f.bookings.flatten, b.id ≠ id → b.slot.conflicts slot = false

/-- Where ids are unique, the booking that is found by its id is the owner's if the owner has
one. -/
theorem held_iff (hids : (f.bookings.flatten.map (·.id)).Nodup) :
    ((f.booking? id).any fun b => b.owner == owner) = true ↔ f.HeldBy id owner := by
  rw [Option.any_eq_true]
  constructor
  · rintro ⟨b, hfind, howner⟩
    exact ⟨b, List.mem_of_find?_eq_some hfind,
      by simpa using List.find?_some hfind, by simpa using howner⟩
  · rintro ⟨b, hb, rfl, rfl⟩
    cases hfind : f.booking? b.id with
    | none => exact absurd (beq_self_eq_true b.id) (List.find?_eq_none.mp hfind b hb)
    | some b' =>
      have hid : b'.id = b.id := by simpa using List.find?_some hfind
      obtain rfl := List.inj_on_of_nodup_map hids (List.mem_of_find?_eq_some hfind) hb hid
      exact ⟨b', rfl, beq_self_eq_true b'.owner⟩

/-- Bookings of other days never stand in the way. -/
theorem isBookable_ignoring_iff_freeBut (hsafe : ∀ day, f.SafeOn day) :
    f.isBookable slot (some id) = true ↔ f.FreeBut slot id := by
  simp only [isBookable_ignoring_iff, FreeBut, Slot.within_iff]
  constructor
  · rintro ⟨hours, hhours, hopens, hcloses, hapart⟩
    refine ⟨⟨hours, hhours, hopens, hcloses⟩, fun b hb hid => ?_⟩
    obtain ⟨day, hday⟩ := Week.exists_of_mem_flatten hb
    have hown := (hsafe day).onDay b hday
    refine Slot.conflicts_eq_false.mpr fun hsame => ?_
    have hhere : b ∈ f.bookings.get slot.day := by rwa [← hsame, hown]
    exact Slot.conflicts_eq_false.mp (hapart b hhere fun he => hid (Option.some.inj he)) hsame
  · rintro ⟨⟨hours, hhours, hopens, hcloses⟩, hapart⟩
    refine ⟨hours, hhours, hopens, hcloses, fun b hb hid => ?_⟩
    exact hapart b (Week.mem_flatten hb) fun he => hid (congrArg some he)

/-- An owner's booking can be cancelled. -/
theorem exists_cancel (h : f.HeldBy id owner) : ∃ kept b, f.cancel id owner = .ok (kept, b) := by
  obtain ⟨b, hb, hid, howner⟩ := h
  obtain ⟨day, hday⟩ := Week.exists_of_mem_flatten hb
  unfold cancel
  simp only
  split
  · exact ⟨_, _, rfl⟩
  · next hnone =>
    have hfind :=
      Option.map_eq_none_iff.mp (List.findSome?_eq_none_iff.mp hnone day (Weekday.mem_all day))
    have hholds : holds id owner b = true := by simp [holds, hid, howner]
    exact absurd hholds (List.find?_eq_none.mp hfind b hday)

private theorem exists_reschedule_iff (hids : (f.bookings.flatten.map (·.id)).Nodup) :
    (∃ g, f.reschedule fresh previous owner slot = .ok g) ↔
      f.HeldBy previous owner ∧ f.isBookable slot (some previous) = true := by
  rw [← held_iff hids]
  unfold reschedule
  simp only
  split
  · next hheld =>
    refine ⟨fun ⟨g, hg⟩ => (nomatch hg), fun h => ?_⟩
    rw [h.1] at hheld
    cases hheld
  next hheld =>
  split
  · next hfree =>
    refine ⟨fun ⟨g, hg⟩ => (nomatch hg), fun h => ?_⟩
    rw [h.2] at hfree
    cases hfree
  next hfree =>
  have hheld : ((f.booking? previous).any fun b => b.owner == owner) = true := by simpa using hheld
  have hfree : f.isBookable slot (some previous) = true := by simpa using hfree
  obtain ⟨kept, b, hcancel⟩ := exists_cancel ((held_iff hids).mp hheld)
  obtain ⟨g, hbook⟩ := exists_book_iff.mpr (isBookable_of_cancel hids hfree hcancel)
  exact ⟨fun _ => ⟨hheld, hfree⟩, fun _ => ⟨g, bind_eq_ok.mpr ⟨(kept, b), hcancel, hbook⟩⟩⟩

/-! ## What becomes of the bookings -/

/-- The old booking is out, the new one comes last on its day, and nothing else has changed. -/
structure Moved (f : Facility) (fresh previous owner : String) (slot : Slot) (g : Facility) :
    Prop where
  others : g = { f with bookings := g.bookings }
  bookings : ∀ day, g.bookings.get day =
    (f.bookings.get day).filter (fun b => b.id != previous) ++ if slot.day = day then
    [⟨fresh, owner, slot⟩] else []

/-- Where ids are unique, what is left when a booking is taken out are those with another id. -/
theorem Removes.get_eq_filter (h : f.Removes b kept) (hids : (f.bookings.flatten.map (·.id)).Nodup)
    (day : Weekday) :
    kept.bookings.get day = (f.bookings.get day).filter fun a => a.id != b.id := by
  have hothers : (kept.bookings.get day).filter (fun a => a.id != b.id) = kept.bookings.get day :=
    List.filter_eq_self.mpr fun a ha => bne_iff_ne.mpr (h.id_ne hids a (Week.mem_flatten ha))
  rw [← hothers]
  cases h with
  | @intro there before after hday =>
    by_cases hd : there = day
    · subst hd
      rw [Week.get_set_self, hday, List.filter_append, List.filter_append,
        List.filter_cons_of_neg (by rw [bne_self_eq_false]; exact Bool.false_ne_true)]
    · rw [Week.get_set_of_ne hd]

private theorem moved_of_reschedule (hids : (f.bookings.flatten.map (·.id)).Nodup)
    (h : f.reschedule fresh previous owner slot = .ok g) : f.Moved fresh previous owner slot g := by
  obtain ⟨kept, b, hremoves, rfl, -, -, rfl⟩ := reschedule_removes h
  refine ⟨?_, fun day => ?_⟩
  · rw [hremoves.eq_bookings]
    rfl
  · rw [bookings_withBooking, hremoves.get_eq_filter hids]

/-- What comes of moving a booking, on the facility itself. -/
structure MovesOrStays (f : Facility) (fresh previous owner : String) (slot : Slot) : Prop where
  succeeds : (∃ g, f.rescheduleInPlace fresh previous owner slot = (.ok (), g)) ↔
    f.HeldBy previous owner ∧ f.FreeBut slot previous
  moved : ∀ g, f.rescheduleInPlace fresh previous owner slot = (.ok (), g) →
    f.reschedule fresh previous owner slot = .ok g ∧ f.Moved fresh previous owner slot g
  stays : ∀ fault g, f.rescheduleInPlace fresh previous owner slot = (.error fault, g) →
    f.reschedule fresh previous owner slot = .error fault ∧ g = f
  /-- After the old booking has been taken out, the new one is accepted. -/
  rebooked : ∀ kept b, f.isBookable slot (some previous) = true →
    f.cancel previous owner = .ok (kept, b) →
    ∃ g, kept.book fresh owner slot = .ok g

private theorem movesOrStays (hsafe : ∀ day, f.SafeOn day)
    (hids : (f.bookings.flatten.map (·.id)).Nodup) (fresh previous owner : String) (slot : Slot) :
    f.MovesOrStays fresh previous owner slot := by
  have hinPlace := rescheduleInPlace_eq hids fresh previous owner slot
  have hsame (g : Facility) : f.rescheduleInPlace fresh previous owner slot = (.ok (), g) ↔
      f.reschedule fresh previous owner slot = .ok g := by
    rw [hinPlace]
    cases f.reschedule fresh previous owner slot <;> simp
  refine ⟨?_, fun g h => ?_, fun fault g h => ?_, fun kept b hfree hcancel => ?_⟩
  · simp only [hsame]
    rw [exists_reschedule_iff hids, isBookable_ignoring_iff_freeBut hsafe]
  · have hmoved := (hsame g).mp h
    exact ⟨hmoved, moved_of_reschedule hids hmoved⟩
  · rw [hinPlace] at h
    split at h
    · cases h
    · next hfault =>
      cases h
      exact ⟨hfault, rfl⟩
  · exact exists_book_iff.mpr (isBookable_of_cancel hids hfree hcancel)

end Facility

namespace BookingService

/-- **Moving never loses a booking**, in every state of a service that started from settings and has
never been given an id twice. -/
theorem moves_or_stays (supply : IdSupply) {settings : List Config.FacilitySettings}
    {s₀ : BookingService} (hs : ofSettings settings = .ok s₀) (monitors : Registry)
    (requests : List (Call × Envelope))
    (hfresh : Set.InjOn supply {n | n < (run supply requests (s₀, monitors)).1.issued}) :
    ∀ f ∈ (run supply requests (s₀, monitors)).1.catalog.facilities, ∀ fresh previous owner slot,
      f.MovesOrStays fresh previous owner slot := by
  intro f hf fresh previous owner slot
  have hsound : Sound supply (run supply requests (s₀, monitors)).1 :=
    sound_run requests (sound_start supply (filled_ofSettings hs))
  exact Facility.movesOrStays (hsound.days f hf) (Catalog.nodup_of_mem (hsound.ids hfresh) hf) fresh
    previous owner slot

/-- The second client can move its booking to a part of its own slot, but not to where the first has
one, nor can it move that of the first. -/
theorem moves_or_stays_sample :
    let state := run sampleIds sampleRequests (sampleStart, .empty)
    let bob := "10.0.0.2:7000"
    let part : Slot := ⟨.saturday, ⟨9, 0⟩, ⟨9, 30⟩⟩
    let taken : Slot := ⟨.saturday, ⟨9, 0⟩, ⟨10, 30⟩⟩
    let free : Slot := ⟨.saturday, ⟨13, 0⟩, ⟨14, 0⟩⟩
    ∀ f ∈ state.1.catalog.facilities,
      (∃ g, f.rescheduleInPlace (sampleIds 3) (sampleIds 2) bob part = (.ok (), g) ∧
        g.bookings.get .saturday =
        [⟨sampleIds 1, "10.0.0.1:7000", ⟨.saturday, ⟨10, 0⟩, ⟨12, 0⟩⟩⟩, ⟨sampleIds 3, bob, part⟩]) ∧
      (f.rescheduleInPlace (sampleIds 3) (sampleIds 2) bob taken).2 = f ∧
      (f.rescheduleInPlace (sampleIds 3) (sampleIds 1) bob free).2 = f := by
  intro state bob part taken free f hf
  have hstart : ofSettings sampleSettings = .ok sampleStart := rfl
  obtain ⟨hissued, hruns⟩ : state.1.issued = 3 ∧ ∀ f ∈ state.1.catalog.facilities,
      (f.reschedule (sampleIds 3) (sampleIds 2) bob part).isOk = true ∧
      (f.bookings.get .saturday).filter (fun b => b.id != sampleIds 2) =
        [⟨sampleIds 1, "10.0.0.1:7000", ⟨.saturday, ⟨10, 0⟩, ⟨12, 0⟩⟩⟩] ∧
      (f.reschedule (sampleIds 3) (sampleIds 2) bob taken).isOk = false ∧
      (f.reschedule (sampleIds 3) (sampleIds 1) bob free).isOk = false := by
    decide +kernel
  have hfresh : Set.InjOn sampleIds {n | n < state.1.issued} := by
    rw [hissued]
    exact sampleIds_injOn
  have hmoves := moves_or_stays sampleIds hstart .empty sampleRequests hfresh f hf
  obtain ⟨hsucceeds, hothers, htaken, hforeign⟩ := hruns f hf
  have hfails (previous : String) (slot : Slot)
      (h : (f.reschedule (sampleIds 3) previous bob slot).isOk = false) :
      (f.rescheduleInPlace (sampleIds 3) previous bob slot).2 = f := by
    obtain ⟨-, hmoved, hstays, -⟩ := hmoves (sampleIds 3) previous bob slot
    rcases hrun : f.rescheduleInPlace (sampleIds 3) previous bob slot with ⟨fault | _, g⟩
    · exact (hstays fault g hrun).2
    · rw [(hmoved g hrun).1] at h
      cases h
  refine ⟨?_, hfails (sampleIds 2) taken htaken, hfails (sampleIds 1) free hforeign⟩
  obtain ⟨-, hmoved, hstays, -⟩ := hmoves (sampleIds 3) (sampleIds 2) bob part
  rcases hrun : f.rescheduleInPlace (sampleIds 3) (sampleIds 2) bob part with ⟨fault | _, g⟩
  · rw [(hstays fault g hrun).1] at hsucceeds
    cases hsucceeds
  · refine ⟨g, rfl, ?_⟩
    rw [(hmoved g hrun).2.bookings .saturday, hothers, if_pos rfl, List.singleton_append]

end BookingService

end DatagramRpc
