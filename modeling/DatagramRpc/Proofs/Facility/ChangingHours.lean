import DatagramRpc.Proofs.Facility.AllOrNothing
import DatagramRpc.Proofs.Facility.Availability

/-!
# Hours that change

Opening hours can be set at any time, also where bookings have been made, and then some bookings may
lie outside of them. What is listed as free still begins within the hours and conflicts with no
booking, but it may end after closing: the gap before a booking that begins after closing is listed
up to this booking. So all that is listed can be booked exactly if each such booking follows another
one directly.

This holds whatever was done to a facility, in whatever order.
-/

namespace DatagramRpc

namespace Facility

variable {f g : Facility} {day : Weekday} {cursor closes : ClockTime} {booked : List Slot}
  {s free : Slot} {id fresh previous owner : String} {slot : Slot}

/-! ## What can be done to a facility -/

/-- Something that is done to a facility. Slots hold at least one minute. -/
inductive Change where
  | hours (day : Weekday) (opens closes : ClockTime)
  | book (fresh owner : String) (slot : Slot)
      (proper : Slot.of slot.day slot.start slot.finish = .ok slot)
  | cancel (id owner : String)
  | reschedule (fresh previous owner : String) (slot : Slot)
      (proper : Slot.of slot.day slot.start slot.finish = .ok slot)
  | rate (value : Float)

/-- The facility after a change. What is refused changes nothing, and a move that fails leaves what
it has come to. -/
def change (f : Facility) : Change → Facility
  | .hours day opens closes => (f.setHours day opens closes).toOption.getD f
  | .book fresh owner slot _ => (f.book fresh owner slot).toOption.getD f
  | .cancel id owner => ((f.cancel id owner).toOption.map (·.1)).getD f
  | .reschedule fresh previous owner slot _ => (f.rescheduleInPlace fresh previous owner slot).2
  | .rate value => (f.rate value).toOption.getD f

/-- A new facility after some changes, one after another. -/
def changed (name : String) (changes : List Change) : Facility := changes.foldl change (named name)

/-! ## What every change keeps -/

/-- Bookings are in order, and every day that has hours opens before it closes. -/
structure Orderly (f : Facility) : Prop where
  days : ∀ day, f.OrderlyOn day
  hours : ∀ day hours, f.hours.get day = some hours → hours.opens < hours.closes

private theorem orderly_named (name : String) : (named name).Orderly where
  days day := by constructor <;> simp [named]
  hours day hours h := by simp [named] at h

private theorem Orderly.thinned (hf : f.Orderly) (h : f.Thinned g) : g.Orderly where
  days day := (hf.days day).thinned h
  hours := h.hours ▸ hf.hours

private theorem Orderly.book (hf : f.Orderly)
    (hproper : Slot.of slot.day slot.start slot.finish = .ok slot)
    (h : f.book fresh owner slot = .ok g) : g.Orderly := by
  obtain ⟨hfree, rfl⟩ := book_ok.mp h
  exact ⟨fun day => (hf.days day).withBooking hfree (Slot.of_ok hproper).2, hf.hours⟩

private theorem Orderly.cancel {b : Booking} (hf : f.Orderly) (h : f.cancel id owner = .ok (g, b)) :
    g.Orderly :=
  hf.thinned (cancel_removes h).1.thinned

private theorem Orderly.setHours {opens closes : ClockTime} (hf : f.Orderly)
    (h : f.setHours day opens closes = .ok g) : g.Orderly := by
  unfold Facility.setHours at h
  split at h
  · next hlt =>
    cases h
    refine ⟨fun d => ⟨(hf.days d).onDay, (hf.days d).proper, (hf.days d).apart⟩,
      fun d hours hd => ?_⟩
    by_cases he : day = d
    · subst he
      rw [Week.get_set_self] at hd
      cases hd
      exact hlt
    · rw [Week.get_set_of_ne he] at hd
      exact hf.hours d hours hd
  · cases h

/-- A move that fails half way has taken a booking out, and one that succeeds has added another. -/
theorem Orderly.rescheduleInPlace (hf : f.Orderly)
    (hproper : Slot.of slot.day slot.start slot.finish = .ok slot) :
    (f.rescheduleInPlace fresh previous owner slot).2.Orderly := by
  unfold Facility.rescheduleInPlace
  split
  · exact hf
  split
  · exact hf
  split
  · exact hf
  · next kept b hcancel =>
    split
    · exact hf.cancel hcancel
    · next g hbook => exact (hf.cancel hcancel).book hproper hbook

private theorem Orderly.getD {x : Except Fault Facility} (hf : f.Orderly)
    (h : ∀ g, x = .ok g → g.Orderly) : (x.toOption.getD f).Orderly := by
  cases x with
  | error fault => exact hf
  | ok g => exact h g rfl

private theorem Orderly.change (hf : f.Orderly) (c : Change) : (f.change c).Orderly := by
  cases c with
  | hours day opens closes => exact hf.getD fun g h => hf.setHours h
  | book fresh owner slot proper => exact hf.getD fun g h => hf.book proper h
  | cancel id owner =>
    simp only [Facility.change]
    cases h : f.cancel id owner with
    | error fault => exact hf
    | ok r => exact hf.cancel h
  | reschedule fresh previous owner slot proper => exact hf.rescheduleInPlace proper
  | rate value =>
    refine hf.getD fun g h => ?_
    obtain ⟨rating, rfl⟩ := rate_eq h
    exact hf.thinned ⟨rfl, rfl, fun _ => .refl _⟩

private theorem Orderly.changes (hf : f.Orderly) (changes : List Change) :
    (changes.foldl Facility.change f).Orderly := by
  induction changes generalizing f with
  | nil => exact hf
  | cons c changes ih => exact ih (hf.change c)

private theorem orderly_changed (name : String) (changes : List Change) :
    (changed name changes).Orderly :=
  (orderly_named name).changes changes

/-! ## The sweep over any bookings -/

theorem mem_gaps_cons {rest : List Slot} : free ∈ gaps day closes cursor (s :: rest) ↔
    (cursor < s.start ∧ free = ⟨day, cursor, s.start⟩) ∨
    free ∈ gaps day closes (cursor.later s.finish) rest := by
  rw [gaps]
  split
  · next h => rw [List.mem_cons, and_iff_right h]
  · next h => rw [or_iff_right fun hgap => h hgap.1]

private theorem le_later (a b : ClockTime) : a ≤ a.later b ∧ b ≤ a.later b := by
  unfold ClockTime.later
  split <;> constructor <;> order

/-- A gap begins at the cursor or after it, stands apart from every booking, and ends at closing or
where a booking begins. -/
theorem gap_of_apart (hapart : booked.Pairwise fun a b => a.finish ≤ b.start)
    (hproper : ∀ b ∈ booked, b.start < b.finish) (hfree : free ∈ gaps day closes cursor booked) :
    free.day = day ∧ cursor ≤ free.start ∧ free.start < free.finish ∧
      (∀ b ∈ booked, b.finish ≤ free.start ∨ free.finish ≤ b.start) ∧
      (free.finish = closes ∨ ∃ b ∈ booked, b.start = free.finish) := by
  induction booked generalizing cursor with
  | nil =>
    obtain ⟨hlt, rfl⟩ := mem_gap.mp hfree
    exact ⟨rfl, le_rfl, hlt, fun b hb => (nomatch hb), .inl rfl⟩
  | cons s rest ih =>
    obtain ⟨hlater, hrest⟩ := List.pairwise_cons.mp hapart
    obtain ⟨hs, hproper⟩ := List.forall_mem_cons.mp hproper
    rcases mem_gaps_cons.mp hfree with ⟨hlt, rfl⟩ | hfree
    · refine ⟨rfl, le_rfl, hlt, List.forall_mem_cons.mpr ⟨.inr le_rfl, fun b hb => .inr ?_⟩,
        .inr ⟨s, List.mem_cons_self, rfl⟩⟩
      exact hs.le.trans (hlater b hb)
    · obtain ⟨hday, hstart, hlt, hclear, hend⟩ := ih hrest hproper hfree
      obtain ⟨hcursor, hfinish⟩ := le_later cursor s.finish
      refine ⟨hday, hcursor.trans hstart, hlt,
        List.forall_mem_cons.mpr ⟨.inl (hfinish.trans hstart), hclear⟩, ?_⟩
      exact hend.imp_right fun ⟨b, hb, he⟩ => ⟨b, List.mem_cons_of_mem _ hb, he⟩

/-- Before a booking that does not follow another one directly there is a gap. -/
theorem exists_gap_before (day : Weekday) (closes : ClockTime)
    (hapart : booked.Pairwise fun a b => a.finish ≤ b.start) (hs : s ∈ booked)
    (hcursor : cursor < s.start) (halone : ∀ b ∈ booked, b.finish ≠ s.start) :
    ∃ free ∈ gaps day closes cursor booked, free.finish = s.start := by
  induction booked generalizing cursor with
  | nil => cases hs
  | cons b rest ih =>
    obtain ⟨hlater, hrest⟩ := List.pairwise_cons.mp hapart
    obtain ⟨hb, halone⟩ := List.forall_mem_cons.mp halone
    rcases List.mem_cons.mp hs with rfl | hs
    · exact ⟨_, mem_gaps_cons.mpr (.inl ⟨hcursor, rfl⟩), rfl⟩
    · have hnext : cursor.later b.finish < s.start := by
        unfold ClockTime.later
        split
        · exact lt_of_le_of_ne (hlater s hs) hb
        · exact hcursor
      obtain ⟨free, hfree, hend⟩ := ih hrest hs hnext halone
      exact ⟨free, mem_gaps_cons.mpr (.inr hfree), hend⟩

/-! ## What is listed -/

/-- What is true of every listed slot: it is a slot of the day, begins within the hours, and
conflicts with no booking. -/
structure Listed (f : Facility) (day : Weekday) (free : Slot) : Prop where
  onDay : free.day = day
  proper : free.start < free.finish
  opened : ∃ hours, f.hours.get day = some hours ∧ hours.opens ≤ free.start
  clear : ∀ b ∈ f.bookings.get day, b.slot.conflicts free = false

/-- All that is listed for a day lies within its hours and can be booked. -/
def ListsBookable (f : Facility) (day : Weekday) : Prop :=
  ∀ free ∈ f.freeSlots day,
    (∃ hours, f.hours.get day = some hours ∧ free.within hours.opens hours.closes = true) ∧
      f.isBookable free none = true

/-- Every booking of a day that begins after closing follows another one directly. -/
def LateFollows (f : Facility) (day : Weekday) : Prop :=
  ∀ hours, f.hours.get day = some hours →
    ∀ late ∈ f.bookings.get day, hours.closes < late.slot.start →
    ∃ b ∈ f.bookings.get day, b.slot.finish = late.slot.start

private theorem Orderly.listed (hf : f.Orderly) {hours : OpeningHours}
    (hh : f.hours.get day = some hours) (hfree : free ∈ f.freeSlots day) :
    f.Listed day free ∧
    (free.finish = hours.closes ∨ ∃ b ∈ f.bookings.get day, b.slot.start = free.finish) := by
  have hproper : ∀ s ∈ f.sorted day, s.start < s.finish := by
    intro s hs
    obtain ⟨b, hb, rfl⟩ := mem_sorted.mp hs
    exact (hf.days day).proper b hb
  rw [freeSlots_eq hh] at hfree
  obtain ⟨hday, hopens, hlt, hclear, hend⟩ :=
    gap_of_apart (sorted_apart (hf.days day)) hproper hfree
  refine ⟨⟨hday, hlt, ⟨hours, hh, hopens⟩, fun b hb => ?_⟩, hend.imp_right ?_⟩
  · exact Slot.conflicts_eq_false.mpr fun _ => hclear b.slot (mem_sorted.mpr ⟨b, hb, rfl⟩)
  · rintro ⟨s, hs, he⟩
    obtain ⟨b, hb, rfl⟩ := mem_sorted.mp hs
    exact ⟨b, hb, he⟩

/-- A listed slot can be booked if it ends by closing. -/
theorem Listed.isBookable_iff (h : f.Listed day free) {hours : OpeningHours}
    (hh : f.hours.get day = some hours) :
    f.isBookable free none = true ↔ free.finish ≤ hours.closes := by
  obtain ⟨rfl, hlt, ⟨hours', hh', hopens⟩, hclear⟩ := h
  cases hh.symm.trans hh'
  rw [Facility.isBookable_iff]
  constructor
  · rintro ⟨hours', hh', -, hcloses, -⟩
    cases hh.symm.trans hh'
    exact hcloses
  · exact fun hcloses => ⟨hours, hh, hopens, hcloses, hclear⟩

private theorem Orderly.listsBookable_iff (hf : f.Orderly) (day : Weekday) :
    f.ListsBookable day ↔ f.LateFollows day := by
  constructor
  · intro h hours hh late hlate hafter
    by_contra hnone
    have halone : ∀ s ∈ f.sorted day, s.finish ≠ late.slot.start := by
      intro s hs he
      obtain ⟨b, hb, rfl⟩ := mem_sorted.mp hs
      exact hnone ⟨b, hb, he⟩
    obtain ⟨free, hfree, hend⟩ := exists_gap_before day hours.closes (sorted_apart (hf.days day))
      (mem_sorted.mpr ⟨late, hlate, rfl⟩) ((hf.hours day hours hh).trans hafter) halone
    rw [← freeSlots_eq hh] at hfree
    have hcloses := ((hf.listed hh hfree).1.isBookable_iff hh).mp (h free hfree).2
    order
  · intro h free hfree
    obtain ⟨hours, hh⟩ := hours_of_mem_freeSlots hfree
    obtain ⟨hlisted, hend⟩ := hf.listed hh hfree
    -- If it ended after closing, a booking would begin there, and the one before it would lie in
    -- the gap.
    have hcloses : free.finish ≤ hours.closes := by
      rcases hend with he | ⟨late, hlate, he⟩
      · exact he.le
      · by_contra hafter
        obtain ⟨b, hb, hdirectly⟩ := h hours hh late hlate (he ▸ not_le.mp hafter)
        have hsame : b.slot.day = free.day := ((hf.days day).onDay b hb).trans hlisted.onDay.symm
        have hproper := (hf.days day).proper b hb
        have hlt := hlisted.proper
        rcases Slot.conflicts_eq_false.mp (hlisted.clear b hb) hsame with hbefore | hafter <;> order
    refine ⟨⟨hours, hh, ?_⟩, (hlisted.isBookable_iff hh).mpr hcloses⟩
    obtain ⟨hours', hh', hopens⟩ := hlisted.opened
    cases hh.symm.trans hh'
    exact Slot.within_iff.mpr ⟨hopens, hcloses⟩

/-- **When all that is listed can be booked**: exactly if every booking that begins after closing
follows another one directly. -/
theorem listed_bookable_iff (name : String) (changes : List Change) (day : Weekday) :
    (∀ free ∈ (changed name changes).freeSlots day, (changed name changes).Listed day free) ∧
      ((changed name changes).ListsBookable day ↔ (changed name changes).LateFollows day) := by
  have horderly := orderly_changed name changes
  refine ⟨fun free hfree => ?_, horderly.listsBookable_iff day⟩
  obtain ⟨hours, hh⟩ := hours_of_mem_freeSlots hfree
  exact (horderly.listed hh hfree).1

/-- Opening hours, a booking, and then another closing time. -/
def closingMoved (opens closes moved : ClockTime) (slot : Slot)
    (proper : Slot.of slot.day slot.start slot.finish = .ok slot) : List Change :=
  [.hours slot.day opens closes, .book "1" "10.0.0.1:7000" slot proper, .hours slot.day opens moved]

/-- Closing two hours before a booking begins: what is listed then ends where the booking begins. -/
theorem listed_after_closing :
    let f := changed "Hall" (closingMoved ⟨8, 0⟩ ⟨17, 0⟩ ⟨12, 0⟩ ⟨.monday, ⟨14, 0⟩, ⟨15, 0⟩⟩ rfl)
    f.hours.get .monday = some ⟨⟨8, 0⟩, ⟨12, 0⟩⟩ ∧
    f.freeSlots .monday = [⟨.monday, ⟨8, 0⟩, ⟨14, 0⟩⟩] ∧
      ¬ f.ListsBookable .monday := by
  intro f
  have hlisted : f.freeSlots .monday = [⟨.monday, ⟨8, 0⟩, ⟨14, 0⟩⟩] := by decide +kernel
  have hrefused : f.isBookable ⟨.monday, ⟨8, 0⟩, ⟨14, 0⟩⟩ none = false := by decide +kernel
  refine ⟨by decide +kernel, hlisted, fun h => ?_⟩
  have hfree := (h ⟨.monday, ⟨8, 0⟩, ⟨14, 0⟩⟩ (hlisted ▸ List.mem_singleton_self _)).2
  rw [hrefused] at hfree
  cases hfree

end Facility

end DatagramRpc
