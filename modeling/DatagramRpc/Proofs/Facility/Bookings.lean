import DatagramRpc.Facility.Catalog
import DatagramRpc.Proofs.Failure

/-!
# The bookings of a facility

Whatever is done to a facility, some of its bookings are left out and at most one new booking comes
after the others, one that is bookable beside those which were kept. So the bookings of a day remain
within its hours and apart from each other.
-/

namespace DatagramRpc

namespace Slot

/-- Slots of a day stand apart when one ends before or when the other starts. -/
theorem conflicts_eq_false {a b : Slot} :
    a.conflicts b = false ↔ a.day = b.day → a.finish ≤ b.start ∨ b.finish ≤ a.start := by
  simp only [conflicts, Bool.and_eq_false_imp, beq_iff_eq, Bool.not_eq_false', Bool.or_eq_true,
    decide_eq_true_eq]

theorem conflicts_comm (a b : Slot) : a.conflicts b = b.conflicts a := by
  simp only [conflicts, Bool.or_comm, BEq.comm]

theorem within_iff {a : Slot} {opens closes : ClockTime} :
    a.within opens closes = true ↔ opens ≤ a.start ∧ a.finish ≤ closes := by
  simp only [within, Bool.and_eq_true, decide_eq_true_eq]

theorem of_ok {day : Weekday} {start finish : ClockTime} {slot : Slot}
    (h : of day start finish = .ok slot) : slot = ⟨day, start, finish⟩ ∧ start < finish := by
  unfold of at h
  split at h
  · next hlt =>
    cases h
    exact ⟨rfl, hlt⟩
  · cases h

end Slot

namespace Facility

variable {f g : Facility} {day : Weekday} {slot : Slot} {b : Booking}

/-- What the bookings of a day have to be: slots of that day within its hours, none in conflict with
another. -/
structure SafeOn (f : Facility) (day : Weekday) : Prop where
  onDay : ∀ b ∈ f.bookings.get day, b.slot.day = day
  inHours : ∀ b ∈ f.bookings.get day, ∃ hours, f.hours.get day = some hours ∧
    hours.opens ≤ b.slot.start ∧ b.slot.start < b.slot.finish ∧ b.slot.finish ≤ hours.closes
  apart : (f.bookings.get day).Pairwise fun a b => a.slot.conflicts b.slot = false

/-- What the bookings of a day are whatever its hours: slots of that day that hold a minute, none in
conflict with another. -/
structure OrderlyOn (f : Facility) (day : Weekday) : Prop where
  onDay : ∀ b ∈ f.bookings.get day, b.slot.day = day
  proper : ∀ b ∈ f.bookings.get day, b.slot.start < b.slot.finish
  apart : (f.bookings.get day).Pairwise fun a b => a.slot.conflicts b.slot = false

theorem SafeOn.orderly (hs : f.SafeOn day) : f.OrderlyOn day where
  onDay := hs.onDay
  proper b hb := by
    obtain ⟨_, -, -, hlt, -⟩ := hs.inHours b hb
    exact hlt
  apart := hs.apart

/-- A slot can be booked within the hours of its day and apart from the bookings that are not to be
ignored. -/
theorem isBookable_ignoring_iff {ignoring : Option String} : f.isBookable slot ignoring = true ↔
    ∃ hours, f.hours.get slot.day = some hours ∧ hours.opens ≤ slot.start ∧
      slot.finish ≤ hours.closes ∧
      ∀ b ∈ f.bookings.get slot.day, some b.id ≠ ignoring → b.slot.conflicts slot = false := by
  unfold isBookable
  cases f.hours.get slot.day with
  | none => simp
  | some hours => simp [Slot.within_iff, and_assoc, Classical.or_iff_not_imp_left]

theorem isBookable_iff : f.isBookable slot none = true ↔
    ∃ hours, f.hours.get slot.day = some hours ∧ hours.opens ≤ slot.start ∧
      slot.finish ≤ hours.closes ∧
      ∀ b ∈ f.bookings.get slot.day, b.slot.conflicts slot = false := by
  simp [isBookable_ignoring_iff]

/-! ## Fewer bookings -/

/-- The same facility with some of its bookings left out. -/
structure Thinned (f g : Facility) : Prop where
  name : g.name = f.name
  hours : g.hours = f.hours
  bookings : ∀ day, (g.bookings.get day).Sublist (f.bookings.get day)

theorem Thinned.refl (f : Facility) : f.Thinned f := ⟨rfl, rfl, fun _ => .refl _⟩

/-- Fewer bookings on one day. -/
theorem thinned_set {kept : List Booking} (h : kept.Sublist (f.bookings.get day)) :
    f.Thinned { f with bookings := f.bookings.set day kept } := by
  refine ⟨rfl, rfl, fun d => ?_⟩
  by_cases hd : day = d
  · subst hd
    rw [Week.get_set_self]
    exact h
  · simp only [Week.get_set_of_ne hd, List.Sublist.refl]

theorem OrderlyOn.thinned (hs : f.OrderlyOn day) (h : f.Thinned g) : g.OrderlyOn day where
  onDay b hb := hs.onDay b ((h.bookings day).subset hb)
  proper b hb := hs.proper b ((h.bookings day).subset hb)
  apart := hs.apart.sublist (h.bookings day)

theorem SafeOn.thinned (hs : f.SafeOn day) (h : f.Thinned g) : g.SafeOn day where
  onDay b hb := hs.onDay b ((h.bookings day).subset hb)
  inHours b hb := by
    rw [h.hours]
    exact hs.inHours b ((h.bookings day).subset hb)
  apart := hs.apart.sublist (h.bookings day)

/-! ## One more booking -/

/-- A booking after the others of its day. -/
def withBooking (f : Facility) (b : Booking) : Facility :=
  { f with bookings := f.bookings.set b.slot.day (f.bookings.get b.slot.day ++ [b]) }

theorem bookings_withBooking (f : Facility) (b : Booking) (day : Weekday) :
    (f.withBooking b).bookings.get day =
      f.bookings.get day ++ if b.slot.day = day then [b] else [] := by
  unfold withBooking
  by_cases hd : b.slot.day = day
  · subst hd
    rw [Week.get_set_self, if_pos rfl]
  · rw [Week.get_set_of_ne hd, if_neg hd, List.append_nil]

private theorem mem_get_withBooking {a : Booking} :
    a ∈ (f.withBooking b).bookings.get day ↔ a ∈ f.bookings.get day ∨ b.slot.day = day ∧ a = b := by
  rw [bookings_withBooking, List.mem_append]
  refine or_congr_right ?_
  split
  · next hd => exact List.mem_singleton.trans (and_iff_right hd).symm
  · next hd => exact ⟨fun ha => (nomatch ha), fun ha => absurd ha.1 hd⟩

/-- A bookable slot fits in between the bookings of its day. -/
theorem OrderlyOn.withBooking (hs : f.OrderlyOn day) (hfree : f.isBookable b.slot none = true)
    (hlt : b.slot.start < b.slot.finish) : (f.withBooking b).OrderlyOn day := by
  obtain ⟨hours, -, -, -, hapart⟩ := isBookable_iff.mp hfree
  refine ⟨fun a ha => ?_, fun a ha => ?_, ?_⟩
  · rcases mem_get_withBooking.mp ha with ha | ⟨hd, rfl⟩
    · exact hs.onDay a ha
    · exact hd
  · rcases mem_get_withBooking.mp ha with ha | ⟨-, rfl⟩
    · exact hs.proper a ha
    · exact hlt
  · rw [bookings_withBooking]
    split
    · next hd =>
      refine List.pairwise_append.mpr ⟨hs.apart, List.pairwise_singleton .., fun a ha c hc => ?_⟩
      obtain rfl := List.mem_singleton.mp hc
      exact hapart a (hd ▸ ha)
    · rw [List.append_nil]
      exact hs.apart

/-- A bookable slot keeps the day safe. -/
theorem SafeOn.withBooking (hs : f.SafeOn day) (hfree : f.isBookable b.slot none = true)
    (hlt : b.slot.start < b.slot.finish) : (f.withBooking b).SafeOn day := by
  have horderly := hs.orderly.withBooking hfree hlt
  refine ⟨horderly.onDay, fun a ha => ?_, horderly.apart⟩
  obtain ⟨hours, hh, hopens, hcloses, -⟩ := isBookable_iff.mp hfree
  rcases mem_get_withBooking.mp ha with ha | ⟨hd, rfl⟩
  · exact hs.inHours a ha
  · exact ⟨hours, hd ▸ hh, hopens, hlt, hcloses⟩

/-! ## What the operations do -/

theorem setHours_ok {opens closes : ClockTime} (h : f.setHours day opens closes = .ok g) :
    g.bookings = f.bookings := by
  unfold setHours at h
  split at h
  · cases h
    rfl
  · cases h

/-- Booking succeeds for bookable slots only, and adds the booking. -/
theorem book_ok {fresh owner : String} :
    f.book fresh owner slot = .ok g ↔
      f.isBookable slot none = true ∧ g = f.withBooking ⟨fresh, owner, slot⟩ := by
  unfold book
  split
  · next h => exact ⟨fun hg => ⟨h, (Except.ok.inj hg).symm⟩, fun hg => hg.2 ▸ rfl⟩
  · next h => exact ⟨fun hg => (nomatch hg), fun hg => absurd hg.1 h⟩

theorem exists_book_iff {fresh owner : String} :
    (∃ g, f.book fresh owner slot = .ok g) ↔ f.isBookable slot none = true :=
  ⟨fun ⟨_, hg⟩ => (book_ok.mp hg).1, fun h => ⟨_, book_ok.mpr ⟨h, rfl⟩⟩⟩

end Facility

end DatagramRpc
