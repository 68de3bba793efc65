import DatagramRpc.Proofs.Facility.Safety
import Mathlib.Order.Defs.LinearOrder
import Mathlib.Tactic.Order

/-!
# What is listed as free can be booked

The free slots of a day are found by a sweep over its bookings in the order of their starts, and a
booking is accepted when it conflicts with none of them. Both agree: the free slots fill exactly the
time that the bookings leave of the opening hours, and a slot can be booked if and only if it lies
in one of them.
-/

namespace DatagramRpc

/-- Times are in the order of their minutes. -/
instance : LinearOrder ClockTime where
  le_refl _ := Nat.le_refl _
  le_trans _ _ _ := Nat.le_trans
  lt_iff_le_not_ge _ _ := Nat.lt_iff_le_and_not_ge
  le_antisymm _ _ h h' := ClockTime.minutes_injective (Nat.le_antisymm h h')
  le_total _ _ := Nat.le_total ..
  toDecidableLE := inferInstance
  toDecidableEq := inferInstance
  toDecidableLT := inferInstance

namespace Slot

/-- Whether a minute of the day, counted from midnight, lies in a slot. -/
def covers (s : Slot) (minute : Nat) : Bool :=
  decide (s.start.minutes ≤ minute) && decide (minute < s.finish.minutes)

private theorem covers_iff {s : Slot} {minute : Nat} :
    s.covers minute = true ↔ s.start.minutes ≤ minute ∧ minute < s.finish.minutes := by
  simp only [covers, Bool.and_eq_true, decide_eq_true_eq]

end Slot

namespace Facility

variable {f : Facility} {day : Weekday} {cursor closes : ClockTime} {booked : List Slot} {s : Slot}

/-- What the list of the free slots of a day has to be. -/
structure AvailableOn (f : Facility) (day : Weekday) : Prop where
  /-- Every listed slot holds a minute and lies within the opening hours. -/
  inHours : ∀ free ∈ f.freeSlots day, free.day = day ∧ free.start < free.finish ∧
    ∃ hours, f.hours.get day = some hours ∧ free.within hours.opens hours.closes = true
  /-- Every listed slot ends before the next one starts: they neither overlap nor touch. -/
  apart : (f.freeSlots day).Pairwise fun a b => a.start < b.start ∧ a.finish < b.start
  /-- Every minute of the opening hours lies in one listed slot or in one booking, and no other
  minute lies in any. -/
  partition : ∀ hours, f.hours.get day = some hours → ∀ minute : Nat,
    (f.freeSlots day ++ (f.bookings.get day).map (·.slot)).countP (·.covers minute) =
      if hours.opens.minutes ≤ minute ∧ minute < hours.closes.minutes then 1 else 0
  /-- Bookable are the slots that lie in a listed slot. -/
  bookable : ∀ start finish slot, Slot.of day start finish = .ok slot →
    (f.isBookable slot none = true ↔
      ∃ free ∈ f.freeSlots day, slot.within free.start free.finish = true)
  /-- Booking succeeds for these slots and for no others. -/
  booked : ∀ fresh owner start finish slot, Slot.of day start finish = .ok slot →
    ((∃ g, f.book fresh owner slot = .ok g) ↔
      ∃ free ∈ f.freeSlots day, slot.within free.start free.finish = true)
  /-- Nothing is listed, booked or accepted on a day without opening hours. -/
  closed : f.hours.get day = none → f.freeSlots day = [] ∧ f.bookings.get day = [] ∧
    ∀ slot ignoring, slot.day = day → f.isBookable slot ignoring = false

/-! ## The sweep -/

/-- Bookings that the sweep has still to pass: one after another from the cursor until closing. -/
inductive Ahead (closes : ClockTime) : ClockTime → List Slot → Prop
  | nil {cursor : ClockTime} : Ahead closes cursor []
  | cons {cursor : ClockTime} {s : Slot} {rest : List Slot} (start : cursor ≤ s.start)
      (proper : s.start < s.finish) (finish : s.finish ≤ closes)
      (next : Ahead closes s.finish rest) :
      Ahead closes cursor (s :: rest)

private theorem later_finish (hstart : cursor ≤ s.start) (hlt : s.start < s.finish) :
    cursor.later s.finish = s.finish := by
  rw [ClockTime.later, if_pos (hstart.trans hlt.le)]

private theorem le_start_of_ahead (h : Ahead closes cursor booked) :
    ∀ b ∈ booked, cursor ≤ b.start := by
  induction h with
  | nil => exact fun b hb => nomatch hb
  | @cons cursor s rest start proper finish _ ih =>
    intro b hb
    rcases List.mem_cons.mp hb with rfl | hb
    · exact start
    · have hlater := ih b hb
      order

/-- The gap before a booking, if there is one, and the gaps after it. -/
theorem gaps_cons (day : Weekday) (hstart : cursor ≤ s.start) (hlt : s.start < s.finish)
    (rest : List Slot) : gaps day closes cursor (s :: rest) =
      gaps day s.start cursor [] ++ gaps day closes s.finish rest := by
  rw [gaps, gaps, later_finish hstart hlt]
  split <;> rfl

theorem mem_gap {free : Slot} :
    free ∈ gaps day closes cursor [] ↔ cursor < closes ∧ free = ⟨day, cursor, closes⟩ := by
  rw [gaps]
  split
  · next h => simp [h]
  · next h => simp [h]

private theorem count_gap (day : Weekday) (cursor closes : ClockTime) (minute : Nat) :
    (gaps day closes cursor []).countP (·.covers minute) =
      if cursor.minutes ≤ minute ∧ minute < closes.minutes then 1 else 0 := by
  rw [gaps]
  split
  · rw [List.countP_singleton]
    simp only [Slot.covers_iff]
  · next h =>
    rw [ClockTime.lt_iff] at h
    rw [List.countP_nil, if_neg (by omega)]

/-- Every gap holds a minute and lies between the cursor and closing. -/
theorem mem_gaps (h : Ahead closes cursor booked) : ∀ free ∈ gaps day closes cursor booked,
    free.day = day ∧ cursor ≤ free.start ∧ free.start < free.finish ∧ free.finish ≤ closes := by
  induction h with
  | nil =>
    intro free hfree
    obtain ⟨hlt, rfl⟩ := mem_gap.mp hfree
    exact ⟨rfl, le_rfl, hlt, le_rfl⟩
  | @cons cursor s rest start proper finish _ ih =>
    intro free hfree
    rw [gaps_cons day start proper] at hfree
    rcases List.mem_append.mp hfree with hfree | hfree
    · obtain ⟨hlt, rfl⟩ := mem_gap.mp hfree
      refine ⟨rfl, le_rfl, hlt, ?_⟩
      order
    · obtain ⟨hday, hcursor, hlt, hcloses⟩ := ih free hfree
      refine ⟨hday, ?_, hlt, hcloses⟩
      order

/-- Between two gaps there is a booking. -/
theorem gaps_apart (h : Ahead closes cursor booked) :
    (gaps day closes cursor booked).Pairwise fun a b => a.start < b.start ∧ a.finish < b.start := by
  have hgap : ∀ cursor closes : ClockTime, (gaps day closes cursor []).Pairwise
      fun a b => a.start < b.start ∧ a.finish < b.start := by
    intro cursor closes
    rw [gaps]
    split
    · exact List.pairwise_singleton ..
    · exact .nil
  induction h with
  | nil => exact hgap ..
  | @cons cursor s rest start proper finish next ih =>
    rw [gaps_cons day start proper]
    refine List.pairwise_append.mpr ⟨hgap .., ih, fun a ha b hb => ?_⟩
    obtain ⟨hlt, rfl⟩ := mem_gap.mp ha
    obtain ⟨-, hb, -, -⟩ := mem_gaps next b hb
    -- The booking lies between them, and it holds at least one minute.
    have hlast : s.start < b.start := proper.trans_le hb
    exact ⟨hlt.trans hlast, hlast⟩

/-- The gaps and the bookings together cover every minute from the cursor until closing once. -/
theorem count_gaps (day : Weekday) (h : Ahead closes cursor booked) (minute : Nat) :
    (gaps day closes cursor booked).countP (·.covers minute) + booked.countP (·.covers minute) =
      if cursor.minutes ≤ minute ∧ minute < closes.minutes then 1 else 0 := by
  induction h with
  | nil => rw [count_gap, List.countP_nil, Nat.add_zero]
  | @cons cursor s rest start proper finish _ ih =>
    rw [gaps_cons day start proper, List.countP_append, count_gap, List.countP_cons]
    -- The minute comes before the booking, in it or after it, or it is out of range.
    simp only [Slot.covers_iff, ClockTime.le_iff, ClockTime.lt_iff] at *
    split_ifs at * <;> omega

/-- A slot lies in a gap if it lies between the cursor and closing and stands apart from every
booking. -/
theorem within_gap_iff (day : Weekday) (h : Ahead closes cursor booked) (hlt : s.start < s.finish) :
    (∃ free ∈ gaps day closes cursor booked, s.within free.start free.finish = true) ↔
      s.within cursor closes = true ∧ ∀ b ∈ booked, b.finish ≤ s.start ∨ s.finish ≤ b.start := by
  induction h with
  | @nil cursor =>
    simp only [mem_gap, Slot.within_iff]
    constructor
    · rintro ⟨free, ⟨-, rfl⟩, hwithin⟩
      exact ⟨hwithin, fun b hb => nomatch hb⟩
    · rintro ⟨hwithin, -⟩
      refine ⟨_, ⟨?_, rfl⟩, hwithin⟩
      order
  | @cons cursor b rest start proper finish next ih =>
    have hrest := le_start_of_ahead next
    rw [gaps_cons day start proper, List.forall_mem_cons]
    constructor
    · rintro ⟨free, hfree, hwithin⟩
      rcases List.mem_append.mp hfree with hfree | hfree
      · obtain ⟨-, rfl⟩ := mem_gap.mp hfree
        obtain ⟨hcursor, hb⟩ := Slot.within_iff.mp hwithin
        refine ⟨Slot.within_iff.mpr ⟨hcursor, ?_⟩, .inr hb, fun c hc => .inr ?_⟩
        · order
        · have hc := hrest c hc
          order
      · obtain ⟨hlater, hapart⟩ := ih.mp ⟨free, hfree, hwithin⟩
        obtain ⟨hb, hcloses⟩ := Slot.within_iff.mp hlater
        refine ⟨Slot.within_iff.mpr ⟨?_, hcloses⟩, .inl hb, hapart⟩
        order
    · rintro ⟨hwithin, hb | hb, hapart⟩
      · have hlater := Slot.within_iff.mpr ⟨hb, (Slot.within_iff.mp hwithin).2⟩
        obtain ⟨free, hfree, hwithin⟩ := ih.mpr ⟨hlater, hapart⟩
        exact ⟨free, List.mem_append_right _ hfree, hwithin⟩
      · have hcursor := (Slot.within_iff.mp hwithin).1
        refine ⟨_, List.mem_append_left _ (mem_gap.mpr ⟨?_, rfl⟩),
          Slot.within_iff.mpr ⟨hcursor, hb⟩⟩
        order

/-! ## The bookings of a day in order -/

/-- The slots of the bookings of a day in the order of their starts. -/
def sorted (f : Facility) (day : Weekday) : List Slot :=
  ((f.bookings.get day).map (·.slot)).mergeSort fun a b => decide (a.start ≤ b.start)

private theorem sorted_perm (f : Facility) (day : Weekday) :
    (f.sorted day).Perm ((f.bookings.get day).map (·.slot)) := List.mergeSort_perm ..

theorem freeSlots_eq {hours : OpeningHours} (h : f.hours.get day = some hours) :
    f.freeSlots day = gaps day hours.closes hours.opens (f.sorted day) := by
  rw [freeSlots, h]
  rfl

theorem mem_sorted {s : Slot} : s ∈ f.sorted day ↔ ∃ b ∈ f.bookings.get day, b.slot = s := by
  rw [(sorted_perm f day).mem_iff, List.mem_map]

theorem hours_of_mem_freeSlots (h : s ∈ f.freeSlots day) :
    ∃ hours, f.hours.get day = some hours := by
  cases hh : f.hours.get day with
  | none => simp [freeSlots, hh] at h
  | some hours => exact ⟨hours, rfl⟩

/-- Slots that stand apart, in the order of their starts, come one after another. -/
theorem sorted_apart (hs : f.OrderlyOn day) :
    (f.sorted day).Pairwise fun a b => a.finish ≤ b.start := by
  have hmem : ∀ s ∈ f.sorted day, s.day = day ∧ s.start < s.finish := by
    intro s hs'
    obtain ⟨b, hb, rfl⟩ := mem_sorted.mp hs'
    exact ⟨hs.onDay b hb, hs.proper b hb⟩
  have horder : (f.sorted day).Pairwise fun a b => a.start ≤ b.start := by
    have hsort : (f.sorted day).Pairwise fun a b => decide (a.start ≤ b.start) = true := by
      refine List.pairwise_mergeSort (fun a b c hab hbc => ?_) (fun a b => ?_) _
      · exact decide_eq_true ((of_decide_eq_true hab).trans (of_decide_eq_true hbc))
      · simp only [Bool.or_eq_true, decide_eq_true_eq]
        exact le_total a.start b.start
    simpa only [decide_eq_true_eq] using hsort
  have happart : (f.sorted day).Pairwise fun a b => a.conflicts b = false := by
    refine ((sorted_perm f day).pairwise_iff fun h => ?_).mpr (List.pairwise_map.mpr hs.apart)
    rwa [Slot.conflicts_comm]
  refine (horder.and happart).imp_of_mem fun ha hb ⟨hle, hno⟩ => ?_
  obtain ⟨haday, halt⟩ := hmem _ ha
  obtain ⟨hbday, hblt⟩ := hmem _ hb
  rcases Slot.conflicts_eq_false.mp hno (haday.trans hbday.symm) with hbefore | hafter
  · exact hbefore
  · order

private theorem ahead_of_apart
    (hin : ∀ s ∈ booked, cursor ≤ s.start ∧ s.start < s.finish ∧ s.finish ≤ closes)
    (hapart : booked.Pairwise fun a b => a.finish ≤ b.start) : Ahead closes cursor booked := by
  induction booked generalizing cursor with
  | nil => exact .nil
  | cons s rest ih =>
    obtain ⟨hlater, hrest⟩ := List.pairwise_cons.mp hapart
    obtain ⟨hstart, hlt, hcloses⟩ := hin s List.mem_cons_self
    refine .cons hstart hlt hcloses (ih (fun b hb => ⟨hlater b hb, ?_⟩) hrest)
    exact (hin b (List.mem_cons_of_mem _ hb)).2

private theorem ahead_sorted (hs : f.SafeOn day) {hours : OpeningHours}
    (h : f.hours.get day = some hours) : Ahead hours.closes hours.opens (f.sorted day) := by
  refine ahead_of_apart (fun s hs' => ?_) (sorted_apart hs.orderly)
  obtain ⟨b, hb, rfl⟩ := mem_sorted.mp hs'
  obtain ⟨hours', hh, hin⟩ := hs.inHours b hb
  cases h.symm.trans hh
  exact hin

/-! ## A safe day -/

/-- The test for conflicts and the sweep agree on every slot that holds a minute. -/
theorem isBookable_iff_listed (hs : f.SafeOn day) (hday : s.day = day) (hlt : s.start < s.finish) :
    f.isBookable s none = true ↔
      ∃ free ∈ f.freeSlots day, s.within free.start free.finish = true := by
  subst hday
  rw [isBookable_iff]
  cases hh : f.hours.get s.day with
  | none => simp [freeSlots, hh]
  | some hours =>
    rw [freeSlots_eq hh, within_gap_iff s.day (ahead_sorted hs hh) hlt, Slot.within_iff]
    have hconflict : (∀ b ∈ f.bookings.get s.day, b.slot.conflicts s = false) ↔
        ∀ b ∈ f.sorted s.day, b.finish ≤ s.start ∨ s.finish ≤ b.start := by
      simp only [(sorted_perm f s.day).mem_iff, List.forall_mem_map, Slot.conflicts_eq_false]
      exact forall₂_congr fun b hb => ⟨fun h => h (hs.onDay b hb), fun h _ => h⟩
    rw [← hconflict]
    constructor
    · rintro ⟨hours', heq, hopens, hcloses, hapart⟩
      cases heq
      exact ⟨⟨hopens, hcloses⟩, hapart⟩
    · rintro ⟨⟨hopens, hcloses⟩, hapart⟩
      exact ⟨hours, rfl, hopens, hcloses, hapart⟩

private theorem availableOn (hs : f.SafeOn day) : f.AvailableOn day where
  inHours free hfree := by
    obtain ⟨hours, hh⟩ := hours_of_mem_freeSlots hfree
    rw [freeSlots_eq hh] at hfree
    obtain ⟨hday, hopens, hlt, hcloses⟩ := mem_gaps (ahead_sorted hs hh) free hfree
    exact ⟨hday, hlt, hours, hh, Slot.within_iff.mpr ⟨hopens, hcloses⟩⟩
  apart := by
    cases hh : f.hours.get day with
    | none => simp [freeSlots, hh]
    | some hours =>
      rw [freeSlots_eq hh]
      exact gaps_apart (ahead_sorted hs hh)
  partition hours hh minute := by
    rw [freeSlots_eq hh, List.countP_append, ← (sorted_perm f day).countP_eq]
    exact count_gaps day (ahead_sorted hs hh) minute
  bookable start finish slot h := by
    obtain ⟨rfl, hlt⟩ := Slot.of_ok h
    exact isBookable_iff_listed hs rfl hlt
  booked fresh owner start finish slot h := by
    obtain ⟨rfl, hlt⟩ := Slot.of_ok h
    exact exists_book_iff.trans (isBookable_iff_listed hs rfl hlt)
  closed h := by
    refine ⟨by simp [freeSlots, h], ?_, fun slot ignoring hday => by simp [isBookable, hday, h]⟩
    refine List.eq_nil_iff_forall_not_mem.mpr fun b hb => ?_
    obtain ⟨hours, hh, -⟩ := hs.inHours b hb
    rw [h] at hh
    cases hh

end Facility

/-- **Availability agrees with booking** in every state of a service that started from settings, for
every facility and day. -/
theorem BookingService.availability_agrees (supply : IdSupply)
    {settings : List Config.FacilitySettings} {s₀ : BookingService}
    (hs : ofSettings settings = .ok s₀) (monitors : Registry) (requests : List (Call × Envelope)) :
    ∀ f ∈ (run supply requests (s₀, monitors)).1.catalog.facilities, ∀ day, f.AvailableOn day :=
  fun f hf day =>
    Facility.availableOn ((sound_run requests
      (sound_start supply (filled_ofSettings hs))).days f hf day)

theorem BookingService.availability_agrees_sample :
    (∀ f ∈ (run sampleIds (sampleRequests.take 2) (sampleStart, .empty)).1.catalog.facilities,
      ∀ day, f.AvailableOn day) ∧
    (run sampleIds (sampleRequests.take 2) (sampleStart, .empty)).1.catalog.facilities.map
        (fun f => f.freeSlots .saturday) =
      [[⟨.saturday, ⟨9, 0⟩, ⟨10, 0⟩⟩, ⟨.saturday, ⟨12, 0⟩, ⟨18, 0⟩⟩]] := by
  have hstart : ofSettings sampleSettings = .ok sampleStart := rfl
  exact ⟨availability_agrees sampleIds hstart .empty (sampleRequests.take 2), by decide +kernel⟩

end DatagramRpc
