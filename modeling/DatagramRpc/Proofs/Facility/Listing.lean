import DatagramRpc.Proofs.Facility.ChangingHours

/-!
# What a listing tells

The listing of a facility can be read in one way only. It has a line for each of the requested days
that has free slots, and none for the others. The days are told by what stands before the colon, and
slots by what stands before the commas, where every time has four digits. So two listings of
facilities of one name are the same text exactly if the same slots are free on every day, as far as
this day was asked for.

The text does not depend on the order of the days or on how often one is named, and no days at all
are all days. The two facilities may be in any two states, whatever has led to them.
-/

namespace DatagramRpc

/-! ## Times and slots -/

namespace ClockTime

variable {a b t : ClockTime} {c : Char}

private theorem length_hour (t : ClockTime) : (Text.padded 2 t.hour).toList.length = 2 :=
  Text.length_padded (by decide) (t.hour.isLt.trans (by decide))

private theorem length_render (t : ClockTime) : t.render.toList.length = 4 := by
  have hminute : (Text.padded 2 t.minute).toList.length = 2 :=
    Text.length_padded (by decide) (t.minute.isLt.trans (by decide))
  rw [render, String.toList_append, List.length_append, length_hour, hminute]

private theorem isDigit_of_mem_render (h : c ∈ t.render.toList) : c.isDigit = true := by
  rw [render, String.toList_append] at h
  rcases List.mem_append.mp h with h | h
  · exact Text.isDigit_of_mem_padded h
  · exact Text.isDigit_of_mem_padded h

/-- Hour and minute have two digits each. -/
theorem render_injective (h : a.render = b.render) : a = b := by
  have hdigits : (Text.padded 2 a.hour).toList ++ (Text.padded 2 a.minute).toList =
      (Text.padded 2 b.hour).toList ++ (Text.padded 2 b.minute).toList := by
    simpa [render] using congrArg String.toList h
  obtain ⟨hhour, hminute⟩ := List.append_inj hdigits ((length_hour a).trans (length_hour b).symm)
  have hhour' := Text.padded_injective (String.toList_injective hhour)
  have hminute' := Text.padded_injective (String.toList_injective hminute)
  refine minutes_injective ?_
  rw [minutes, minutes, hhour', hminute']

end ClockTime

namespace Slot

variable {a b s : Slot} {c : Char}

private theorem toList_render (s : Slot) :
    s.render.toList = s.start.render.toList ++ (" - ".toList ++ s.finish.render.toList) := by
  rw [render, String.toList_append, String.toList_append, List.append_assoc]

/-- No separator of a listing stands in a slot. -/
theorem notMem_render (hdigit : c.isDigit = false) (hdash : c ∉ " - ".toList) :
    c ∉ s.render.toList := by
  have htime (t : ClockTime) : c ∉ t.render.toList := fun h => by
    rw [ClockTime.isDigit_of_mem_render h] at hdigit
    cases hdigit
  rw [toList_render, List.mem_append, List.mem_append, not_or, not_or]
  exact ⟨htime _, hdash, htime _⟩

/-- A slot of a known day is known by its text. -/
theorem eq_of_render (hday : a.day = b.day) (h : a.render = b.render) : a = b := by
  have htext := congrArg String.toList h
  have hlength : a.start.render.toList.length = b.start.render.toList.length := by
    rw [ClockTime.length_render, ClockTime.length_render]
  rw [toList_render, toList_render] at htext
  obtain ⟨hstart, hrest⟩ := List.append_inj htext hlength
  have hfinish := List.append_cancel_left hrest
  obtain ⟨day, start, finish⟩ := a
  obtain rfl : day = b.day := hday
  obtain rfl : start = b.start := ClockTime.render_injective (String.toList_injective hstart)
  obtain rfl : finish = b.finish := ClockTime.render_injective (String.toList_injective hfinish)
  rfl

end Slot

/-! ## The line of a day -/

private theorem Weekday.name_injective {a b : Weekday} (h : a.name = b.name) : a = b := by
  cases a <;> cases b <;> first | rfl | exact absurd h (by decide)

/-- The line that tells of a day on which these slots are free. -/
def dayLine (day : Weekday) (free : List Slot) : String :=
  day.name ++ ":" ++ String.join (free.map (·.render ++ ","))

private theorem line_notMem_dayLine (day : Weekday) (free : List Slot) :
    '\n' ∉ (dayLine day free).toList := by
  have hname : '\n' ∉ day.name.toList := by cases day <;> decide
  have hslots : '\n' ∉ (String.join (free.map (·.render ++ ","))).toList := by
    rw [String.toList_join, List.flatMap_map, List.mem_flatMap]
    rintro ⟨s, -, h⟩
    rw [String.toList_append, List.mem_append] at h
    exact h.elim (Slot.notMem_render (by decide) (by decide)) (by decide)
  simp only [dayLine, String.toList_append, List.mem_append, not_or]
  exact ⟨⟨hname, by decide⟩, hslots⟩

/-- Slots of one day are known by their texts. -/
theorem eq_of_map_render {day : Weekday} {a b : List Slot} (ha : ∀ s ∈ a, s.day = day)
    (hb : ∀ s ∈ b, s.day = day) (h : a.map (·.render) = b.map (·.render)) : a = b := by
  induction a generalizing b with
  | nil => exact (List.map_eq_nil_iff.mp h.symm).symm
  | cons s a ih =>
    cases b with
    | nil => cases h
    | cons t b =>
      obtain ⟨hs, ha⟩ := List.forall_mem_cons.mp ha
      obtain ⟨ht, hb⟩ := List.forall_mem_cons.mp hb
      obtain ⟨htext, hrest⟩ := List.cons.inj h
      rw [Slot.eq_of_render (hs.trans ht.symm) htext, ih ha hb hrest]

/-- Slots with a comma after each of them are read back. -/
theorem pieces_slots (free : List Slot) :
    Text.pieces ',' (String.join (free.map (·.render ++ ","))) = free.map (·.render) ++ [""] := by
  have hcomma : ∀ text ∈ free.map (·.render), ',' ∉ text.toList :=
    List.forall_mem_map.mpr fun s _ => Slot.notMem_render (by decide) (by decide)
  have hpieces : Text.pieces ',' (String.join ((free.map (·.render)).map (· ++ ","))) =
      free.map (·.render) ++ [""] :=
    Text.pieces_join (by decide) hcomma
  rwa [List.map_map] at hpieces

/-- The line of a day tells which day it is and what is free then. -/
theorem dayLine_injective {d e : Weekday} {a b : List Slot} (ha : ∀ s ∈ a, s.day = d)
    (hb : ∀ s ∈ b, s.day = e) (h : dayLine d a = dayLine e b) : d = e ∧ a = b := by
  have hchars (day : Weekday) (free : List Slot) : (dayLine day free).toList =
      day.name.toList ++ ':' :: (String.join (free.map (·.render ++ ","))).toList := by
    simp [dayLine]
  have hname (day : Weekday) : ':' ∉ day.name.toList := by cases day <;> decide
  have htext := congrArg String.toList h
  rw [hchars, hchars] at htext
  -- No name holds a colon, so the names end at the first one, and what comes after it are the
  -- slots.
  obtain ⟨hday, hslots⟩ := Text.append_cons_inj (hname d) (hname e) htext
  obtain rfl : d = e := Weekday.name_injective (String.toList_injective hday)
  have hpieces := congrArg (Text.pieces ',') (String.toList_injective hslots)
  rw [pieces_slots, pieces_slots] at hpieces
  exact ⟨rfl, eq_of_map_render ha hb (List.append_cancel_right hpieces)⟩

/-! ## All days -/

/-- The lines of the days that have free slots, in the order of the week. -/
def weekLines (free : Weekday → List Slot) : List String :=
  (Weekday.all.filter fun day => free day ≠ []).map fun day => dayLine day (free day)

private theorem pieces_weekLines (free : Weekday → List Slot) :
    Text.pieces '\n' (String.join ((weekLines free).map (· ++ "\n"))) = weekLines free ++ [""] := by
  refine Text.pieces_join (by decide) fun line hline => ?_
  obtain ⟨day, -, rfl⟩ := List.mem_map.mp hline
  exact line_notMem_dayLine day (free day)

section

variable {v w : Weekday → List Slot}

/-- A day with free slots has a line, and where the lines are the same, this line is that of the
same day. -/
theorem eq_of_weekLines (hv : ∀ day, ∀ s ∈ v day, s.day = day)
    (hw : ∀ day, ∀ s ∈ w day, s.day = day) (h : weekLines v = weekLines w) {day : Weekday}
    (hsome : v day ≠ []) : v day = w day := by
  have hline : dayLine day (v day) ∈ weekLines v :=
    List.mem_map_of_mem (f := fun day => dayLine day (v day))
      (List.mem_filter.mpr ⟨Weekday.mem_all day, decide_eq_true hsome⟩)
  rw [h] at hline
  obtain ⟨other, -, hother⟩ := List.mem_map.mp hline
  obtain ⟨rfl, hslots⟩ := dayLine_injective (hw other) (hv day) hother
  exact hslots.symm

/-- Lines tell what is free on every day. -/
theorem weekLines_injective (hv : ∀ day, ∀ s ∈ v day, s.day = day)
    (hw : ∀ day, ∀ s ∈ w day, s.day = day) (h : weekLines v = weekLines w) : v = w := by
  funext day
  by_cases hv' : v day = []
  · by_cases hw' : w day = []
    · rw [hv', hw']
    · exact (eq_of_weekLines hw hv h.symm hw').symm
  · exact eq_of_weekLines hv hw h hv'

end

namespace Facility

variable {f : Facility} {day : Weekday} {days : List Weekday}

private theorem day_of_mem_gaps {closes cursor : ClockTime} {booked : List Slot} {free : Slot}
    (h : free ∈ gaps day closes cursor booked) : free.day = day := by
  induction booked generalizing cursor with
  | nil => rw [(mem_gap.mp h).2]
  | cons s booked ih =>
    rcases mem_gaps_cons.mp h with ⟨-, rfl⟩ | h
    · rfl
    · exact ih h

private theorem day_of_mem_freeSlots {free : Slot} (h : free ∈ f.freeSlots day) :
    free.day = day := by
  obtain ⟨hours, hh⟩ := hours_of_mem_freeSlots h
  rw [freeSlots_eq hh] at h
  exact day_of_mem_gaps h

/-- What is told of a day when these days are asked for. Asking for none is asking for all. -/
def told (f : Facility) (days : List Weekday) (day : Weekday) : List Slot :=
  if days = [] ∨ day ∈ days then f.freeSlots day else []

private theorem day_of_mem_told {free : Slot} (h : free ∈ f.told days day) : free.day = day := by
  unfold told at h
  split at h
  · exact day_of_mem_freeSlots h
  · cases h

private theorem told_all : f.told Weekday.all = f.told [] := by
  funext day
  simp [told, Weekday.mem_all]

private theorem told_congr {other : List Weekday} (h : ∀ day, day ∈ other ↔ day ∈ days) :
    f.told other = f.told days := by
  have hnone : other = [] ↔ days = [] := by simp only [List.eq_nil_iff_forall_not_mem, h]
  funext day
  simp only [told, hnone, h]

end Facility

namespace BookingService

variable {c c' : Catalog} {name : String} {f f' : Facility} {days days' : List Weekday}

/-- What is left out of a text might as well be nothing. -/
theorem join_filter {α : Type} (p : α → Bool) (text : α → String) (l : List α) :
    String.join ((l.filter p).map text) =
      String.join (l.map fun a => if p a then text a else "") := by
  induction l with
  | nil => rfl
  | cons a l ih =>
    rw [List.filter_cons, List.map_cons]
    split
    · rw [List.map_cons, String.join_cons, String.join_cons, ih]
    · rw [String.join_cons, ih, String.empty_append]

private theorem dayListing_eq (f : Facility) (day : Weekday) :
    dayListing f day = if f.freeSlots day ≠ [] then
    dayLine day (f.freeSlots day) ++ "\n" else "" := by
  unfold dayListing
  split
  · next hnone => rw [if_neg (not_not.mpr hnone)]
  · next hsome => rw [if_pos hsome, dayLine]

/-- The lines that are written are those of the days of which something is told. -/
theorem join_dayListing (f : Facility) (days : List Weekday) :
    String.join ((selected days).map (dayListing f)) =
      String.join ((weekLines (f.told days)).map (· ++ "\n")) := by
  have hselected (day : Weekday) : (days.isEmpty || days.contains day) = true ↔
      days = [] ∨ day ∈ days := by
    simp
  rw [selected, weekLines, List.map_map, join_filter, join_filter]
  refine congrArg String.join (List.map_congr_left fun day _ => ?_)
  simp only [Function.comp_apply, decide_eq_true_eq]
  by_cases h : days = [] ∨ day ∈ days
  · have htold : f.told days day = f.freeSlots day := if_pos h
    rw [if_pos ((hselected day).mpr h), dayListing_eq, htold]
  · have htold : f.told days day = [] := if_neg h
    rw [if_neg (mt (hselected day).mp h), htold, if_neg (not_not.mpr rfl)]

/-- The text that tells of a facility, when these days are asked for. -/
def listing (f : Facility) (days : List Weekday) : String :=
  "status:SUCCESS\nfacility:" ++ f.name ++ "\navailableTimeslots:\n" ++
    String.join ((weekLines (f.told days)).map (· ++ "\n"))

private theorem availability_eq (hf : c.get? name = some f) (days : List Weekday) :
    availability c name days = .ok (listing f days) := by
  unfold availability listing
  rw [Catalog.require_of_get? hf, ← join_dayListing]
  rfl

private theorem listing_eq_iff (hname : f.name = f'.name) :
    listing f days = listing f' days' ↔ f.told days = f'.told days' := by
  constructor
  · intro h
    unfold listing at h
    rw [hname] at h
    have hlines := congrArg (Text.pieces '\n') ((String.append_right_inj _).mp h)
    rw [pieces_weekLines, pieces_weekLines] at hlines
    exact weekLines_injective (fun _ _ => Facility.day_of_mem_told)
      (fun _ _ => Facility.day_of_mem_told)
      (List.append_cancel_right hlines)
  · intro h
    unfold listing
    rw [hname, h]

/-- **A listing tells what is free** on the days that were asked for, and nothing else: it is the
same text exactly if the same slots are told of every day. -/
theorem same_listing_iff (hf : c.get? name = some f) (hf' : c'.get? name = some f')
    (days days' : List Weekday) :
    ∃ text text', availability c name days = .ok text ∧ availability c' name days' = .ok text' ∧
      (text = text' ↔ ∀ day, f.told days day = f'.told days' day) ∧
      (∀ other : List Weekday, (∀ day, day ∈ other ↔ day ∈ days) →
        availability c name other = .ok text) ∧
      availability c name [] = availability c name Weekday.all := by
  have hname : f.name = f'.name := (Catalog.get?_name hf).trans (Catalog.get?_name hf').symm
  refine ⟨listing f days, listing f' days', availability_eq hf days, availability_eq hf' days', ?_,
    fun other h => ?_, ?_⟩
  · rw [listing_eq_iff hname, funext_iff]
  · rw [availability_eq hf, Except.ok.injEq, listing_eq_iff rfl]
    exact Facility.told_congr h
  · rw [availability_eq hf, availability_eq hf, Except.ok.injEq, listing_eq_iff rfl,
      Facility.told_all]

/-- Another client who books at once what `sampleRequests` come to by moving a booking. -/
def otherRequests : List (Call × Envelope) :=
  [(sampleCall 2, .of .write 1 "Gym,saturday,10,0,12,0")]

theorem same_listing_iff_sample :
    let c := (run sampleIds (sampleRequests.take 2) (sampleStart, .empty)).1.catalog
    let c' := (run sampleIds otherRequests (sampleStart, .empty)).1.catalog
    c.bookings ≠ c'.bookings ∧ ∃ text, availability c "Gym" [] = .ok text ∧
      availability c' "Gym" [.saturday, .friday, .saturday] = .ok text := by
  intro c c'
  have htold : (c.get? "Gym").map (fun f => Weekday.all.map (f.told [])) =
      some [[], [], [], [], [], [⟨.saturday, ⟨9, 0⟩, ⟨10, 0⟩⟩, ⟨.saturday, ⟨12, 0⟩, ⟨18, 0⟩⟩],
        []] := by decide +kernel
  have htold' : (c'.get? "Gym").map
      (fun f => Weekday.all.map (f.told [.saturday, .friday, .saturday])) =
      some [[], [], [], [], [], [⟨.saturday, ⟨9, 0⟩, ⟨10, 0⟩⟩, ⟨.saturday, ⟨12, 0⟩, ⟨18, 0⟩⟩],
        []] := by decide +kernel
  obtain ⟨f, hf, hfree⟩ := Option.map_eq_some_iff.mp htold
  obtain ⟨f', hf', hfree'⟩ := Option.map_eq_some_iff.mp htold'
  have hsame := List.map_inj_left.mp (hfree.trans hfree'.symm)
  obtain ⟨text, text', htext, htext', hiff, -, -⟩ :=
    same_listing_iff hf hf' [] [.saturday, .friday, .saturday]
  obtain rfl : text = text' := hiff.mpr fun day => hsame day (Weekday.mem_all day)
  exact ⟨by decide +kernel, text, htext, htext'⟩

end BookingService

end DatagramRpc
