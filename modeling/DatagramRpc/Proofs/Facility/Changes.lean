import DatagramRpc.Proofs.Facility.Safety

/-!
# What requests change

Each request reports the facility whose bookings it changes, if it changes any. No request reports
another one, as long as no id of the supply comes back.
-/

namespace DatagramRpc

/-! ## Bookings of a facility -/

theorem Week.mem_flatten {α : Type} {w : Week (List α)} {day : Weekday} {a : α}
    (h : a ∈ w.get day) : a ∈ w.flatten :=
  List.mem_flatMap.mpr ⟨day, Weekday.mem_all day, h⟩

private theorem Facility.mem_withBooking (f : Facility) (b : Booking) :
    b ∈ (f.withBooking b).bookings.flatten := by
  have hday : b ∈ (f.withBooking b).bookings.get b.slot.day := by
    rw [bookings_withBooking, if_pos rfl]
    exact List.mem_append_right _ (List.mem_singleton_self b)
  exact Week.mem_flatten hday

/-- The booking that is taken out is the only difference. -/
theorem Facility.Removes.flatten_perm {f g : Facility} {b : Booking} (h : f.Removes b g) :
    f.bookings.flatten.Perm (b :: g.bookings.flatten) := by
  cases h with
  | @intro day earlier later there =>
    obtain ⟨before, after, hw, hset⟩ := f.bookings.exists_flatten_set day
    have hsplit (l : List Booking) : before ++ (earlier ++ l) ++ after =
        (before ++ earlier) ++ (l ++ after) := by
      simp only [List.append_assoc]
    show f.bookings.flatten.Perm (b :: (f.bookings.set day (earlier ++ later)).flatten)
    rw [hw, hset, there, hsplit, hsplit, List.cons_append]
    exact List.perm_middle

/-! ## Bookings of a catalog -/

namespace Catalog

variable {c : Catalog} {f g : Facility}

/-- The bookings of the facility with that name, day by day. -/
def bookingsOf (c : Catalog) (name : String) : Option (Week (List Booking)) :=
  (c.get? name).map (·.bookings)

theorem get?_replace (hf : c.get? f.name = some f) (hg : g.name = f.name) (name : String) :
    (c.replace g).get? name = if f.name = name then some g else c.get? name := by
  have hname : (fun x : Facility => x.name == name) ∘ (fun x => if x.name = g.name then g else x) =
      fun x => x.name == name := by
    funext x
    by_cases hx : x.name = g.name
    · simp only [Function.comp_apply, hx, if_true]
    · simp only [Function.comp_apply, if_neg hx]
  rw [get?, replace, List.find?_map, hname]
  by_cases he : f.name = name
  · rw [if_pos he, ← he]
    rw [get?] at hf
    rw [hf, Option.map_some, if_pos hg.symm]
  · rw [if_neg he, get?]
    cases hx : c.facilities.find? fun x => x.name == name with
    | none => rfl
    | some x =>
      have hxname : x.name = name := get?_name hx
      have hother : x.name ≠ g.name := fun hc => he (hg.symm.trans (hc.symm.trans hxname))
      rw [Option.map_some, if_neg hother]

theorem bookingsOf_replace (hf : c.get? f.name = some f) (hg : g.name = f.name) (name : String) :
    (c.replace g).bookingsOf name = if f.name = name then
    some g.bookings else c.bookingsOf name := by
  rw [bookingsOf, get?_replace hf hg, apply_ite (Option.map _)]
  rfl

/-- Replacing a facility by one with the same bookings changes no bookings. -/
theorem bookingsOf_replace_same (hf : c.get? f.name = some f) (hg : g.name = f.name)
    (hsame : g.bookings = f.bookings) (name : String) :
    (c.replace g).bookingsOf name = c.bookingsOf name := by
  rw [bookingsOf_replace hf hg]
  split
  · next he => rw [bookingsOf, ← he, hf, hsame, Option.map_some]
  · rfl

private theorem mem_bookings (hf : c.get? f.name = some f) {b : Booking}
    (hb : b ∈ f.bookings.flatten) : b ∈ c.bookings :=
  List.mem_flatMap.mpr ⟨f, List.mem_of_find?_eq_some hf, hb⟩

end Catalog

/-! ## Reports -/

namespace BookingService

variable {supply : IdSupply} {call : Call} {request : Envelope} {s : BookingService}
  {monitors : Registry}

/-- The facility that a request reports is the one whose bookings it changes, if it changes any. -/
inductive Report (supply : IdSupply) (s : BookingService) (monitors : Registry) (op : Operation) :
    Except Fault Outcome × BookingService × Registry → Prop
  | unchanged {result : Except Fault Outcome} {s' : BookingService} {monitors' : Registry}
      (kept : ∀ name, s'.catalog.bookingsOf name = s.catalog.bookingsOf name)
      (unreported : ∀ outcome, result = .ok outcome → outcome.changed = none) :
      Report supply s monitors op (result, s', monitors')
  | changed {payload : String} {f g : Facility} {issued : Nat} (mutating : op.isMutating = true)
      (found : s.catalog.get? f.name = some f) (name : g.name = f.name)
      (other : Set.InjOn supply {n | n < issued} → g.bookings ≠ f.bookings) :
      Report supply s monitors op (.ok ⟨payload, some f.name⟩,
        ⟨s.catalog.replace g, issued⟩, monitors)

/-- A booking under the next id of the supply was not there before. -/
theorem bookings_ne_of_new (hs : Sound supply s) {f g : Facility} {b : Booking}
    (hf : s.catalog.get? f.name = some f) (hb : b ∈ g.bookings.flatten)
    (hid : b.id = supply s.issued) (hfresh : Set.InjOn supply {n | n < s.issued + 1}) :
    g.bookings ≠ f.bookings := by
  intro he
  rw [he] at hb
  obtain ⟨n, hn, hold⟩ := hs.issued b (Catalog.mem_bookings hf hb)
  have hsame : n = s.issued :=
    hfresh (Nat.lt_succ_of_lt hn) (Nat.lt_succ_self _) (hold.symm.trans hid)
  omega

theorem Effect.report (hs : Sound supply s)
    {after : Except Fault Outcome × BookingService × Registry}
    (h : Effect supply call request s monitors after) :
    Report supply s monitors request.operation after := by
  cases h with
  | refused fault kind => exact .unchanged (fun _ => rfl) fun outcome he => nomatch he
  | answered payload op => exact .unchanged (fun _ => rfl) fun outcome he => by cases he; rfl
  | rated payload rating asked found =>
    exact .unchanged (Catalog.bookingsOf_replace_same found rfl rfl) fun outcome he => by
      cases he; rfl
  | subscribed payload op asked =>
    exact .unchanged (fun _ => rfl) fun outcome he => by cases he; rfl
  | booked op found free proper =>
    refine .changed (by rw [op]; rfl) found rfl fun hfresh => ?_
    exact bookings_ne_of_new hs found (Facility.mem_withBooking _ _) rfl hfresh
  | moved op named found removed held free proper =>
    refine .changed (by rw [op]; rfl) found removed.name fun hfresh => ?_
    exact bookings_ne_of_new hs found (Facility.mem_withBooking _ _) rfl hfresh
  | cancelled payload op named found removed held =>
    exact .changed (by rw [op]; rfl) found removed.name fun _ => removed.bookings_ne

end BookingService

end DatagramRpc
