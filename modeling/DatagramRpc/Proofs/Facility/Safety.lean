import DatagramRpc.Proofs.Facility.Requests
import Mathlib.Data.List.Nodup
import Mathlib.Data.Set.Function

/-!
# Bookings are safe

In every state that the booking service can come to, each booking fits into the hours of its day, no
two bookings of a facility and day conflict, and no two bookings of the catalog have the same id. A
request changes at most one facility, by leaving bookings out and by adding at most one under a new
id.
-/

namespace DatagramRpc

/-! ## The whole week -/

namespace Week

variable {α : Type} {v w : Week (List α)}

private theorem flatten_sublist (h : ∀ day, (v.get day).Sublist (w.get day)) :
    v.flatten.Sublist w.flatten := by
  unfold flatten
  induction Weekday.all with
  | nil => exact .refl _
  | cons day days ih => exact (h day).append ih

/-- Whatever list is put in the place of a day's, it stands between the lists of the other days. -/
theorem exists_flatten_set (w : Week (List α)) (day : Weekday) :
    ∃ before after, w.flatten = before ++ w.get day ++ after ∧
      ∀ l, (w.set day l).flatten = before ++ l ++ after := by
  obtain ⟨before, after, hall⟩ := List.append_of_mem (Weekday.mem_all day)
  have hnodup := hall ▸ Weekday.all_nodup
  have hother : ∀ d ∈ before ++ after, day ≠ d := by
    rintro d hd rfl
    exact (List.nodup_cons.mp (List.nodup_middle.mp hnodup)).1 hd
  have hkeep (l : List α) (days : List Weekday) (hdays : ∀ d ∈ days, day ≠ d) :
      days.flatMap (w.set day l).get = days.flatMap w.get :=
    List.flatMap_congr fun d hd => get_set_of_ne (hdays d hd)
  refine ⟨before.flatMap w.get, after.flatMap w.get, ?_, fun l => ?_⟩
  · rw [flatten, hall, List.flatMap_append, List.flatMap_cons, List.append_assoc]
  · rw [flatten, hall, List.flatMap_append, List.flatMap_cons, get_set_self, List.append_assoc,
      hkeep l before fun d hd => hother d (List.mem_append_left _ hd),
      hkeep l after fun d hd => hother d (List.mem_append_right _ hd)]

/-- Another element of a day is another element of the week. -/
theorem flatten_concat_perm (w : Week (List α)) (day : Weekday) (a : α) :
    (w.set day (w.get day ++ [a])).flatten.Perm (a :: w.flatten) := by
  obtain ⟨before, after, hw, hset⟩ := w.exists_flatten_set day
  rw [hset, hw, ← List.append_assoc before, List.append_assoc (before ++ w.get day)]
  exact List.perm_middle

end Week

/-! ## The whole catalog -/

namespace Catalog

variable {c : Catalog} {f g : Facility}

/-- All bookings of all facilities. -/
def bookings (c : Catalog) : List Booking := c.facilities.flatMap fun f => f.bookings.flatten

/-- Where names are unique, replacing puts one facility in the place of one other. -/
theorem exists_replace (hn : c.names.Nodup) (hf : c.get? f.name = some f) :
    ∃ before after, c.facilities = before ++ f :: after ∧
      ∀ g : Facility, g.name = f.name → (c.replace g).facilities = before ++ g :: after := by
  obtain ⟨before, after, hc⟩ := List.append_of_mem (List.mem_of_find?_eq_some hf)
  have hnodup : ((before ++ f :: after).map (·.name)).Nodup := hc ▸ hn
  rw [List.map_append, List.map_cons] at hnodup
  have hother : ∀ x ∈ before ++ after, x.name ≠ f.name := by
    intro x hx he
    refine (List.nodup_cons.mp (List.nodup_middle.mp hnodup)).1 ?_
    rw [← List.map_append, ← he]
    exact List.mem_map_of_mem hx
  refine ⟨before, after, hc, fun g hg => ?_⟩
  have hkeep : ∀ l : List Facility, (∀ x ∈ l, x.name ≠ f.name) →
      l.map (fun x => if x.name = g.name then g else x) = l := by
    intro l hl
    refine (List.map_congr_left fun x hx => ?_).trans (List.map_id l)
    rw [if_neg (hg ▸ hl x hx), id]
  rw [replace, hc, List.map_append, List.map_cons, if_pos hg.symm,
    hkeep before fun x hx => hother x (List.mem_append_left _ hx),
    hkeep after fun x hx => hother x (List.mem_append_right _ hx)]

theorem names_replace (c : Catalog) (g : Facility) : (c.replace g).names = c.names := by
  simp only [names, replace, List.map_map]
  refine List.map_congr_left fun x _ => ?_
  simp only [Function.comp_apply]
  split
  · next h => exact h.symm
  · rfl

private theorem mem_replace {x : Facility} (h : x ∈ (c.replace g).facilities) :
    x = g ∨ x ∈ c.facilities := by
  obtain ⟨y, hy, hx⟩ := List.mem_map.mp h
  split at hx
  · exact .inl hx.symm
  · exact .inr (hx ▸ hy)

/-- What the bookings of a catalog have to be. -/
structure Safe (c : Catalog) : Prop where
  days : ∀ f ∈ c.facilities, ∀ day, f.SafeOn day
  ids : (c.bookings.map (·.id)).Nodup

end Catalog

/-! ## What a request does -/

namespace BookingService

variable {supply : IdSupply} {s s' : BookingService}

/-- What a request leaves behind: the same catalog, or one facility changed. -/
inductive Step (supply : IdSupply) (s : BookingService) : BookingService → Prop
  | idle : Step supply s s
  | thinned {f g : Facility} (found : s.catalog.get? f.name = some f) (thinned : f.Thinned g) :
      Step supply s ⟨s.catalog.replace g, s.issued⟩
  | booked {f g : Facility} {b : Booking} (found : s.catalog.get? f.name = some f)
      (thinned : f.Thinned g) (id : b.id = supply s.issued)
      (free : g.isBookable b.slot none = true) (proper : b.slot.start < b.slot.finish) :
      Step supply s ⟨s.catalog.replace (g.withBooking b), s.issued + 1⟩

theorem Effect.step {call : Call} {request : Envelope} {monitors : Registry}
    {after : Except Fault Outcome × BookingService × Registry}
    (h : Effect supply call request s monitors after) : Step supply s after.2.1 := by
  cases h with
  | refused fault kind => exact .idle
  | answered payload op => exact .idle
  | rated payload rating asked found => exact .thinned found ⟨rfl, rfl, fun _ => .refl _⟩
  | subscribed payload op asked => exact .idle
  | @booked f slot op found free proper => exact .booked found (.refl f) rfl free proper
  | moved op named found removed held free proper =>
    exact .booked found removed.thinned rfl free proper
  | cancelled payload op named found removed held => exact .thinned found removed.thinned

/-- Every request takes one step, whoever sends it and whatever it says. -/
theorem handle_step (supply : IdSupply) (call : Call) (request : Envelope) (s : BookingService)
    (monitors : Registry) : Step supply s (handle supply call request (s, monitors)).2.1 :=
  (handle_effect supply call request s monitors).step

/-! ## What every request keeps -/

/-- The invariant of the service. The ids of its bookings were all taken from the supply. -/
structure Sound (supply : IdSupply) (s : BookingService) : Prop where
  names : s.catalog.names.Nodup
  days : ∀ f ∈ s.catalog.facilities, ∀ day, f.SafeOn day
  issued : ∀ b ∈ s.catalog.bookings, ∃ n < s.issued, b.id = supply n
  ids : Set.InjOn supply {n | n < s.issued} → (s.catalog.bookings.map (·.id)).Nodup

private theorem Sound.safe (hs : Sound supply s) (hfresh : Set.InjOn supply {n | n < s.issued}) :
    s.catalog.Safe := ⟨hs.days, hs.ids hfresh⟩

private theorem bookings_thinned {c : Catalog} {f g : Facility} (hn : c.names.Nodup)
    (hf : c.get? f.name = some f) (h : f.Thinned g) :
    (c.replace g).bookings.Sublist c.bookings := by
  obtain ⟨before, after, hc, hr⟩ := Catalog.exists_replace hn hf
  simp only [Catalog.bookings, hc, hr g h.name, List.flatMap_append, List.flatMap_cons]
  exact (List.Sublist.refl _).append ((Week.flatten_sublist h.bookings).append (.refl _))

private theorem bookings_booked {c : Catalog} {f g : Facility} (hn : c.names.Nodup)
    (hf : c.get? f.name = some f) (hg : g.name = f.name) (b : Booking) :
    (c.replace (g.withBooking b)).bookings.Perm (b :: (c.replace g).bookings) := by
  obtain ⟨before, after, -, hr⟩ := Catalog.exists_replace hn hf
  simp only [Catalog.bookings, hr g hg, hr (g.withBooking b) hg, List.flatMap_append,
    List.flatMap_cons]
  have hweek := Week.flatten_concat_perm g.bookings b.slot.day b
  exact ((hweek.append_right _).append_left _).trans List.perm_middle

theorem sound_step (hs : Sound supply s) (h : Step supply s s') : Sound supply s' := by
  cases h with
  | idle => exact hs
  | @thinned f g hf h =>
    have hsub := bookings_thinned hs.names hf h
    refine ⟨?_, fun x hx day => ?_, fun b hb => hs.issued b (hsub.subset hb), fun hfresh => ?_⟩
    · rw [Catalog.names_replace]
      exact hs.names
    · rcases Catalog.mem_replace hx with rfl | hx
      · exact (hs.days f (List.mem_of_find?_eq_some hf) day).thinned h
      · exact hs.days x hx day
    · exact (hs.ids hfresh).sublist (hsub.map _)
  | @booked f g b hf h hid hfree hlt =>
    have hsub := bookings_thinned hs.names hf h
    have hperm := bookings_booked hs.names hf h.name b
    refine ⟨?_, fun x hx day => ?_, fun a ha => ?_, fun hfresh => ?_⟩
    · rw [Catalog.names_replace]
      exact hs.names
    · rcases Catalog.mem_replace hx with rfl | hx
      · exact ((hs.days f (List.mem_of_find?_eq_some hf) day).thinned h).withBooking hfree hlt
      · exact hs.days x hx day
    · rcases List.mem_cons.mp (hperm.mem_iff.mp ha) with rfl | ha
      · exact ⟨s.issued, Nat.lt_succ_self _, hid⟩
      · obtain ⟨n, hn, hid⟩ := hs.issued a (hsub.subset ha)
        exact ⟨n, Nat.lt_succ_of_lt hn, hid⟩
    · -- The new id is the next of the supply, and all others are from before it.
      have hold := hs.ids (hfresh.mono fun n hn => Nat.lt_succ_of_lt hn)
      have hkept := hold.sublist (hsub.map (·.id))
      refine ((hperm.map _).nodup_iff).mpr (List.nodup_cons.mpr ⟨fun hm => ?_, hkept⟩)
      obtain ⟨a, ha, he⟩ := List.mem_map.mp hm
      obtain ⟨n, hn, ha⟩ := hs.issued a (hsub.subset ha)
      have hsame : n = s.issued :=
        hfresh (Nat.lt_succ_of_lt hn) (Nat.lt_succ_self _) (ha.symm.trans (he.trans hid))
      omega

/-! ## The run of a service -/

/-- The state after some requests, one after another. -/
def run (supply : IdSupply) (requests : List (Call × Envelope))
    (state : BookingService × Registry) : BookingService × Registry :=
  requests.foldl (fun state r => (handle supply r.1 r.2 state).2) state

theorem sound_run (requests : List (Call × Envelope)) {state : BookingService × Registry}
    (hs : Sound supply state.1) : Sound supply (run supply requests state).1 := by
  induction requests generalizing state with
  | nil => exact hs
  | cons r rest ih => exact ih (sound_step hs (handle_step supply r.1 r.2 state.1 state.2))

/-- Facilities start with their hours and without bookings. -/
theorem opening_ok {name : String} {opening : List Config.Opening} {f : Facility}
    (h : opening.foldlM (fun f o => do
      let (opens, closes) ← o.times
      f.setHours o.day opens closes) (Facility.named name) = .ok f) :
    f.bookings = .all [] := by
  refine foldlM_ok (P := fun f => f.bookings = .all []) (fun g o g' hg h => ?_) rfl h
  obtain ⟨⟨opens, closes⟩, -, h⟩ := bind_eq_ok.mp h
  exact (Facility.setHours_ok h).trans hg

/-- A catalog that is being filled: unique names, and no bookings. -/
structure Filled (c : Catalog) : Prop where
  names : c.names.Nodup
  empty : ∀ f ∈ c.facilities, f.bookings = .all []

private theorem filled_add {c c' : Catalog} {f : Facility} (hc : Filled c)
    (hf : f.bookings = .all []) (h : c.add f = .ok c') : Filled c' := by
  unfold Catalog.add at h
  split at h
  · cases h
  · next hnew =>
    cases h
    refine ⟨?_, fun g hg => ?_⟩
    · have hfresh : f.name ∉ c.names := by
        intro hm
        obtain ⟨g, hg, he⟩ := List.mem_map.mp hm
        refine hnew (List.find?_isSome.mpr ⟨g, hg, ?_⟩)
        exact beq_iff_eq.mpr he
      rw [Catalog.names, List.map_append, List.map_singleton, List.nodup_append]
      refine ⟨hc.names, List.nodup_singleton _, fun a ha b hb he => hfresh ?_⟩
      rw [← List.mem_singleton.mp hb, ← he]
      exact ha
    · rcases List.mem_append.mp hg with hg | hg
      · exact hc.empty g hg
      · rw [List.mem_singleton.mp hg, hf]

theorem filled_ofSettings {settings : List Config.FacilitySettings}
    (h : ofSettings settings = .ok s) : Filled s.catalog := by
  obtain ⟨catalog, hcatalog, h⟩ := bind_eq_ok.mp h
  cases h
  have hempty : Filled Catalog.empty := ⟨List.nodup_nil, fun f hf => nomatch hf⟩
  refine foldlM_ok (P := Filled) (fun c o c' hc h => ?_) hempty hcatalog
  obtain ⟨f, hf, h⟩ := bind_eq_ok.mp h
  exact filled_add hc (opening_ok hf) h

theorem sound_start (supply : IdSupply) (h : Filled s.catalog) : Sound supply s := by
  have hnone : s.catalog.bookings = [] := by
    refine List.flatMap_eq_nil_iff.mpr fun f hf => ?_
    rw [h.empty f hf]
    simp [Week.flatten]
  refine ⟨h.names, fun f hf day => ?_, by simp [hnone], fun _ => by simp [hnone]⟩
  constructor <;> simp [h.empty f hf]

/-- **Bookings are safe** in every state of a service that started from settings, whatever the
requests and the clients, as long as the supply has never given an id twice. -/
theorem bookings_safe {settings : List Config.FacilitySettings} {s₀ : BookingService}
    (hs : ofSettings settings = .ok s₀) (monitors : Registry) (requests : List (Call × Envelope))
    (hfresh : Set.InjOn supply {n | n < (run supply requests (s₀, monitors)).1.issued}) :
    (run supply requests (s₀, monitors)).1.catalog.Safe :=
  (sound_run requests (sound_start supply (filled_ofSettings hs))).safe hfresh

/-- One facility that is open on a day. -/
def sampleSettings : List Config.FacilitySettings := [⟨"Gym", [⟨.saturday, "09:00", "18:00"⟩]⟩]

/-- The service of these settings. -/
def sampleStart : BookingService :=
  ⟨⟨[{ Facility.named "Gym" with
    hours := (Week.all none).set .saturday (some ⟨⟨9, 0⟩, ⟨18, 0⟩⟩) }]⟩, 0⟩

def sampleIds : IdSupply := .random (.seeded 1) (.seeded 2)

def sampleClient (n : UInt8) : Address := ⟨.v4 10 0 0 n, 7000⟩

def sampleCall (n : UInt8) : Call := ⟨sampleClient n, ⟨0⟩⟩

def sampleBooking (id : Int32) : Envelope := .of .write id "Gym,saturday,9,0,11,0"

def sampleSubscription (id : Int32) (seconds : String) : Envelope :=
  .of .monitor id ("register,Gym," ++ seconds)

/-- What subscribers are told after the booking. -/
def sampleNotice : String :=
  "status:SUCCESS\nfacility:Gym\navailableTimeslots:\nSATURDAY:1100 - 1800,\n"

theorem sampleIds_injOn : Set.InjOn sampleIds {n | n < 3} := by
  have hids : ∀ a < 3, ∀ b < 3, sampleIds a = sampleIds b → a = b := by decide +kernel
  exact fun a ha b hb => hids a ha b hb

/-- Two clients: the first moves a booking so that it overlaps the old one, the second fails to
cancel it and books what has become free. -/
def sampleRequests : List (Call × Envelope) :=
  let ann := sampleCall 1
  let bob := sampleCall 2
  [(ann, sampleBooking 1),
    (ann, .of .update 2 ("booking," ++ sampleIds 0 ++ ",Gym,saturday,10,0,12,0")),
    (bob, .of .delete 3 (sampleIds 1 ++ ",Gym")),
    (bob, .of .write 4 "Gym,saturday,9,0,10,0")]

theorem bookings_safe_sample :
    (run sampleIds sampleRequests (sampleStart, .empty)).1.catalog.Safe ∧
      (run sampleIds sampleRequests (sampleStart, .empty)).1.catalog.bookings.map
          (fun b => (b.id, b.slot)) =
        [(sampleIds 1, ⟨.saturday, ⟨10, 0⟩, ⟨12, 0⟩⟩),
          (sampleIds 2, ⟨.saturday, ⟨9, 0⟩, ⟨10, 0⟩⟩)] := by
  have hstart : ofSettings sampleSettings = .ok sampleStart := rfl
  have hissued : (run sampleIds sampleRequests (sampleStart, .empty)).1.issued = 3 := by
    decide +kernel
  have hids : ∀ a < 3, ∀ b < 3, sampleIds a = sampleIds b → a = b := by decide +kernel
  refine ⟨bookings_safe hstart .empty sampleRequests fun a ha b hb h => ?_, by decide +kernel⟩
  rw [Set.mem_ofPred_eq, hissued] at ha hb
  exact hids a ha b hb h

end BookingService

end DatagramRpc
