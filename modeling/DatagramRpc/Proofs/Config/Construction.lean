import DatagramRpc.Facility.Service
import DatagramRpc.Proofs.Failure
import DatagramRpc.Proofs.Lookup

/-!
# What passes the check can be built

Settings are checked in one place and facilities are built in another. The check asks that every
opening has two times, the first before the second, that no day comes twice and no name comes twice.
Nothing else can go wrong when the facilities are built, and no opening takes the place of another.
-/

namespace DatagramRpc

open Config

/-! ## What the check asks for -/

/-- An opening with two times, the first before the second. -/
def Config.Opening.Sound (o : Opening) : Prop :=
  ∃ opens closes, o.times = .ok (opens, closes) ∧ opens < closes

private theorem Config.checkOpenings_iff {facility : String} {seen : List Weekday}
    {opening : List Opening} :
    checkOpenings facility seen opening = .ok () ↔
      (∀ o ∈ opening, o.Sound) ∧ (opening.map (·.day)).Nodup ∧ ∀ o ∈ opening, o.day ∉ seen := by
  induction opening generalizing seen with
  | nil => simp [checkOpenings]
  | cons o rest ih =>
    have hfirst : checkOpenings facility seen (o :: rest) = .ok () ↔
        o.Sound ∧ o.day ∉ seen ∧ checkOpenings facility (o.day :: seen) rest = .ok () := by
      have hlt (opens closes : ClockTime) : opens < closes ↔ ¬ closes ≤ opens := Nat.not_le.symm
      rw [checkOpenings, bind_eq_ok, Prod.exists]
      simp only [unless_throw_eq_ok, Opening.Sound, hlt, ← and_assoc, exists_and_right]
    rw [hfirst, ih, List.forall_mem_cons, nodup_unseen_cons_iff]
    exact ⟨fun ⟨ho, hnew, hrest, hapart⟩ => ⟨⟨ho, hrest⟩, hnew, hapart⟩,
      fun ⟨⟨ho, hrest⟩, hnew, hapart⟩ => ⟨ho, hnew, hrest, hapart⟩⟩

theorem Config.checkFacilities_iff {seen : List String} {facilities : List FacilitySettings} :
    checkFacilities seen facilities = .ok () ↔
      (∀ f ∈ facilities, f.check = .ok ()) ∧ (facilities.map (·.name)).Nodup ∧
      ∀ f ∈ facilities, f.name ∉ seen := by
  induction facilities generalizing seen with
  | nil => simp [checkFacilities]
  | cons f rest ih =>
    have hfirst : checkFacilities seen (f :: rest) = .ok () ↔
        f.check = .ok () ∧ f.name ∉ seen ∧ checkFacilities (f.name :: seen) rest = .ok () := by
      rw [checkFacilities, bind_eq_ok]
      simp only [unless_throw_eq_ok, exists_and_right]
      exact and_congr_left' ⟨fun ⟨_, h⟩ => h, fun h => ⟨(), h⟩⟩
    rw [hfirst, ih, List.forall_mem_cons, nodup_unseen_cons_iff]
    exact ⟨fun ⟨hf, hnew, hrest, hapart⟩ => ⟨⟨hf, hrest⟩, hnew, hapart⟩,
      fun ⟨⟨hf, hrest⟩, hnew, hapart⟩ => ⟨hf, hnew, hrest, hapart⟩⟩

/-- A facility passes if its name is not empty and holds no comma, and its openings are sound, each
on a day of its own. -/
theorem Config.FacilitySettings.check_iff {f : FacilitySettings} :
    f.check = .ok () ↔
      (f.name ≠ "" ∧ ',' ∉ f.name.toList) ∧ (∀ o ∈ f.opening, o.Sound) ∧
      (f.opening.map (·.day)).Nodup := by
  rw [FacilitySettings.check]
  simp only [unless_throw_eq_ok, checkOpenings_iff]
  simp

theorem Config.Settings.checkFacilities_of_check {s : Settings} (h : s.check = .ok ()) :
    checkFacilities [] s.facilities = .ok () := by
  rw [Settings.check] at h
  simp only [unless_throw_eq_ok, bind_eq_ok] at h
  obtain ⟨-, _, -, -, _, -, hfacilities⟩ := h
  exact hfacilities

/-! ## Building a facility -/

/-- A facility as its settings describe it: open at their times on their days and on no other day,
with nothing booked and nothing rated. -/
structure Config.FacilitySettings.Describes (settings : FacilitySettings) (f : Facility) :
    Prop where
  name : f.name = settings.name
  listed : ∀ o ∈ settings.opening, ∃ opens closes,
    o.times = .ok (opens, closes) ∧ f.hours.get o.day = some ⟨opens, closes⟩
  unlisted : ∀ day ∉ settings.opening.map (·.day), f.hours.get day = none
  unbooked : ∀ day, f.bookings.get day = []
  unrated : f.rating = .none

/-- All openings of a facility, one after another. -/
def Facility.openAll (f : Facility) (opening : List Opening) : Except Fault Facility :=
  opening.foldlM (fun f o => do
    let (opens, closes) ← o.times
    f.setHours o.day opens closes) f

/-- Openings on days of their own all take effect, and change nothing else. -/
structure Opened (opening : List Opening) (f g : Facility) : Prop where
  rest : g = { f with hours := g.hours }
  listed : ∀ o ∈ opening, ∃ opens closes, o.times = .ok (opens, closes) ∧
    g.hours.get o.day = some ⟨opens, closes⟩
  unlisted : ∀ day ∉ opening.map (·.day), g.hours.get day = f.hours.get day

private theorem exists_opened {opening : List Opening} (hsound : ∀ o ∈ opening, o.Sound)
    (hdays : (opening.map (·.day)).Nodup) (f : Facility) :
    ∃ g, f.openAll opening = .ok g ∧ Opened opening f g := by
  induction opening generalizing f with
  | nil => exact ⟨f, rfl, rfl, fun o ho => (nomatch ho), fun _ _ => rfl⟩
  | cons o opening ih =>
    obtain ⟨⟨opens, closes, htimes, hlt⟩, hothers⟩ := List.forall_mem_cons.mp hsound
    obtain ⟨hnew, hdays⟩ := List.nodup_cons.mp hdays
    have hset : f.setHours o.day opens closes =
        .ok { f with hours := f.hours.set o.day (some ⟨opens, closes⟩) } := by
      rw [Facility.setHours, if_pos hlt]
    obtain ⟨g, hg, hopened⟩ :=
      ih hothers hdays { f with hours := f.hours.set o.day (some ⟨opens, closes⟩) }
    refine ⟨g, ?_, hopened.rest, ?_, fun day hday => ?_⟩
    · rw [Facility.openAll, List.foldlM_cons, htimes]
      exact bind_eq_ok.mpr ⟨_, hset, hg⟩
    · -- The openings after this one are on other days.
      have hown : g.hours.get o.day = some ⟨opens, closes⟩ := by
        rw [hopened.unlisted o.day hnew, Week.get_set_self]
      exact List.forall_mem_cons.mpr ⟨⟨opens, closes, htimes, hown⟩, hopened.listed⟩
    · rw [List.map_cons, List.mem_cons, not_or] at hday
      rw [hopened.unlisted day hday.2, Week.get_set_of_ne (Ne.symm hday.1)]

private theorem exists_described {settings : FacilitySettings} (h : settings.check = .ok ()) :
    ∃ f, (Facility.named settings.name).openAll settings.opening = .ok f ∧
      settings.Describes f := by
  obtain ⟨-, hsound, hdays⟩ := FacilitySettings.check_iff.mp h
  obtain ⟨f, hf, hopened⟩ := exists_opened hsound hdays (Facility.named settings.name)
  refine ⟨f, hf, ?_, hopened.listed, fun day hday => ?_, fun day => ?_, ?_⟩
  · rw [hopened.rest]
    rfl
  · rw [hopened.unlisted day hday, Facility.named, Week.get_all]
  · rw [hopened.rest, Facility.named, Week.get_all]
  · rw [hopened.rest]
    rfl

/-! ## Building the catalog -/

/-- Adds the facilities of some settings to a catalog. -/
def Catalog.addAll (c : Catalog) (facilities : List FacilitySettings) : Except Fault Catalog :=
  facilities.foldlM (fun c settings => do
    c.add (← (Facility.named settings.name).openAll settings.opening)) c

private theorem Catalog.add_of_notMem {c : Catalog} {f : Facility} (hnew : f.name ∉ c.names) :
    c.add f = .ok ⟨c.facilities ++ [f]⟩ := by
  have hmissing : c.get? f.name = none := by
    refine List.find?_eq_none.mpr fun g hg he => hnew ?_
    exact beq_iff_eq.mp he ▸ List.mem_map_of_mem hg
  rw [add, hmissing]
  rfl

/-- Facilities with names of their own, which the catalog does not have yet, are added in their
order. -/
theorem exists_added {facilities : List FacilitySettings} {c : Catalog}
    (hchecked : ∀ settings ∈ facilities, settings.check = .ok ())
    (hnames : (facilities.map (·.name)).Nodup)
    (hnew : ∀ settings ∈ facilities, settings.name ∉ c.names) :
    ∃ added, c.addAll facilities = .ok ⟨c.facilities ++ added⟩ ∧
      List.Forall₂ FacilitySettings.Describes facilities added := by
  induction facilities generalizing c with
  | nil => exact ⟨[], by rw [List.append_nil]; rfl, .nil⟩
  | cons settings facilities ih =>
    obtain ⟨hfirst, hothers⟩ := List.forall_mem_cons.mp hchecked
    obtain ⟨hunseen, hnames, hnew⟩ := nodup_unseen_cons_iff.mp ⟨hnames, hnew⟩
    obtain ⟨f, hf, hdescribes⟩ := exists_described hfirst
    have hadd := Catalog.add_of_notMem (hdescribes.name ▸ hunseen)
    have hafter : ∀ settings ∈ facilities,
        settings.name ∉ (⟨c.facilities ++ [f]⟩ : Catalog).names := by
      intro other hother hmem
      refine hnew other hother ?_
      simpa [Catalog.names, hdescribes.name, or_comm] using hmem
    obtain ⟨added, hadded, hdescribe⟩ := ih hothers hnames hafter
    refine ⟨f :: added, ?_, .cons hdescribes hdescribe⟩
    rw [Catalog.addAll, List.foldlM_cons, hf, ← List.singleton_append, ← List.append_assoc]
    exact bind_eq_ok.mpr ⟨_, hadd, hadded⟩

namespace BookingService

/-- **Settings that pass the check can be built**: the service has the configured facilities in
their order, unbooked and unrated, each with its hours. -/
theorem ofSettings_of_check {s : Settings} (h : s.check = .ok ()) :
    ∃ service, ofSettings s.facilities = .ok service ∧
      List.Forall₂ FacilitySettings.Describes s.facilities service.catalog.facilities ∧
      service.issued = 0 := by
  obtain ⟨hchecked, hnames, -⟩ := checkFacilities_iff.mp (Settings.checkFacilities_of_check h)
  have hnew : ∀ settings ∈ s.facilities, settings.name ∉ Catalog.empty.names :=
    fun _ _ hc => (nomatch hc)
  obtain ⟨added, hadded, hdescribe⟩ := exists_added hchecked hnames hnew
  exact ⟨⟨⟨added⟩, 0⟩, bind_eq_ok.mpr ⟨_, hadded, rfl⟩, hdescribe, rfl⟩

theorem ofSettings_of_check_default :
    Settings.default.check = .ok () ∧
    ∃ service, ofSettings Settings.default.facilities = .ok service ∧
      List.Forall₂ FacilitySettings.Describes Settings.default.facilities
        service.catalog.facilities ∧ service.issued = 0 := by
  have hcheck : Settings.default.check = .ok () := by rfl
  exact ⟨hcheck, ofSettings_of_check hcheck⟩

end BookingService

end DatagramRpc
