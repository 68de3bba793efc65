import DatagramRpc.Proofs.Config.Construction
import DatagramRpc.Proofs.Facility.Safety

/-!
# Names that requests can use

The check of settings refuses names that cannot stand between commas. Requests are read more
strictly: blanks around a word are dropped, and one word asks for the list of all facilities where
the name of one is expected. So a facility is reached under its name exactly if the name begins and
ends without a blank and, for what is free there, is not that word. This holds from the start and
after any requests, since no request changes a name.
-/

namespace DatagramRpc.BookingService

open Config

/-! ## Requests for a facility -/

/-- What is free at a facility on all days. -/
def listingText (f : Facility) : String :=
  "status:SUCCESS\nfacility:" ++ f.name ++ "\navailableTimeslots:\n" ++
    String.join (Weekday.all.map (dayListing f))

def ratingText (f : Facility) : String :=
  "status:SUCCESS\nfacility:" ++ f.name ++ "\nrating:" ++ Double.fixed 1 f.rating.average.toBits

/-- Asking for a facility by its name tells what is free there. -/
def Listed (supply : IdSupply) (state : BookingService × Registry) (name : String) (f : Facility) :
    Prop :=
  ∀ (call : Call) (request : Envelope), request.operation = .read →
    request.payload = ",".intercalate ["facility", name] →
    handle supply call request state = (.ok (.plain (listingText f)), state)

/-- All other requests with the name of a facility and arguments that can be read are requests for
this facility. -/
structure Served (supply : IdSupply) (state : BookingService × Registry) (name : String)
    (f : Facility) : Prop where
  rating : ∀ (call : Call) (request : Envelope), request.operation = .read →
    request.payload = ",".intercalate ["rating", name] →
    handle supply call request state = (.ok (.plain (ratingText f)), state)
  /-- The slot is booked there, or refused and nothing is changed. -/
  booking : ∀ (call : Call) (request : Envelope) (day sh sm eh em : String) (slot : Slot),
    (∀ w ∈ [day, sh, sm, eh, em], ',' ∉ w.toList) →
    slotOf (Text.trim day) (Text.trim sh) (Text.trim sm) (Text.trim eh) (Text.trim em) = .ok slot →
    request.operation = .write → request.payload = ",".intercalate [name, day, sh, sm, eh, em] →
    let id := supply state.1.issued
    handle supply call request state = match f.book id call.client.render slot with
      | .ok g => (.ok ⟨bookedText name ⟨id, call.client.render, slot⟩, some name⟩,
          ⟨state.1.catalog.replace g, state.1.issued + 1⟩, state.2)
      | .error fault => (.error fault, state)
  monitoring : ∀ (call : Call) (request : Envelope) (secs : String) (n : Nat), ',' ∉ secs.toList →
    Text.readUnsigned (Text.greatestUnsigned 64) (Text.trim secs) = some n →
    request.operation = .monitor → request.payload = ",".intercalate ["register", name, secs] →
    handle supply call request state =
      (.ok (.plain ("status:SUCCESS\nfacility:" ++ name ++ "\ninterval:" ++ toString n)), state.1,
        state.2.register ⟨name, request.id, call.client, call.now, .ofSeconds n⟩)

variable {supply : IdSupply} {state : BookingService × Registry} {name : String} {f : Facility}

/-- The words of a request that names a facility after a command. -/
theorem words_command (command : String) (rest : List String) (hcommand : ',' ∉ command.toList)
    (hcomma : ',' ∉ name.toList) (hrest : ∀ w ∈ rest, ',' ∉ w.toList)
    (htrim : Text.trim command = command) :
    words (",".intercalate (command :: name :: rest)) =
      command :: Text.trim name :: rest.map Text.trim := by
  have hcommas : ∀ w ∈ command :: name :: rest, ',' ∉ w.toList :=
    List.forall_mem_cons.mpr ⟨hcommand, List.forall_mem_cons.mpr ⟨hcomma, hrest⟩⟩
  rw [words_intercalate (List.cons_ne_nil _ _) hcommas, List.map_cons, List.map_cons, htrim]

private theorem listed (hfound : state.1.catalog.get? name = some f) (hcomma : ',' ∉ name.toList)
    (htrim : Text.trim name = name) (hall : name ≠ "ALL") : Listed supply state name f := by
  intro call request hop hpayload
  have hwords : words request.payload = ["facility", name] := by
    rw [hpayload, words_command "facility" [] (by decide) hcomma (by simp) (by decide), htrim]
    rfl
  rw [handle_of_read hop, hwords, read]
  · rw [List.mapM_nil, pure_bind, availability, Catalog.require_of_get? hfound]
    rfl
  · simpa using hall

/-- The word in the place of a name asks for all facilities instead. -/
theorem not_listed_all : ¬ Listed supply state "ALL" f := by
  intro hlisted
  have hasked := hlisted ⟨⟨.v4 127 0 0 1, 0⟩, ⟨0⟩⟩ (.of .read 0 "facility,ALL") rfl rfl
  have hwords : words (Envelope.of .read 0 "facility,ALL").payload = ["facility", "ALL"] := by
    show words "facility,ALL" = _
    decide
  rw [handle_of_read rfl, hwords, read] at hasked
  have htext := congrArg Outcome.payload (Except.ok.inj (Prod.mk.inj hasked).1)
  -- The two texts part where one of them says that names follow.
  have hstart (start rest : String) (hlong : 23 < start.toList.length) :
      (start ++ rest).toList[23]? = start.toList[23]? := by
    rw [String.toList_append, List.getElem?_append_left hlong]
  have hnames (rest : String) : ("status:SUCCESS\nfacilityNames:" ++ rest).toList[23]? = some 'N' :=
    (hstart _ rest (by decide)).trans (by decide)
  have hfacility (rest : String) : ("status:SUCCESS\nfacility:" ++ rest).toList[23]? = some ':' :=
    (hstart _ rest (by decide)).trans (by decide)
  have hlisting : listingText f = "status:SUCCESS\nfacility:" ++ (f.name ++
      ("\navailableTimeslots:\n" ++ String.join (Weekday.all.map (dayListing f)))) :=
    (String.append_assoc ..).trans (String.append_assoc ..)
  have hchar : some 'N' = some ':' := calc
    some 'N' = _ := (hnames _).symm
    _ = _ := congrArg (fun text : String => text.toList[23]?) (htext.trans hlisting)
    _ = some ':' := hfacility _
  exact absurd hchar (by decide)

/-- A booking at a facility that is found. -/
theorem book_found {s : BookingService} {owner day sh sm eh em : String} {slot : Slot}
    (hfound : s.catalog.get? name = some f) (hslot : slotOf day sh sm eh em = .ok slot) :
    s.book supply owner [name, day, sh, sm, eh, em] =
      (f.book (supply s.issued) owner slot).map fun g =>
      (⟨bookedText name ⟨supply s.issued, owner, slot⟩, some name⟩,
        ⟨s.catalog.replace g, s.issued + 1⟩) := by
  rw [book, hslot, Catalog.require_of_get? hfound]
  rfl

private theorem served (hfound : state.1.catalog.get? name = some f) (hcomma : ',' ∉ name.toList)
    (htrim : Text.trim name = name) : Served supply state name f where
  rating call request hop hpayload := by
    have hwords : words request.payload = ["rating", name] := by
      rw [hpayload, words_command "rating" [] (by decide) hcomma (by simp) (by decide), htrim]
      rfl
    rw [handle_of_read hop, hwords, read, Catalog.require_of_get? hfound]
    rfl
  booking call request day sh sm eh em slot hcommas hslot hop hpayload := by
    have hwords : words request.payload =
        [name, Text.trim day, Text.trim sh, Text.trim sm, Text.trim eh, Text.trim em] := by
      rw [hpayload,
        words_intercalate (List.cons_ne_nil _ _) (List.forall_mem_cons.mpr ⟨hcomma, hcommas⟩),
        List.map_cons, htrim]
      rfl
    simp only [handle, hop, hwords, book_found hfound hslot]
    cases f.book (supply state.1.issued) call.client.render slot <;> rfl
  monitoring call request secs n hsecs hnumber hop hpayload := by
    have hwords : words request.payload = ["register", name, Text.trim secs] := by
      rw [hpayload, words_command "register" [secs] (by decide) hcomma (by simpa using hsecs)
        (by decide), htrim]
      rfl
    simp only [handle, hop, hwords, subscribe, hnumber, hfound]
    rfl

/-- Whoever subscribes is registered for the name without the blanks around it, if at all. So a name
that serves its facility has none. -/
theorem trim_of_served (hserved : Served supply state name f) (hcomma : ',' ∉ name.toList) :
    Text.trim name = name := by
  obtain ⟨call⟩ : Nonempty Call := ⟨⟨⟨.v4 127 0 0 1, 0⟩, ⟨0⟩⟩⟩
  obtain ⟨request, hop, hpayload⟩ : ∃ request : Envelope,
      request.operation = .monitor ∧ request.payload = ",".intercalate ["register", name, "1"] :=
    ⟨.of .monitor 0 _, rfl, rfl⟩
  have hnumber : Text.readUnsigned (Text.greatestUnsigned 64) (Text.trim "1") = some 1 := by decide
  have hasked := hserved.monitoring call request "1" 1 (by decide) hnumber hop hpayload
  have hwords : words request.payload = ["register", Text.trim name, "1"] := by
    rw [hpayload, words_command "register" ["1"] (by decide) hcomma (by decide) (by decide)]
    rfl
  have hone : Text.readUnsigned (Text.greatestUnsigned 64) "1" = some 1 := by decide
  simp only [handle, hop, hwords, subscribe, hone] at hasked
  cases hfound : state.1.catalog.get? (Text.trim name) with
  | none =>
    rw [hfound] at hasked
    cases (Prod.mk.inj hasked).1
  | some g =>
    rw [hfound] at hasked
    have hregistry := congrArg Registry.records (Prod.mk.inj (Prod.mk.inj hasked).2).2
    have hlast := List.append_cancel_left hregistry
    exact (MonitorRecord.mk.inj (List.cons.inj hlast).1).1

/-! ## The main statement -/

private theorem names_run (supply : IdSupply) (requests : List (Call × Envelope))
    (state : BookingService × Registry) :
    (run supply requests state).1.catalog.names = state.1.catalog.names := by
  induction requests generalizing state with
  | nil => rfl
  | cons r requests ih =>
    have hstep := handle_step supply r.1 r.2 state.1 state.2
    refine (ih _).trans ?_
    generalize (handle supply r.1 r.2 state).2.1 = after at hstep
    cases hstep with
    | idle => rfl
    | thinned found thinned => exact Catalog.names_replace ..
    | booked found thinned id free proper => exact Catalog.names_replace ..

private theorem name_openAll {f g : Facility} {opening : List Opening}
    (h : f.openAll opening = .ok g) : g.name = f.name := by
  refine foldlM_ok (P := fun g : Facility => g.name = f.name) (fun g o g' hg h => ?_) rfl h
  obtain ⟨⟨opens, closes⟩, -, h⟩ := bind_eq_ok.mp h
  have hset : g.setHours o.day opens closes = .ok g' := h
  unfold Facility.setHours at hset
  split at hset
  · cases hset
    exact hg
  · cases hset

private theorem names_addAll {c c' : Catalog} {facilities : List FacilitySettings}
    (h : c.addAll facilities = .ok c') : c'.names = c.names ++ facilities.map (·.name) := by
  induction facilities generalizing c with
  | nil =>
    cases h
    exact (List.append_nil _).symm
  | cons settings facilities ih =>
    rw [Catalog.addAll, List.foldlM_cons] at h
    obtain ⟨next, hnext, h⟩ := bind_eq_ok.mp h
    obtain ⟨f, hf, hadd⟩ := bind_eq_ok.mp hnext
    rw [ih h]
    unfold Catalog.add at hadd
    split at hadd
    · cases hadd
    · cases hadd
      have hname : f.name = settings.name := name_openAll hf
      simp [Catalog.names, hname]

/-- A service has the facilities it was built with. -/
theorem names_ofSettings {facilities : List FacilitySettings} {s : BookingService}
    (h : ofSettings facilities = .ok s) : s.catalog.names = facilities.map (·.name) := by
  obtain ⟨catalog, hcatalog, h⟩ := bind_eq_ok.mp h
  cases h
  exact names_addAll hcatalog

/-- **Which names reach their facility**: those without a blank at either end and, for what is free
there, other than the word for all. -/
theorem reached_iff {settings : Settings} (hcheck : settings.check = .ok ())
    {service : BookingService} (hbuilt : ofSettings settings.facilities = .ok service)
    {facility : FacilitySettings} (hconfigured : facility ∈ settings.facilities) (supply : IdSupply)
    (monitors : Registry) (requests : List (Call × Envelope)) :
    let state := run supply requests (service, monitors)
    ∃ f, state.1.catalog.get? facility.name = some f ∧ f.name = facility.name ∧
      (Served supply state facility.name f ↔ Text.trim facility.name = facility.name) ∧
      (Served supply state facility.name f ∧ Listed supply state facility.name f ↔
        Text.trim facility.name = facility.name ∧ facility.name ≠ "ALL") := by
  intro state
  obtain ⟨hchecked, -, -⟩ := checkFacilities_iff.mp (Settings.checkFacilities_of_check hcheck)
  obtain ⟨⟨-, hcomma⟩, -, -⟩ := FacilitySettings.check_iff.mp (hchecked facility hconfigured)
  have hnamed : facility.name ∈ state.1.catalog.names := by
    rw [names_run, names_ofSettings hbuilt]
    exact List.mem_map_of_mem hconfigured
  obtain ⟨f, hfound⟩ : ∃ f, state.1.catalog.get? facility.name = some f := by
    obtain ⟨g, hg, hname⟩ := List.mem_map.mp hnamed
    exact Option.isSome_iff_exists.mp (List.find?_isSome.mpr ⟨g, hg, beq_iff_eq.mpr hname⟩)
  have hserved : Served supply state facility.name f ↔ Text.trim facility.name = facility.name :=
    ⟨fun h => trim_of_served h hcomma, served hfound hcomma⟩
  refine ⟨f, hfound, Catalog.get?_name hfound, hserved, ?_⟩
  rw [hserved]
  refine and_congr_right fun htrim => ⟨fun hlisted hall => ?_, listed hfound hcomma htrim⟩
  rw [hall] at hlisted
  exact not_listed_all hlisted

def gymSettings : Settings := { Settings.default with facilities := sampleSettings }

/-- A gym is reached, also after some requests. -/
theorem reached_iff_gym :
    let state := run sampleIds sampleRequests (sampleStart, .empty)
    gymSettings.check = .ok () ∧ ofSettings gymSettings.facilities = .ok sampleStart ∧
      gymSettings.facilities.map (·.name) = ["Gym"] ∧
      ∃ f, state.1.catalog.get? "Gym" = some f ∧ Served sampleIds state "Gym" f ∧
        Listed sampleIds state "Gym" f := by
  intro state
  have hcheck : gymSettings.check = .ok () := by rfl
  have hbuilt : ofSettings gymSettings.facilities = .ok sampleStart := by rfl
  have hconfigured : (⟨"Gym", [⟨.saturday, "09:00", "18:00"⟩]⟩ : FacilitySettings) ∈
      gymSettings.facilities :=
    List.mem_singleton.mpr rfl
  obtain ⟨f, hfound, -, -, hreached⟩ :=
    reached_iff hcheck hbuilt hconfigured sampleIds .empty sampleRequests
  exact ⟨hcheck, hbuilt, rfl, f, hfound, hreached.mpr ⟨by decide, by decide⟩⟩

def blankSettings : Settings :=
  { Settings.default with facilities := [⟨" Hall", [⟨.monday, "08:00", "17:00"⟩]⟩] }

def blankService : BookingService := (ofSettings blankSettings.facilities).toOption.getD ⟨.empty, 0⟩

/-- A name that begins with a blank passes the check, and nobody finds its facility. -/
theorem blank_name_not_found :
    blankSettings.check = .ok () ∧ ofSettings blankSettings.facilities = .ok blankService ∧
      blankService.catalog.names = [" Hall"] ∧
      handle sampleIds (sampleCall 1) (.of .read 1 "facility, Hall") (blankService, .empty) =
        (.error (.handler .facilityNotFound), blankService, .empty) := by
  refine ⟨by rfl, by rfl, by rfl, ?_⟩
  rw [handle_of_read rfl]
  rfl

end DatagramRpc.BookingService
