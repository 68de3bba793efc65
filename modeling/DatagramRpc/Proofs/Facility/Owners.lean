import DatagramRpc.Proofs.Facility.Changes

/-!
# Only its owner ends a booking

A booking can be read by everybody, in every later state, with the same owner, facility and slot,
until its owner cancels or moves it by a request that names it. After that nobody finds it. What
others ask for does not touch it, nor does a request that fails.

The ids have to be words and must not come back, and no other client may have the address of the
owner, as text.
-/

namespace DatagramRpc

/-! ## Ids as words of a request -/

namespace BookingService

/-- No commas and no blanks. -/
def IsWord (s : String) : Prop := ∀ c ∈ s.toList, c ≠ ',' ∧ Text.isBlank c = false

private theorem IsWord.append {a b : String} (ha : IsWord a) (hb : IsWord b) : IsWord (a ++ b) := by
  intro c hc
  rw [String.toList_append, List.mem_append] at hc
  exact hc.elim (ha c) (hb c)

private theorem isWord_digits (count n : Nat) : IsWord (IdSupply.digits count n) := by
  have hdigit : ∀ d : Fin 16, Nat.digitChar d ≠ ',' ∧ Text.isBlank (Nat.digitChar d) = false := by
    decide
  intro c hc
  rw [IdSupply.digits, String.toList_ofList] at hc
  obtain ⟨i, -, rfl⟩ := List.mem_map.mp hc
  exact hdigit ⟨_, Nat.mod_lt _ (by decide)⟩

/-- The usual ids are words. -/
theorem isWord_written (high low : UInt64) : IsWord (IdSupply.written high low) := by
  have hdash : IsWord "-" := by simp [IsWord, Text.isBlank]
  have hmark : IsWord "-4" := by simp [IsWord, Text.isBlank]
  have hdigits := isWord_digits
  have hfront (m n : Nat) := (((hdigits 8 m).append hdash).append (hdigits 4 n)).append hmark
  have hmiddle (k l m n : Nat) :=
    (((hfront k l).append (hdigits 3 m)).append hdash).append (hdigits 1 n)
  exact (((hmiddle _ _ _ _).append (hdigits 3 _)).append hdash).append (hdigits 12 _)

private theorem words_booking {id : String} (h : IsWord id) :
    words ("booking," ++ id) = ["booking", id] := by
  have hid : ',' ∉ id.toList := fun hc => (h ',' hc).1 rfl
  have htrim : Text.trim "booking" = "booking" := by decide
  have hwords := words_intercalate (List.cons_ne_nil "booking" [id])
    (List.forall_mem_cons.mpr ⟨by decide, List.forall_mem_singleton.mpr hid⟩)
  rw [List.map_cons, List.map_singleton, htrim,
    Text.trim_of_no_blank fun c hc => (h c hc).2] at hwords
  exact hwords

end BookingService

/-! ## Bookings with their facilities -/

namespace Catalog

variable {c : Catalog} {f g g' : Facility} {b : Booking} {id : String}

/-- All bookings, each with the name of its facility. -/
def entries (c : Catalog) : List (String × Booking) :=
  c.facilities.flatMap fun f => f.bookings.flatten.map fun b => (f.name, b)

private theorem mem_entries {e : String × Booking} :
    e ∈ c.entries ↔ ∃ f ∈ c.facilities, f.name = e.1 ∧ e.2 ∈ f.bookings.flatten := by
  obtain ⟨name, b⟩ := e
  simp only [entries, List.mem_flatMap, List.mem_map, Prod.mk.injEq]
  constructor
  · rintro ⟨f, hf, b, hb, hname, rfl⟩
    exact ⟨f, hf, hname, hb⟩
  · rintro ⟨f, hf, hname, hb⟩
    exact ⟨f, hf, b, hb, hname, rfl⟩

private theorem map_id_entries (c : Catalog) : c.entries.map (·.2.id) = c.bookings.map (·.id) := by
  simp only [entries, bookings, List.map_flatMap, List.map_map, Function.comp_def]

private theorem entries_replace (hn : c.names.Nodup) (hf : c.get? f.name = some f) :
    ∃ before after, ∀ g : Facility, g.name = f.name →
      (c.replace g).entries = before ++ g.bookings.flatten.map (fun b => (f.name, b)) ++ after := by
  obtain ⟨before, after, -, hreplace⟩ := exists_replace hn hf
  refine ⟨Catalog.entries ⟨before⟩, Catalog.entries ⟨after⟩, fun g hg => ?_⟩
  rw [entries, hreplace g hg, List.flatMap_append, List.flatMap_cons, hg, List.append_assoc]
  rfl

private theorem replace_self (hn : c.names.Nodup) (hf : c.get? f.name = some f) :
    c.replace f = c := by
  obtain ⟨before, after, hc, hreplace⟩ := exists_replace hn hf
  have hsame : (c.replace f).facilities = c.facilities := (hreplace f rfl).trans hc.symm
  exact congrArg Catalog.mk hsame

/-- A booking more at a facility is an entry more. -/
theorem entries_replace_perm (hn : c.names.Nodup) (hf : c.get? f.name = some f)
    (hg : g.name = f.name) (hg' : g'.name = f.name)
    (h : g.bookings.flatten.Perm (b :: g'.bookings.flatten)) :
    (c.replace g).entries.Perm ((f.name, b) :: (c.replace g').entries) := by
  obtain ⟨before, after, hentries⟩ := entries_replace hn hf
  rw [hentries g hg, hentries g' hg', List.append_assoc, List.append_assoc]
  exact (((h.map _).append_right after).append_left before).trans List.perm_middle

private theorem entries_removed (hn : c.names.Nodup) (hf : c.get? f.name = some f)
    (h : f.Removes b g) : c.entries.Perm ((f.name, b) :: (c.replace g).entries) := by
  have hentries := entries_replace_perm hn hf rfl h.name h.flatten_perm
  rwa [replace_self hn hf] at hentries

private theorem entries_booked (hn : c.names.Nodup) (hf : c.get? f.name = some f)
    (hg : g.name = f.name) (b : Booking) :
    (c.replace (g.withBooking b)).entries.Perm ((f.name, b) :: (c.replace g).entries) :=
  entries_replace_perm hn hf hg hg (Week.flatten_concat_perm g.bookings b.slot.day b)

private theorem entries_replace_same (hn : c.names.Nodup) (hf : c.get? f.name = some f)
    (hg : g.name = f.name) (hsame : g.bookings = f.bookings) :
    (c.replace g).entries = c.entries := by
  obtain ⟨before, after, hentries⟩ := entries_replace hn hf
  have hself := hentries f rfl
  rw [replace_self hn hf] at hself
  rw [hentries g hg, hself, hsame]

/-- The booking that is found is one with that id, and there is one to be found if there is any. -/
theorem findBooking?_eq_some (h : c.findBooking? id = some (f, b)) :
    (f.name, b) ∈ c.entries ∧ b.id = id := by
  obtain ⟨f', hf', hb⟩ := List.exists_of_findSome?_eq_some h
  obtain ⟨b', hfind, he⟩ := Option.map_eq_some_iff.mp hb
  cases he
  exact ⟨mem_entries.mpr ⟨f, hf', rfl, List.mem_of_find?_eq_some hfind⟩,
    by simpa using List.find?_some hfind⟩

private theorem findBooking?_eq_none (h : c.findBooking? id = none) :
    ∀ e ∈ c.entries, e.2.id ≠ id := by
  intro e he hid
  obtain ⟨f, hf, -, hb⟩ := mem_entries.mp he
  have hnone := Option.map_eq_none_iff.mp (List.findSome?_eq_none_iff.mp h f hf)
  exact absurd (beq_iff_eq.mpr hid) (List.find?_eq_none.mp hnone e.2 hb)

end Catalog

/-! ## What a request asks for -/

namespace BookingService

variable {supply : IdSupply} {call : Call} {request : Envelope} {s : BookingService}
  {monitors : Registry} {outcome : Outcome}
  {after : Except Fault Outcome × BookingService × Registry} {e : String × Booking} {id : String}

/-- The request asks for a booking, a new one or one in the place of another. -/
inductive Books (request : Envelope) : Prop
  | write (op : request.operation = .write)
  | update {rest : List String} (op : request.operation = .update)
      (words : words request.payload = "booking" :: rest)

private theorem Books.op (h : Books request) :
    request.operation = .write ∨ request.operation = .update := by
  cases h with
  | write op => exact .inl op
  | update op _ => exact .inr op

private theorem RatesFacility.not_books (h : RatesFacility request) : ¬ Books request := by
  intro hbooks
  cases h with
  | rating op => rcases hbooks.op with op' | op' <;> cases op.symm.trans op'
  | update op hwords =>
    cases hbooks with
    | write op' => cases op.symm.trans op'
    | update _ hwords' =>
      rw [hwords] at hwords'
      exact absurd (List.cons.inj hwords').1 (by decide)

/-- The request names a booking that is to be cancelled or moved. -/
inductive Names (id : String) (request : Envelope) : Prop
  | delete {rest : List String} (op : request.operation = .delete)
      (words : words request.payload = id :: rest)
  | update {rest : List String} (op : request.operation = .update)
      (words : words request.payload = "booking" :: id :: rest)

/-- The request ends a booking: it names it and succeeds. -/
structure Ends (id : String) (request : Envelope) (result : Except Fault Outcome) : Prop where
  named : Names id request
  succeeds : ∃ outcome, result = .ok outcome

private theorem Names.unique {other : String} (h : Names id request) (h' : Names other request) :
    id = other := by
  cases h with
  | delete op hwords =>
    cases h' with
    | delete _ hwords' =>
      rw [hwords] at hwords'
      exact (List.cons.inj hwords').1
    | update op' _ => cases op.symm.trans op'
  | update op hwords =>
    cases h' with
    | delete op' _ => cases op.symm.trans op'
    | update _ hwords' =>
      rw [hwords] at hwords'
      exact (List.cons.inj (List.cons.inj hwords').2).1

private theorem not_names_of_op (hdelete : request.operation ≠ .delete)
    (hupdate : request.operation ≠ .update) : ¬ Names id request := by
  rintro (⟨op, -⟩ | ⟨op, -⟩)
  · exact hdelete op
  · exact hupdate op

private theorem RatesFacility.not_names (h : RatesFacility request) : ¬ Names id request := by
  rintro (⟨op, -⟩ | ⟨op, hwords⟩)
  · rcases h with op' | ⟨op', -⟩ <;> cases op.symm.trans op'
  · exact h.not_books (.update op hwords)

/-! ## What a request does to the entries -/

/-- What becomes of the entries. All stay, or one of the caller's that the request names is taken
out; those that come have the next id. -/
inductive Turn (supply : IdSupply) (call : Call) (request : Envelope) (s : BookingService)
    (after : Except Fault Outcome × BookingService × Registry) : Prop
  | kept {new : List (String × Booking)}
      (fresh : ∀ a ∈ new, a.2.id = supply s.issued ∧ s.issued < after.2.1.issued)
      (entries : after.2.1.catalog.entries.Perm (new ++ s.catalog.entries))
      (ends : ∀ id, ¬ Ends id request after.1) : Turn supply call request s after
  | ended {e : String × Booking} {kept new : List (String × Booking)}
      (fresh : ∀ a ∈ new, a.2.id = supply s.issued ∧ s.issued < after.2.1.issued)
      (there : s.catalog.entries.Perm (e :: kept))
      (entries : after.2.1.catalog.entries.Perm (new ++ kept))
      (ends : Ends e.2.id request after.1) (held : e.2.owner = call.client.render) :
      Turn supply call request s after

private theorem Effect.turn (hn : s.catalog.names.Nodup)
    (h : Effect supply call request s monitors after) : Turn supply call request s after := by
  have hnone {n : Nat} : ∀ a ∈ ([] : List (String × Booking)),
      a.2.id = supply s.issued ∧ s.issued < n :=
    fun a ha => by cases ha
  have hnew (name : String) (slot : Slot) :
      ∀ a ∈ [(name, (⟨supply s.issued, call.client.render, slot⟩ : Booking))],
        a.2.id = supply s.issued ∧ s.issued < s.issued + 1 := by
    intro a ha
    rw [List.mem_singleton.mp ha]
    exact ⟨rfl, Nat.lt_succ_self _⟩
  cases h with
  | refused fault kind =>
    refine .kept hnone (.refl _) fun id h => ?_
    obtain ⟨outcome, he⟩ := h.succeeds
    cases he
  | answered payload op =>
    exact .kept hnone (.refl _) fun id h => not_names_of_op (by simp [op]) (by simp [op]) h.named
  | @rated payload f rating asked found =>
    have hsame := Catalog.entries_replace_same hn found (g := { f with rating }) rfl rfl
    exact .kept hnone (.of_eq hsame) fun id h => asked.not_names h.named
  | subscribed payload op asked =>
    exact .kept hnone (.refl _) fun id h => not_names_of_op (by simp [op]) (by simp [op]) h.named
  | @booked f slot op found free proper =>
    have hentries := Catalog.entries_booked hn found rfl ⟨supply s.issued, call.client.render, slot⟩
    rw [Catalog.replace_self hn found] at hentries
    exact .kept (hnew f.name slot) hentries fun id h =>
      not_names_of_op (by simp [op]) (by simp [op]) h.named
  | @moved f kept b slot op named found removed held free proper =>
    obtain ⟨rest, hwords⟩ := named
    have hentries :=
      Catalog.entries_booked hn found removed.name ⟨supply s.issued, call.client.render, slot⟩
    exact .ended (e := (f.name, b)) (hnew f.name slot)
      (Catalog.entries_removed hn found removed) hentries
      ⟨.update op hwords, _, rfl⟩ held
  | @cancelled payload f g b op named found removed held =>
    obtain ⟨rest, hwords⟩ := named
    exact .ended (e := (f.name, b)) hnone (Catalog.entries_removed hn found removed) (.refl _)
      ⟨.delete op hwords, _, rfl⟩ held

/-- What is left when an entry has been taken out are the entries with another id. -/
theorem mem_kept_iff {entries kept : List (String × Booking)} {gone : String × Booking}
    (there : entries.Perm (gone :: kept)) (hids : (entries.map (·.2.id)).Nodup) :
    e ∈ kept ↔ e ∈ entries ∧ e.2.id ≠ gone.2.id := by
  have hnodup := (there.map (·.2.id)).nodup_iff.mp hids
  rw [List.map_cons, List.nodup_cons] at hnodup
  rw [there.mem_iff, List.mem_cons]
  constructor
  · intro he
    refine ⟨.inr he, fun hid => hnodup.1 ?_⟩
    exact hid ▸ List.mem_map_of_mem he
  · rintro ⟨rfl | he, hid⟩
    · exact absurd rfl hid
    · exact he

/-- An entry with an id from before stays unless the request ends it, and does not come back. -/
theorem Turn.mem_entries (h : Turn supply call request s after)
    (hids : (s.catalog.entries.map (·.2.id)).Nodup)
    (hfresh : Set.InjOn supply {n | n < after.2.1.issued})
    (hold : ∃ n < s.issued, e.2.id = supply n) :
    e ∈ after.2.1.catalog.entries ↔ e ∈ s.catalog.entries ∧ ¬ Ends e.2.id request after.1 := by
  obtain ⟨n, hn, hid⟩ := hold
  -- What comes has the next id of the supply, so it is not this entry.
  have hnew {new : List (String × Booking)}
      (fresh : ∀ a ∈ new, a.2.id = supply s.issued ∧ s.issued < after.2.1.issued) : e ∉ new := by
    intro he
    obtain ⟨hnext, hlt⟩ := fresh e he
    have hsame : n = s.issued := hfresh (hn.trans hlt) hlt (hid.symm.trans hnext)
    omega
  cases h with
  | kept fresh entries ends =>
    rw [entries.mem_iff, List.mem_append, or_iff_right (hnew fresh)]
    exact (and_iff_left (ends _)).symm
  | @ended gone kept new fresh there entries ends held =>
    rw [entries.mem_iff, List.mem_append, or_iff_right (hnew fresh), mem_kept_iff there hids]
    refine and_congr_right fun _ => not_congr ⟨fun he => ?_, fun h => h.named.unique ends.named⟩
    exact he ▸ ends

/-- Nobody ends a booking but its owner. -/
theorem Turn.held (h : Turn supply call request s after)
    (hids : (s.catalog.entries.map (·.2.id)).Nodup) (he : e ∈ s.catalog.entries)
    (hends : Ends e.2.id request after.1) : e.2.owner = call.client.render := by
  cases h with
  | kept fresh entries ends => exact absurd hends (ends _)
  | @ended gone kept new fresh there entries ends held =>
    have hid : e.2.id = gone.2.id := hends.named.unique ends.named
    have hgone : gone ∈ s.catalog.entries := there.mem_iff.mpr List.mem_cons_self
    rw [List.inj_on_of_nodup_map hids he hgone hid]
    exact held

/-! ## Making and reading a booking -/

/-- The answer confirms a booking at a facility. -/
inductive Confirms (facility : String) (b : Booking) : Outcome → Prop
  | booked : Confirms facility b ⟨bookedText facility b, some facility⟩
  | moved (previous : String) : Confirms facility b ⟨movedText previous facility b, some facility⟩

/-- Where a booking is asked for and the request succeeds, the answer confirms one that is there. -/
theorem Effect.confirms (hn : s.catalog.names.Nodup)
    (h : Effect supply call request s monitors after) (hasked : Books request)
    (hok : after.1 = .ok outcome) :
    ∃ facility b, Confirms facility b outcome ∧ b.id = supply s.issued ∧
      b.owner = call.client.render ∧
      (facility, b) ∈ after.2.1.catalog.entries ∧ s.issued < after.2.1.issued := by
  have hother {op : Operation} (hop : request.operation = op) (hwrite : op ≠ .write)
      (hupdate : op ≠ .update) : False :=
    hasked.op.elim (fun h => hwrite (hop.symm.trans h)) fun h => hupdate (hop.symm.trans h)
  cases h with
  | refused fault kind => cases hok
  | answered payload op => exact (hother op (by decide) (by decide)).elim
  | rated payload rating asked found => exact absurd hasked asked.not_books
  | subscribed payload op asked => exact (hother op (by decide) (by decide)).elim
  | @booked f slot op found free proper =>
    cases hok
    have hentries := Catalog.entries_booked hn found rfl ⟨supply s.issued, call.client.render, slot⟩
    exact ⟨f.name, _, .booked, rfl, rfl, hentries.mem_iff.mpr List.mem_cons_self,
      Nat.lt_succ_self _⟩
  | @moved f kept b slot op named found removed held free proper =>
    cases hok
    have hentries :=
      Catalog.entries_booked hn found removed.name ⟨supply s.issued, call.client.render, slot⟩
    exact ⟨f.name, _, .moved b.id, rfl, rfl, hentries.mem_iff.mpr List.mem_cons_self,
      Nat.lt_succ_self _⟩
  | cancelled payload op named found removed held => exact (hother op (by decide) (by decide)).elim

private theorem read_booking {c : Catalog} {facility : String} {b : Booking}
    (hids : (c.entries.map (·.2.id)).Nodup) (hb : (facility, b) ∈ c.entries) :
    read c ["booking", b.id] =
      .ok (.plain (described "status:SUCCESS\nbookingID:" facility b ++ "\n")) := by
  simp only [read]
  cases hfind : c.findBooking? b.id with
  | none => exact absurd rfl (Catalog.findBooking?_eq_none hfind _ hb)
  | some found =>
    obtain ⟨f, b'⟩ := found
    obtain ⟨hmem, hid⟩ := Catalog.findBooking?_eq_some hfind
    have hsame : (facility, b) = (f.name, b') := List.inj_on_of_nodup_map hids hb hmem hid.symm
    cases hsame
    rfl

private theorem read_no_booking {c : Catalog} (h : ∀ e ∈ c.entries, e.2.id ≠ id) :
    read c ["booking", id] = .error (.handler .bookingNotFound) := by
  simp only [read]
  cases hfind : c.findBooking? id with
  | none => rfl
  | some found =>
    obtain ⟨hmem, hid⟩ := Catalog.findBooking?_eq_some hfind
    exact absurd hid (h _ hmem)

private theorem handle_read (hid : IsWord id) (reader : Call) (number : Int32)
    (state : BookingService × Registry) :
    (handle supply reader (.of .read number ("booking," ++ id)) state).1 =
      read state.1.catalog ["booking", id] := by
  have hop : (Envelope.of .read number ("booking," ++ id)).operation = .read :=
    Operation.ofCode_code .read
  rw [handle_of_read hop]
  exact congrArg (read state.1.catalog) (words_booking hid)

/-! ## Giving a booking up -/

/-- The owner ends a booking by a request. -/
structure Surrenders (supply : IdSupply) (owner : Address) (id : String)
    (state : BookingService × Registry) (r : Call × Envelope) : Prop where
  sender : r.1.client = owner
  ends : Ends id r.2 (handle supply r.1 r.2 state).1

/-- The owner ends a booking by one of some requests, when it is the turn of this one. -/
def Surrendered (supply : IdSupply) (owner : Address) (id : String) :
    List (Call × Envelope) → BookingService × Registry → Prop
  | [], _ => False
  | r :: rest, state =>
    Surrenders supply owner id state r ∨
    Surrendered supply owner id rest (handle supply r.1 r.2 state).2

private theorem Step.issued_le {s' : BookingService} (h : Step supply s s') :
    s.issued ≤ s'.issued := by
  cases h with
  | idle => exact Nat.le_refl _
  | thinned => exact Nat.le_refl _
  | booked => exact Nat.le_succ _

private theorem issued_le_run (requests : List (Call × Envelope))
    (state : BookingService × Registry) :
    state.1.issued ≤ (run supply requests state).1.issued := by
  induction requests generalizing state with
  | nil => exact Nat.le_refl _
  | cons r rest ih => exact (handle_step supply r.1 r.2 state.1 state.2).issued_le.trans (ih _)

private theorem Sound.nodup_entries (hs : Sound supply s)
    (hfresh : Set.InjOn supply {n | n < s.issued}) : (s.catalog.entries.map (·.2.id)).Nodup := by
  rw [Catalog.map_id_entries]
  exact hs.ids hfresh

section Run

variable {state : BookingService × Registry} {r : Call × Envelope}
  {requests rest : List (Call × Envelope)} {owner : Address}

/-- An id was given out before some requests, and no id is given out twice until they are done. -/
structure Since (supply : IdSupply) (id : String) (requests : List (Call × Envelope))
    (state : BookingService × Registry) : Prop where
  sound : Sound supply state.1
  old : ∃ n < state.1.issued, id = supply n
  fresh : Set.InjOn supply {n | n < (run supply requests state).1.issued}

private theorem Since.nodup (h : Since supply id requests state) :
    (state.1.catalog.entries.map (·.2.id)).Nodup :=
  h.sound.nodup_entries (h.fresh.mono fun _ hn => hn.trans_le (issued_le_run requests state))

private theorem Since.next (h : Since supply id (r :: rest) state) :
    Since supply id rest (handle supply r.1 r.2 state).2 := by
  have hstep := handle_step supply r.1 r.2 state.1 state.2
  obtain ⟨n, hn, hid⟩ := h.old
  exact ⟨sound_step h.sound hstep, ⟨n, hn.trans_le hstep.issued_le, hid⟩, h.fresh⟩

private theorem Since.turn (h : Since supply id (r :: rest) state) :
    Turn supply r.1 r.2 state.1 (handle supply r.1 r.2 state) :=
  (handle_effect supply r.1 r.2 state.1 state.2).turn h.sound.names

private theorem Since.mem_entries (h : Since supply e.2.id (r :: rest) state) :
    e ∈ (handle supply r.1 r.2 state).2.1.catalog.entries ↔
      e ∈ state.1.catalog.entries ∧ ¬ Ends e.2.id r.2 (handle supply r.1 r.2 state).1 :=
  h.turn.mem_entries h.nodup (h.fresh.mono fun _ hn => hn.trans_le (issued_le_run rest _)) h.old

/-- No entry comes back. -/
theorem Since.mem_of_run (h : Since supply e.2.id requests state)
    (he : e ∈ (run supply requests state).1.catalog.entries) : e ∈ state.1.catalog.entries := by
  induction requests generalizing state with
  | nil => exact he
  | cons r rest ih => exact (h.mem_entries.mp (ih h.next he)).1

/-- An entry stays until its owner gives it up. -/
theorem Since.mem_run_iff (h : Since supply e.2.id requests state)
    (hclients : ∀ r ∈ requests, r.1.client.render = e.2.owner → r.1.client = owner) :
    e ∈ (run supply requests state).1.catalog.entries ↔
      e ∈ state.1.catalog.entries ∧ ¬ Surrendered supply owner e.2.id requests state := by
  induction requests generalizing state with
  | nil => exact (and_iff_left not_false).symm
  | cons r rest ih =>
    obtain ⟨hclient, hrest⟩ := List.forall_mem_cons.mp hclients
    -- Only the owner's requests can end it, so whether it is ended is whether it is given up.
    have hends : e ∈ state.1.catalog.entries →
        (Ends e.2.id r.2 (handle supply r.1 r.2 state).1 ↔
          Surrenders supply owner e.2.id state r) := by
      refine fun he => ⟨fun hends => ⟨hclient ?_, hends⟩, fun h => h.ends⟩
      exact (h.turn.held h.nodup he hends).symm
    calc e ∈ (run supply rest (handle supply r.1 r.2 state).2).1.catalog.entries
      _ ↔ e ∈ (handle supply r.1 r.2 state).2.1.catalog.entries ∧
            ¬ Surrendered supply owner e.2.id rest (handle supply r.1 r.2 state).2 :=
          ih h.next hrest
      _ ↔ (e ∈ state.1.catalog.entries ∧ ¬ Surrenders supply owner e.2.id state r) ∧
            ¬ Surrendered supply owner e.2.id rest (handle supply r.1 r.2 state).2 := by
          rw [h.mem_entries, and_congr_right fun he => not_congr (hends he)]
      _ ↔ e ∈ state.1.catalog.entries ∧ ¬ Surrendered supply owner e.2.id (r :: rest) state := by
          rw [and_assoc, ← not_or]
          rfl

/-- What readers are told after a run about a booking that was there before it. -/
theorem Since.read {facility : String} {b : Booking} (h : Since supply b.id requests state)
    (hword : IsWord b.id) (hb : (facility, b) ∈ state.1.catalog.entries)
    (hclients : ∀ r ∈ requests, r.1.client.render = b.owner → r.1.client = owner) (reader : Call)
    (number : Int32) :
    let answer :=
      (handle supply reader (.of .read number ("booking," ++ b.id)) (run supply requests state)).1
    (¬ Surrendered supply owner b.id requests state →
        answer = .ok (.plain (described "status:SUCCESS\nbookingID:" facility b ++ "\n"))) ∧
      (Surrendered supply owner b.id requests state →
        answer = .error (.handler .bookingNotFound)) := by
  intro answer
  have hread : answer =
      BookingService.read (run supply requests state).1.catalog ["booking", b.id] :=
    handle_read hword reader number (run supply requests state)
  have hstays := mem_run_iff (e := (facility, b)) h hclients
  refine ⟨fun hkept => ?_, fun hended => ?_⟩
  · have hids := (sound_run requests h.sound).nodup_entries h.fresh
    exact hread.trans (read_booking hids (hstays.mpr ⟨hb, hkept⟩))
  · refine hread.trans (read_no_booking fun e he hsame => ?_)
    have hthere : e ∈ state.1.catalog.entries := mem_of_run (hsame ▸ h) he
    obtain rfl : e = (facility, b) := List.inj_on_of_nodup_map h.nodup hthere hb hsame
    exact (hstays.mp he).2 hended

end Run

/-- **Only its owner ends a booking.** It is read with the same owner, facility and slot until the
owner has cancelled or moved it, and is not found from then on. -/
theorem only_owner_ends_booking {supply : IdSupply} (hwords : ∀ n, IsWord (supply n))
    {settings : List Config.FacilitySettings} {s₀ : BookingService}
    (hs : ofSettings settings = .ok s₀) (monitors : Registry)
    (before later : List (Call × Envelope)) {call : Call} {request : Envelope}
    (hasked : Books request) {outcome : Outcome}
    (hok : (handle supply call request (run supply before (s₀, monitors))).1 = .ok outcome)
    (hfresh : Set.InjOn supply
      {n | n < (run supply (before ++ (call, request) :: later) (s₀, monitors)).1.issued})
    (hclients : ∀ r ∈ later, r.1.client.render = call.client.render → r.1.client = call.client) :
    ∃ facility b, Confirms facility b outcome ∧ b.owner = call.client.render ∧
      b.id = supply (run supply before (s₀, monitors)).1.issued ∧
      ∀ (reader : Call) (number : Int32),
        let start := (handle supply call request (run supply before (s₀, monitors))).2
        let answer :=
          (handle supply reader (.of .read number ("booking," ++ b.id)) (run supply later start)).1
        (¬ Surrendered supply call.client b.id later start →
            answer = .ok (.plain (described "status:SUCCESS\nbookingID:" facility b ++ "\n"))) ∧
          (Surrendered supply call.client b.id later start →
            answer = .error (.handler .bookingNotFound)) := by
  have hsound : Sound supply (run supply before (s₀, monitors)).1 :=
    sound_run before (sound_start supply (filled_ofSettings hs))
  generalize hstate : run supply before (s₀, monitors) = state at hok hsound ⊢
  have hrun : run supply (before ++ (call, request) :: later) (s₀, monitors) =
      run supply later (handle supply call request state).2 := by
    rw [← hstate, run, List.foldl_append]
    rfl
  rw [hrun] at hfresh
  have heffect := handle_effect supply call request state.1 state.2
  obtain ⟨facility, b, hconfirms, hid, howner, hmem, hlt⟩ :=
    heffect.confirms hsound.names hasked hok
  have hsince : Since supply b.id later (handle supply call request state).2 :=
    ⟨sound_step hsound heffect.step, ⟨state.1.issued, hlt, hid⟩, hfresh⟩
  refine ⟨facility, b, hconfirms, howner, hid,
    hsince.read (hid ▸ hwords state.1.issued) hmem fun r hr he => ?_⟩
  exact hclients r hr (he.trans howner)

/-- The first client books and everybody can read the booking, also when the second client has tried
to cancel it, but no more when the first client has. -/
theorem only_owner_ends_booking_sample :
    let ann := sampleCall 1
    let bob := sampleCall 2
    let book := sampleBooking 1
    let cancel : Envelope := .of .delete 2 (sampleIds 0 ++ ",Gym")
    let look : Envelope := .of .read 3 ("booking," ++ sampleIds 0)
    let booked := (handle sampleIds ann book (sampleStart, .empty)).2
    (∃ b : Booking, b.owner = ann.client.render ∧
      (handle sampleIds bob look (run sampleIds [(bob, cancel)] booked)).1 =
        .ok (.plain (described "status:SUCCESS\nbookingID:" "Gym" b ++ "\n"))) ∧
      (handle sampleIds bob look (run sampleIds [(bob, cancel), (ann, cancel)] booked)).1 =
        .error (.handler .bookingNotFound) := by
  intro ann bob book cancel look booked
  have hstart : ofSettings sampleSettings = .ok sampleStart := rfl
  have hids : ∀ n, IsWord (sampleIds n) := fun n => isWord_written _ _
  have hasked : Books book := .write (by decide)
  have hbooked : (handle sampleIds ann book (sampleStart, .empty)).1.toOption.map (·.changed) =
      some (some "Gym") := by decide +kernel
  have hfresh (later : List (Call × Envelope))
      (h : (run sampleIds ([] ++ (ann, book) :: later) (sampleStart, .empty)).1.issued = 1) :
      Set.InjOn sampleIds
        {n | n < (run sampleIds ([] ++ (ann, book) :: later) (sampleStart, .empty)).1.issued} := by
    rw [h]
    exact sampleIds_injOn.mono fun n (hn : n < 1) => hn.trans (by decide)
  have hcancelled : (handle sampleIds ann cancel (run sampleIds [(bob, cancel)] booked)).1.isOk =
      true := by
    decide +kernel
  have hnamed : words cancel.payload = [sampleIds 0, "Gym"] := by decide +kernel
  cases hok : (handle sampleIds ann book (sampleStart, .empty)).1 with
  | error fault =>
    rw [hok] at hbooked
    cases hbooked
  | ok outcome =>
    rw [hok] at hbooked
    have hchanged : outcome.changed = some "Gym" := Option.some.inj hbooked
    refine ⟨?_, ?_⟩
    · obtain ⟨facility, b, hconfirms, howner, hid, hread⟩ :=
        only_owner_ends_booking hids hstart .empty [] [(bob, cancel)] hasked hok
          (hfresh _ (by decide +kernel))
          (by decide +kernel)
      have hid : b.id = sampleIds 0 := hid
      have hgym : facility = "Gym" := by
        cases hconfirms <;> exact Option.some.inj hchanged
      have hkept : ¬ Surrendered sampleIds ann.client b.id [(bob, cancel)] booked := by
        rintro (hbob | hnobody)
        · exact absurd hbob.sender (by decide)
        · exact hnobody
      have hlook : look = .of .read 3 ("booking," ++ b.id) := by rw [hid]
      rw [hlook, ← hgym]
      exact ⟨b, howner, (hread bob 3).1 hkept⟩
    · obtain ⟨facility, b, hconfirms, howner, hid, hread⟩ :=
        only_owner_ends_booking hids hstart .empty [] [(bob, cancel), (ann, cancel)] hasked hok
          (hfresh _ (by decide +kernel)) (by decide +kernel)
      have hid : b.id = sampleIds 0 := hid
      have hends : Ends b.id cancel
          (handle sampleIds ann cancel (run sampleIds [(bob, cancel)] booked)).1 := by
        refine ⟨.delete (by decide) (hid ▸ hnamed), ?_⟩
        cases he : (handle sampleIds ann cancel (run sampleIds [(bob, cancel)] booked)).1 with
        | error fault =>
          rw [he] at hcancelled
          cases hcancelled
        | ok outcome => exact ⟨outcome, rfl⟩
      have hlook : look = .of .read 3 ("booking," ++ b.id) := by rw [hid]
      rw [hlook]
      exact (hread bob 3).2 (.inr (.inl ⟨rfl, hends⟩))

end BookingService

end DatagramRpc
