import DatagramRpc.Proofs.Wire.ReadBack
import Mathlib.Data.List.Infix

/-!
# Items one after another

Items that were written are read back in their order, whatever follows them. Where the bytes stop
too early, the items that are all there still are, and the next one is refused with the number of
bytes that it needs and the smaller number that is left. `Lacks` is that a reader does so at every
place where its bytes can stop.
-/

namespace DatagramRpc.Wire

variable {α β : Type} {r : Reader α} {f : α → Reader β} {bytes bytes' part : List UInt8} {a : α}

/-! ## Bytes that stop too early -/

/-- The beginning of some bytes, without at least the last of them. -/
structure Cut (part bytes : List UInt8) : Prop where
  begins : part <+: bytes
  stops : part ≠ bytes

private theorem not_cut_nil : ¬ Cut part [] := fun h => h.stops (List.prefix_nil.mp h.begins)

private theorem Cut.length_lt (h : Cut part bytes) : part.length < bytes.length := by
  refine Nat.lt_of_le_of_ne h.begins.length_le fun he => ?_
  exact h.stops (h.begins.eq_of_length he)

/-- Two pieces stop too early in the first or in the second. -/
theorem Cut.append (h : Cut part (bytes ++ bytes')) :
    Cut part bytes ∨ ∃ tail, part = bytes ++ tail ∧ Cut tail bytes' := by
  by_cases hlength : part.length < bytes.length
  · refine .inl ⟨List.prefix_of_prefix_length_le h.begins (List.prefix_append _ _) hlength.le, ?_⟩
    rintro rfl
    exact lt_irrefl _ hlength
  · obtain ⟨tail, rfl⟩ :=
      List.prefix_of_prefix_length_le (List.prefix_append bytes bytes') h.begins (not_lt.mp hlength)
    refine .inr ⟨tail, rfl, (List.prefix_append_right_inj bytes).mp h.begins, ?_⟩
    rintro rfl
    exact h.stops rfl

/-- Fewer bytes are left than something needs. -/
def Shortage (fault : Fault) : Prop :=
  ∃ what needed left, fault = .framing (.truncated what needed left) ∧ left < needed

/-- Of these bytes a reader needs all: wherever they stop, it says that some are missing. -/
def Lacks (r : Reader α) (bytes : List UInt8) : Prop :=
  ∀ part, Cut part bytes → ∃ fault rest, r part = .error fault rest ∧ Shortage fault

namespace Lacks

/-- Whatever comes after a reader, it has failed before. -/
theorem bind_done (h : Lacks r bytes) : Lacks (r >>= f) bytes := by
  intro part hcut
  obtain ⟨fault, rest, hr, hfault⟩ := h part hcut
  refine ⟨fault, rest, ?_, hfault⟩
  show EStateM.bind r f part = _
  rw [EStateM.bind, hr]

/-- Two readers, one after the other. -/
theorem bind (h : Lacks r bytes) (htakes : Takes r bytes a) (h' : Lacks (f a) bytes') :
    Lacks (r >>= f) (bytes ++ bytes') := by
  intro part hcut
  rcases hcut.append with hfirst | ⟨tail, rfl, hsecond⟩
  · exact h.bind_done part hfirst
  · obtain ⟨fault, rest, hf, hfault⟩ := h' tail hsecond
    refine ⟨fault, rest, ?_, hfault⟩
    show EStateM.bind r f (bytes ++ tail) = _
    rw [EStateM.bind, htakes tail]
    exact hf

end Lacks

private theorem lacks_take {n : Nat} {what : String} (h : bytes.length = n) :
    Lacks (take n what) bytes := by
  intro part hcut
  have hshort : part.length < n := h ▸ hcut.length_lt
  refine ⟨_, part, ?_, what, n, part.length, rfl, hshort⟩
  simp only [take, List.splitAt_eq]
  rw [if_pos (Nat.lt_of_le_of_lt (List.length_take_le' n part) hshort)]

private theorem lacks_getByte (b : UInt8) : Lacks getByte [b] := by
  intro part hcut
  obtain rfl : part = [] := List.eq_nil_of_length_eq_zero (Nat.lt_one_iff.mp hcut.length_lt)
  exact ⟨_, [], rfl, "byte", 1, 0, rfl, Nat.zero_lt_one⟩

private theorem lacks_getInt (h : bytes.length = 4) : Lacks getInt bytes := (lacks_take h).bind_done

private theorem lacks_getText {s : String} (h : putText s = .ok bytes) : Lacks getText bytes := by
  obtain ⟨hroom, rfl⟩ := putText_eq_ok.mp h
  have hlength : Lacks (getLength .negativeTextLength) (putCount (Text.encodeUtf8 s).length) :=
    (lacks_getInt (length_bigEndian 4 _)).bind_done
  -- The body has the length that stands before it, so nothing is read as UTF-8 before all of it is
  -- there.
  exact hlength.bind (getLength_putCount hroom _) (lacks_take rfl).bind_done

/-! ## One item -/

variable {v : Item} {items : List Item}

private theorem getItem_put (h : v.put = .ok bytes) : Takes (getItem v.kind) bytes v := by
  cases v with
  | byte v =>
    cases h
    exact (getByte_takes v).bind_done (.pure _)
  | int v =>
    cases h
    exact (getInt_putInt v).bind_done (.pure _)
  | long v =>
    cases h
    exact (getLong_putLong v).bind_done (.pure _)
  | double bits =>
    cases h
    exact (getDouble_putDouble bits).bind_done (.pure _)
  | text s => exact (getText_putText h).bind_done (.pure _)

private theorem lacks_getItem (h : v.put = .ok bytes) : Lacks (getItem v.kind) bytes := by
  cases v with
  | byte v =>
    cases h
    exact (lacks_getByte v).bind_done
  | int v =>
    cases h
    exact (lacks_getInt (length_bigEndian 4 _)).bind_done
  | long v =>
    cases h
    exact (lacks_take (length_bigEndian 8 _)).bind_done.bind_done
  | double bits =>
    cases h
    exact (lacks_take (length_bigEndian 8 _)).bind_done.bind_done
  | text s => exact (lacks_getText h).bind_done

private theorem exists_put (h : ∀ s, v = .text s → (Text.encodeUtf8 s).length < Nat.pow 2 31) :
    ∃ bytes, v.put = .ok bytes := by
  cases v with
  | text s => exact exists_putText (Nat.le_sub_one_of_lt (h s rfl))
  | _ => exact ⟨_, rfl⟩

/-! ## All items -/

private theorem putItems_cons : putItems (v :: items) = .ok bytes ↔
    ∃ first others, v.put = .ok first ∧ putItems items = .ok others ∧ bytes = first ++ others := by
  rw [putItems, List.mapM_cons]
  constructor
  · intro h
    obtain ⟨written, hwritten, hbytes⟩ := bind_eq_ok.mp h
    obtain ⟨first, hfirst, hwritten⟩ := bind_eq_ok.mp hwritten
    obtain ⟨others, hothers, hwritten⟩ := bind_eq_ok.mp hwritten
    cases hwritten
    cases hbytes
    exact ⟨first, others.flatten, hfirst, bind_eq_ok.mpr ⟨others, hothers, rfl⟩, List.flatten_cons⟩
  · rintro ⟨first, others, hfirst, hothers, rfl⟩
    obtain ⟨written, hwritten, hothers⟩ := bind_eq_ok.mp hothers
    cases hothers
    refine bind_eq_ok.mpr ⟨first :: written, ?_, congrArg Except.ok List.flatten_cons⟩
    exact bind_eq_ok.mpr ⟨first, hfirst, bind_eq_ok.mpr ⟨written, hwritten, rfl⟩⟩

private theorem putItems_append {more : List Item} : putItems (items ++ more) = .ok bytes ↔
    ∃ front back, putItems items = .ok front ∧ putItems more = .ok back ∧
      bytes = front ++ back := by
  induction items generalizing bytes with
  | nil =>
    refine ⟨fun h => ⟨[], bytes, rfl, h, rfl⟩, ?_⟩
    rintro ⟨front, back, hfront, hback, rfl⟩
    cases hfront
    exact hback
  | cons v items ih =>
    simp only [List.cons_append, putItems_cons, ih]
    constructor
    · rintro ⟨first, _, hfirst, ⟨front, back, hfront, hback, rfl⟩, rfl⟩
      exact ⟨first ++ front, back, ⟨first, front, hfirst, hfront, rfl⟩, hback,
        (List.append_assoc ..).symm⟩
    · rintro ⟨_, back, ⟨first, front, hfirst, hfront, rfl⟩, hback, rfl⟩
      exact ⟨first, front ++ back, hfirst, ⟨front, back, hfront, hback, rfl⟩, List.append_assoc ..⟩

private theorem exists_putItems
    (h : ∀ s, .text s ∈ items → (Text.encodeUtf8 s).length < Nat.pow 2 31) :
    ∃ bytes, putItems items = .ok bytes := by
  induction items with
  | nil => exact ⟨[], rfl⟩
  | cons v items ih =>
    obtain ⟨first, hfirst⟩ := exists_put fun s hv => h s (hv ▸ List.mem_cons_self)
    obtain ⟨others, hothers⟩ := ih fun s hs => h s (List.mem_cons_of_mem _ hs)
    exact ⟨first ++ others, putItems_cons.mpr ⟨first, others, hfirst, hothers, rfl⟩⟩

private theorem mapM_getItem_putItems (h : putItems items = .ok bytes) :
    Takes ((items.map Item.kind).mapM getItem) bytes items := by
  induction items generalizing bytes with
  | nil =>
    cases h
    exact .pure []
  | cons v items ih =>
    obtain ⟨first, others, hfirst, hothers, rfl⟩ := putItems_cons.mp h
    rw [List.map_cons, List.mapM_cons]
    exact (getItem_put hfirst).bind ((ih hothers).bind_done (.pure _))

/-- Where the bytes of some items stop, they stop in one of them, behind those that are whole. -/
theorem exists_cut_item (h : putItems items = .ok bytes) (hcut : Cut part bytes) :
    ∃ done next later whole own tail, items = done ++ next :: later ∧ putItems done = .ok whole ∧
      next.put = .ok own ∧ part = whole ++ tail ∧ Cut tail own := by
  induction items generalizing bytes part with
  | nil =>
    cases h
    exact absurd hcut not_cut_nil
  | cons v items ih =>
    obtain ⟨first, others, hfirst, hothers, rfl⟩ := putItems_cons.mp h
    rcases hcut.append with hhere | ⟨tail, rfl, hthere⟩
    · exact ⟨[], v, items, [], first, part, rfl, rfl, hfirst, rfl, hhere⟩
    · obtain ⟨done, next, later, whole, own, tail', rfl, hwhole, hown, rfl, htail⟩ :=
        ih hothers hthere
      refine ⟨v :: done, next, later, first ++ whole, own, tail', rfl, ?_, hown, ?_, htail⟩
      · exact putItems_cons.mpr ⟨first, whole, hfirst, hwhole, rfl⟩
      · rw [List.append_assoc]

/-- All bytes of the items are there. -/
def Inside (items : List Item) (part : List UInt8) : Prop :=
  ∃ bytes, putItems items = .ok bytes ∧ bytes <+: part

private theorem Inside.of_append {more : List Item} (h : Inside (items ++ more) part) :
    Inside items part := by
  obtain ⟨bytes, hbytes, hinside⟩ := h
  obtain ⟨front, back, hfront, -, rfl⟩ := putItems_append.mp hbytes
  exact ⟨front, hfront, (List.prefix_append front back).trans hinside⟩

/-- What is all there ends before the item that is cut. -/
theorem not_inside_of_cut {done : List Item} {next : Item} {whole own tail : List UInt8}
    (hwhole : putItems done = .ok whole) (hown : next.put = .ok own) (hcut : Cut tail own) :
    ¬ Inside (done ++ [next]) (whole ++ tail) := by
  rintro ⟨bytes, hbytes, hinside⟩
  obtain ⟨front, back, hfront, hback, rfl⟩ := putItems_append.mp hbytes
  obtain ⟨first, others, hfirst, hothers, rfl⟩ := putItems_cons.mp hback
  cases hwhole.symm.trans hfront
  cases hown.symm.trans hfirst
  cases hothers
  have hlength := hinside.length_le
  have hlt := hcut.length_lt
  simp only [List.length_append] at hlength
  omega

private theorem inside_take_iff {done later : List Item} {next : Item} {whole own tail : List UInt8}
    (hwhole : putItems done = .ok whole) (hown : next.put = .ok own) (hcut : Cut tail own) {k : Nat}
    (hk : k ≤ (done ++ next :: later).length) :
    Inside ((done ++ next :: later).take k) (whole ++ tail) ↔ k ≤ done.length := by
  constructor
  · intro h
    by_contra hmore
    obtain ⟨n, rfl⟩ : ∃ n, k = done.length + 1 + n := Nat.exists_eq_add_of_le (not_le.mp hmore)
    have htake : (done ++ next :: later).take (done.length + 1 + n) =
        (done ++ [next]) ++ later.take n := by
      rw [Nat.add_assoc, List.take_length_add_append, Nat.add_comm 1 n, List.take_succ_cons,
        List.append_assoc, List.singleton_append]
    rw [htake] at h
    exact not_inside_of_cut hwhole hown hcut h.of_append
  · intro hle
    have hdone : Inside (done.take k ++ done.drop k) (whole ++ tail) := by
      rw [List.take_append_drop]
      exact ⟨whole, hwhole, List.prefix_append _ _⟩
    rw [List.take_append_of_le_length hle]
    exact hdone.of_append

/-! ## Reading on -/

/-- What the reads have come to, in their order. -/
def results (kinds : List ItemKind) (input : List UInt8) : List (Except Fault Item) :=
  (getItems kinds input).map (·.1)

private theorem results_append {kinds more : List ItemKind} {input rest : List UInt8}
    (h : kinds.mapM getItem input = .ok items rest) :
    results (kinds ++ more) input = items.map .ok ++ results more rest := by
  induction kinds generalizing input items with
  | nil =>
    cases h
    rfl
  | cons k kinds ih =>
    rw [List.mapM_cons] at h
    obtain ⟨v, mid, hfirst, h⟩ := estate_bind_ok.mp h
    obtain ⟨others, rest', hothers, h⟩ := estate_bind_ok.mp h
    cases h
    simp only [results] at ih ⊢
    rw [List.cons_append, getItems, hfirst]
    simp only [List.map_cons, List.cons_append, ih hothers]

/-- **Items are read back.** Of bytes that stop early, the items that are all there are read, and
then a shortage is found. -/
theorem items_read_back (h : ∀ s, .text s ∈ items → (Text.encodeUtf8 s).length < Nat.pow 2 31) :
    ∃ bytes, putItems items = .ok bytes ∧
      (∀ suffix, (items.map Item.kind).mapM getItem (bytes ++ suffix) = .ok items suffix ∧
        results (items.map Item.kind) (bytes ++ suffix) = items.map .ok) ∧
      ∀ part, Cut part bytes → ∃ done next later, items = done ++ next :: later ∧
        (∀ k ≤ items.length, Inside (items.take k) part ↔ k ≤ done.length) ∧
        ∃ tail fault rest, (done.map Item.kind).mapM getItem part = .ok done tail ∧
          getItem next.kind tail = .error fault rest ∧ Shortage fault ∧
          ∃ others, results (items.map Item.kind) part = done.map .ok ++
            .error fault :: others := by
  obtain ⟨bytes, hbytes⟩ := exists_putItems h
  refine ⟨bytes, hbytes, fun suffix => ?_, fun part hcut => ?_⟩
  · have hread := mapM_getItem_putItems hbytes suffix
    have hresults : results (items.map Item.kind ++ []) (bytes ++ suffix) =
        items.map .ok ++ results [] suffix :=
      results_append hread
    rw [List.append_nil] at hresults
    exact ⟨hread, hresults.trans (List.append_nil _)⟩
  · obtain ⟨done, next, later, whole, own, tail, rfl, hwhole, hown, rfl, htail⟩ :=
      exists_cut_item hbytes hcut
    obtain ⟨fault, rest, hfault, hshort⟩ := lacks_getItem hown tail htail
    have hread := mapM_getItem_putItems hwhole tail
    refine ⟨done, next, later, rfl, fun k hk => inside_take_iff hwhole hown htail hk, tail,
      fault, rest, hread, hfault, hshort, ?_⟩
    rw [List.map_append, List.map_cons, results_append hread]
    simp only [results, getItems, hfault, List.map_cons]
    exact ⟨_, rfl⟩

/-- One item of each kind, and a second text. -/
def sampleItems : List Item :=
  [.byte 0xFE, .int (-7), .long Int64.minValue, .double 0xC004000000000000, .text "héllo", .text ""]

def sampleBytes : List UInt8 :=
  [0xFE, 0xFF, 0xFF, 0xFF, 0xF9, 0x80, 0, 0, 0, 0, 0, 0, 0, 0xC0, 0x04, 0, 0, 0, 0, 0, 0, 0, 0, 0,
    6, 0x68, 0xC3, 0xA9, 0x6C, 0x6C, 0x6F, 0, 0, 0, 0]

/-- The bytes end inside the second character of the first text. -/
theorem items_read_back_sample :
    putItems sampleItems = .ok sampleBytes ∧
      (sampleItems.map Item.kind).mapM getItem (sampleBytes ++ [0x2A]) = .ok sampleItems [0x2A] ∧
      ∃ done fault others, done = sampleItems.take 4 ∧ Shortage fault ∧
        results (sampleItems.map Item.kind) (sampleBytes.take 27) = done.map .ok ++
          .error fault :: others := by
  have hshort : ∀ s, .text s ∈ sampleItems → (Text.encodeUtf8 s).length < Nat.pow 2 31 := by
    intro s hs
    have htexts : s = "héllo" ∨ s = "" := by simpa [sampleItems] using hs
    rcases htexts with rfl | rfl <;> decide
  have hput : putItems sampleItems = .ok sampleBytes := ok_of_toOption (by decide +kernel)
  have hfour : putItems (sampleItems.take 4) = .ok (sampleBytes.take 21) :=
    ok_of_toOption (by decide +kernel)
  have hfive : putItems (sampleItems.take 5) = .ok (sampleBytes.take 31) :=
    ok_of_toOption (by decide +kernel)
  obtain ⟨bytes, hbytes, hwhole, hcut⟩ := items_read_back hshort
  cases hput.symm.trans hbytes
  obtain ⟨done, next, later, hitems, hinside, tail, fault, rest, -, -, hfault, others, hresults⟩ :=
    hcut (sampleBytes.take 27) ⟨by decide, by decide⟩
  refine ⟨hput, (hwhole [0x2A]).1, done, fault, others, ?_, hfault, hresults⟩
  have hatLeast : 4 ≤ done.length := (hinside 4 (by decide)).mp ⟨_, hfour, by decide⟩
  have hatMost : ¬ 5 ≤ done.length := by
    intro h
    obtain ⟨five, hwritten, hprefix⟩ := (hinside 5 (by decide)).mpr h
    cases hfive.symm.trans hwritten
    exact absurd hprefix (by decide)
  have hlength : done.length = 4 := by omega
  rw [hitems, ← hlength, List.take_left']
  rfl

end DatagramRpc.Wire
