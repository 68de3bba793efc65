import DatagramRpc.Frame.Decode
import DatagramRpc.Proofs.Frame.Writes
import DatagramRpc.Proofs.Graph.Copy
import DatagramRpc.Proofs.Wire.ReadBack

/-!
# The decoder reads back what the encoder wrote

The two keep in step: where the encoder has seen some nodes, the decoder has as many in its graph,
and what one writes for a reference or a value, the other takes from its input, so that afterwards
its graph has a copy of each node that the encoder has come upon.
-/

namespace DatagramRpc.Frame

open Wire ObjectGraph

variable {α β : Type} {s : Schema} {g G G' : ObjectGraph} {φ : NodeId → NodeId}
  {seen mid after : List NodeId} {bytes bytes' : List UInt8} {level : Nat}

/-! ## Steps of the decoder -/

theorem bind_run {d : Decoder α} {f : α → Decoder β} {st st' : DecodeState} {a : α}
    (h : d st = .ok a st') : (d >>= f) st = f a st' := by
  show EStateM.bind d f st = _
  rw [EStateM.bind, h]

theorem read_run {r : Reader α} {a : α} (h : Takes r bytes a) (rest : List UInt8)
    (G : ObjectGraph) : Decoder.read r ⟨bytes ++ rest, G⟩ = .ok a ⟨rest, G⟩ := by
  rw [Decoder.read, h rest]

theorem lift_run {x : Except Fault α} {a : α} (h : x = .ok a) (st : DecodeState) :
    Decoder.lift x st = .ok a st := by
  subst h
  rfl

/-- The decoder takes these bytes for this value, and its graph grows by copies of the nodes after
those seen. -/
def Copies (s : Schema) (g : ObjectGraph) (φ : NodeId → NodeId) (d : Decoder α) (bytes : List UInt8)
    (a : α) (seen after : List NodeId) : Prop :=
  ∀ (rest : List UInt8) (G : ObjectGraph), G.size = seen.length →
    ∃ G', d ⟨bytes ++ rest, G⟩ = .ok a ⟨rest, G'⟩ ∧ Grown s g φ [] seen after G G'

namespace Copies

variable {d : Decoder α} {f : α → Decoder β} {a : α} {b : β}

private theorem pure (b : β) : Copies s g φ (Pure.pure b : Decoder β) [] b seen seen :=
  fun _ G hG => ⟨G, rfl, .refl [] hG⟩

/-- Reading from the input alone. -/
theorem read {r : Reader α} (h : Takes r bytes a) :
    Copies s g φ (Decoder.read r) bytes a seen seen :=
  fun rest G hG => ⟨G, read_run h rest G, .refl [] hG⟩

private theorem bind (h : Copies s g φ d bytes a seen mid)
    (h' : Copies s g φ (f a) bytes' b mid after) (hφ : Numbers φ mid) (hp : seen <+: mid) :
    Copies s g φ (d >>= f) (bytes ++ bytes') b seen after := by
  intro rest G hG
  obtain ⟨G₁, hrun, hgrown⟩ := h (bytes' ++ rest) G hG
  obtain ⟨G₂, hrun', hgrown'⟩ := h' rest G₁ hgrown.size
  refine ⟨G₂, ?_, hgrown.trans hgrown' hφ hp fun id hid => nomatch hid⟩
  rw [List.append_assoc, bind_run hrun, hrun']

/-- A step that makes nothing grow comes first. -/
theorem bind_read {r : Reader α} (h : Takes r bytes a)
    (h' : Copies s g φ (f a) bytes' b seen after) :
    Copies s g φ (Decoder.read r >>= f) (bytes ++ bytes') b seen after := by
  intro rest G hG
  obtain ⟨G', hrun, hgrown⟩ := h' rest G hG
  refine ⟨G', ?_, hgrown⟩
  rw [List.append_assoc, bind_run (read_run h _ G), hrun]

/-- What is done with the result takes nothing more. -/
theorem bind_pure (h : Copies s g φ d bytes a seen after) (hf : f a = Pure.pure b) :
    Copies s g φ (d >>= f) bytes b seen after := by
  intro rest G hG
  obtain ⟨G', hrun, hgrown⟩ := h rest G hG
  refine ⟨G', ?_, hgrown⟩
  rw [bind_run hrun, hf]
  rfl

end Copies

/-- Several values, one after another. -/
inductive CopiesAll (s : Schema) (g : ObjectGraph) (φ : NodeId → NodeId) (level : Nat) :
    List (FieldType × Value) → List NodeId → List UInt8 → List NodeId → Prop
  | nil {seen : List NodeId} : CopiesAll s g φ level [] seen [] seen
  | cons {type : FieldType} {v : Value} {rest : List (FieldType × Value)}
      {seen mid after : List NodeId} {bytes bytes' : List UInt8} (grows : seen <+: mid)
      (first : Copies s g φ (decodeValue type (nodeReaders s level)) bytes (v.rename φ) seen mid)
      (others : CopiesAll s g φ level rest mid bytes' after) :
      CopiesAll s g φ level ((type, v) :: rest) seen (bytes ++ bytes') after

private theorem CopiesAll.isPrefix {slots : List (FieldType × Value)}
    (h : CopiesAll s g φ level slots seen bytes after) : seen <+: after := by
  induction h with
  | nil => exact List.prefix_rfl
  | cons grows _ _ ih => exact grows.trans ih

/-! ## Values -/

theorem Plain.rename {t : FieldType} {v : Value} (h : Plain t v bytes) (φ : NodeId → NodeId) :
    v.rename φ = v := by
  cases h <;> simp [Value.rename]

theorem copies_plain {t : FieldType} {v : Value} (h : Plain t v bytes) (below : List NodeReader) :
    Copies s g φ (decodeValue t below) bytes (v.rename φ) seen seen := by
  rw [h.rename]
  cases h with
  | bool v => exact .bind_pure (.read (getByte_takes _)) (by cases v <;> rfl)
  | byte v => exact .bind_pure (.read (getByte_takes _)) (by rw [UInt8.toInt8, Int8.toUInt8])
  | int v => exact .bind_pure (.read (getInt_putInt v)) rfl
  | long v => exact .bind_pure (.read (getLong_putLong v)) rfl
  | double bits => exact .bind_pure (.read (getDouble_putDouble bits)) rfl
  | noText => exact .bind_pure (.read (getByte_takes _)) rfl
  | text body =>
    exact .bind_read (getByte_takes present) (.bind_pure (.read (getText_putText body)) rfl)
  | noArray => exact .bind_pure (.read (getInt_putInt (-1))) rfl

theorem times_succ (n : Nat) (d : Decoder α) :
    Decoder.times (n + 1) d = d >>= fun a => Decoder.times n d >>= fun as => pure (a :: as) := by
  rw [Decoder.times, List.replicate_succ, List.mapM_cons]
  rfl

/-- One level of nesting further down. -/
theorem tail_nodeReaders (s : Schema) (level : Nat) :
    (nodeReaders s level).tail = nodeReaders s (level - 1) := by
  cases level <;> rfl

theorem demand_run {n : Nat} {input : List UInt8} (h : n ≤ input.length)
    (short : Nat → FramingCause) (G : ObjectGraph) :
    Decoder.demand n short ⟨input, G⟩ = .ok () ⟨input, G⟩ := by
  rw [Decoder.demand, List.length_take, Nat.min_eq_left h, if_neg (Nat.lt_irrefl n)]

/-- The elements of an array. -/
theorem copies_times {element : FieldType} {items : List Value}
    (h : CopiesAll s g φ level (items.map fun v => (element, v)) seen bytes after)
    (hφ : Numbers φ after) :
    Copies s g φ (Decoder.times items.length (decodeValue element (nodeReaders s level))) bytes
      (items.map (·.rename φ)) seen after := by
  induction items generalizing seen bytes with
  | nil =>
    cases h
    exact .pure []
  | cons v rest ih =>
    cases h with
    | cons grows first others =>
      rw [List.length_cons, times_succ]
      exact first.bind (.bind_pure (ih others) rfl) (hφ.mono others.isPrefix) grows

private theorem copies_array {element : FieldType} {items : List Value}
    (hroom : items.length ≤ greatestLength) (hbytes : items.length ≤ bytes.length)
    (h : CopiesAll s g φ (level - 1) (items.map fun v => (element, v)) seen bytes after)
    (hφ : Numbers φ after) :
    Copies s g φ (decodeValue (.array element) (nodeReaders s level))
      (putCount items.length ++ bytes) ((Value.array items).rename φ) seen after := by
  have hcount := toInt_ofNat hroom
  have hne : Int32.ofNat items.length ≠ -1 := fun he => by
    rw [he] at hcount
    have hneg : (-1 : Int32).toInt = -1 := by decide
    omega
  rw [Value.rename, decodeValue]
  refine .bind_read (getInt_putCount hroom) ?_
  simp only [if_neg hne, if_neg (not_ofNat_lt_zero hroom), hcount, Int.toNat_natCast,
    tail_nodeReaders]
  intro rest G hG
  obtain ⟨G', hrun, hgrown⟩ := copies_times h hφ rest G hG
  -- Every element takes a byte, so the announced number of elements passes the check.
  have henough : items.length ≤ (bytes ++ rest).length := by
    rw [List.length_append]
    omega
  refine ⟨G', ?_, hgrown⟩
  rw [bind_run (demand_run henough _ G), bind_run hrun]
  rfl

/-! ## Nodes -/

/-- Types that frames can describe: not too many fields, and the persisted ones have types whose
names are read as they are written. -/
structure Describable (s : Schema) : Prop where
  fewFields : ∀ name t, s.get? name = some t → t.fields.length < Nat.pow 2 31
  readable : ∀ name t f, s.get? name = some t → f ∈ t.fields → f.transient = false →
    FieldType.ofWireName f.type.wireName = .ok f.type

/-- A schema with a single type needs no more than a look at its fields. -/
theorem Describable.of_single {t : TypeDef} (hs : s.types = [t])
    (hfew : t.fields.length < Nat.pow 2 31)
    (hread : ∀ f ∈ t.fields, (FieldType.ofWireName f.type.wireName).toOption = some f.type) :
    Describable s := by
  have htype : ∀ name u, s.get? name = some u → u = t := fun name u hu =>
    List.mem_singleton.mp (hs ▸ Schema.mem_of_get? hu)
  refine ⟨fun name u hu => ?_, fun name u f hu hf _ => ?_⟩
  · rw [htype name u hu]
    exact hfew
  · rw [htype name u hu] at hf
    exact ok_of_toOption (hread f hf)

/-- The types of the persisted fields are read as they are written. -/
def ReadableType (t : TypeDef) : Prop :=
  ∀ f ∈ t.persisted, FieldType.ofWireName f.1.type.wireName = .ok f.1.type

/-- A type that frames can describe. -/
structure DescribableType (t : TypeDef) : Prop where
  fewFields : t.persistedCount ≤ greatestLength
  readable : ReadableType t

private theorem mem_fields {t : TypeDef} {f : FieldDef × Nat} (h : f ∈ t.persisted) :
    f.1 ∈ t.fields :=
  List.mem_of_getElem? (TypeDef.mem_persisted.mp h).1

theorem persistedCount_le {t : TypeDef} (hfew : t.fields.length < Nat.pow 2 31) :
    t.persistedCount ≤ greatestLength := by
  have hle : t.persistedCount ≤ t.fields.length := List.length_filter_le ..
  show _ ≤ Nat.pow 2 31 - 1
  omega

private theorem Describable.ofWireName_persisted (hs : Describable s) {typeName : String}
    {t : TypeDef} (ht : s.get? typeName = some t) {f : FieldDef × Nat} (hf : f ∈ t.persisted) :
    FieldType.ofWireName f.1.type.wireName = .ok f.1.type :=
  hs.readable _ t f.1 ht (mem_fields hf) (TypeDef.mem_persisted.mp hf).2

theorem Describable.type (hs : Describable s) {typeName : String} {t : TypeDef}
    (ht : s.get? typeName = some t) : DescribableType t :=
  ⟨persistedCount_le (hs.fewFields _ _ ht), fun _ hf => hs.ofWireName_persisted ht hf⟩

/-- Where names are unique, the receiver finds the field that the sender has named. -/
theorem matchField_ok {t : TypeDef} {f : FieldDef × Nat} {places : List Nat}
    (hn : t.fieldNames.Nodup) (hf : f ∈ t.persisted) (hnew : f.2 ∉ places) :
    matchField t places f.1.name f.1.type = .ok f := by
  rw [matchField, TypeDef.find?_persisted hn hf]
  simp only [if_neg hnew, ne_eq, not_true, if_false]

private theorem layout_run {t : TypeDef} (hn : t.fieldNames.Nodup)
    (hread : ∀ f ∈ t.persisted, FieldType.ofWireName f.1.type.wireName = .ok f.1.type)
    {fs : List (FieldDef × Nat)} {places : List Nat} {parts : List (List UInt8)}
    (hmem : ∀ f ∈ fs, f ∈ t.persisted ∧ f.2 ∉ places) (hplaces : (fs.map (·.2)).Nodup)
    (hput : fs.mapM (fun f => encodeFieldMeta f.1) = .ok parts) (rest : List UInt8)
    (G : ObjectGraph) :
    decodeLayout t fs.length places ⟨parts.flatten ++ rest, G⟩ = .ok fs ⟨rest, G⟩ := by
  induction fs generalizing places parts with
  | nil =>
    cases hput
    rfl
  | cons f fs ih =>
    rw [List.mapM_cons] at hput
    obtain ⟨part, hpart, hput⟩ := bind_eq_ok.mp hput
    obtain ⟨parts, hparts, hdone⟩ := bind_eq_ok.mp hput
    cases hdone
    obtain ⟨name, hname, hpart⟩ := bind_eq_ok.mp hpart
    obtain ⟨type, htype, hdone⟩ := bind_eq_ok.mp hpart
    cases hdone
    obtain ⟨hf, hnew⟩ := hmem f List.mem_cons_self
    obtain ⟨hplace, hrest⟩ := List.nodup_cons.mp hplaces
    have hlater : ∀ f' ∈ fs, f' ∈ t.persisted ∧ f'.2 ∉ f.2 :: places := by
      intro f' hf'
      obtain ⟨hmem', hnew'⟩ := hmem f' (List.mem_cons_of_mem _ hf')
      refine ⟨hmem', fun hc => ?_⟩
      rcases List.mem_cons.mp hc with he | hc
      · exact hplace (List.mem_map.mpr ⟨f', hf', he⟩)
      · exact hnew' hc
    rw [List.flatten_cons, List.append_assoc, List.append_assoc, List.length_cons, decodeLayout,
      bind_run (read_run (getText_putText hname) _ G),
      bind_run (read_run (getText_putText htype) _ G),
      bind_run (lift_run (hread f hf) _), bind_run (lift_run (matchField_ok hn hf hnew) _),
      bind_run (ih hlater hrest hparts)]
    rfl

theorem setField_run {id : NodeId} {name : String} {v : Value} {n n' : Node} {input : List UInt8}
    (hnode : G.get? id = some n) (hset : n.set name v = .ok n') :
    Decoder.setField id name v ⟨input, G⟩ = .ok () ⟨input, G.put id n'⟩ := by
  have hwith : G.nodeWith id name v = .ok n' := by
    rw [ObjectGraph.nodeWith, ObjectGraph.node, hnode]
    exact hset
  rw [Decoder.setField]
  simp only [hwith]

/-- Filling in the fields of a node that is in the graph already. Each value may make the graph
grow. -/
theorem fill_run {t : TypeDef} (hn : t.fieldNames.Nodup) {p : NodeId}
    {slots : List (FieldType × Value)} (h : CopiesAll s g φ level slots seen bytes after)
    (hφ : Numbers φ after) {fs : List (FieldDef × Nat)} {value : FieldDef × Nat → Value}
    (hslots : List.Forall₂
      (fun f slot => slot.1 = f.1.type ∧ slot.2.conformsTo slot.1 = true) fs slots)
    (hfs : ∀ f ∈ fs, t.fields[f.2]? = some f.1 ∧ value f = .zero f.1.type) (hfresh : fs.Nodup)
    (hp : p.index < seen.length) (rest : List UInt8) {G : ObjectGraph}
    (hsize : G.size = seen.length) (hnode : G.get? p = some (.filled t value)) :
    ∃ G' value', (fs.forM fun f => do
        Decoder.setField p f.1.name (← decodeValue f.1.type (nodeReaders s level)))
          ⟨bytes ++ rest, G⟩ = .ok () ⟨rest, G'⟩ ∧
      G'.get? p = some (.filled t value') ∧ (∀ f, f ∉ fs → value' f = value f) ∧
      List.Forall₂ (fun f slot => value' f = slot.2.rename φ) fs slots ∧
      Grown s g φ [p] seen after G G' := by
  induction h generalizing fs value rest G with
  | nil =>
    cases hslots
    exact ⟨G, value, rfl, hnode, fun f _ => rfl, .nil, .refl [p] hsize⟩
  | @cons type v slots seen mid after bytes bytes' grows first others ih =>
    cases hslots with
    | @cons f _ fs _ hslot hslots =>
      obtain ⟨rfl, hconforms⟩ : type = f.1.type ∧ v.conformsTo type = true := hslot
      obtain ⟨hf, hzero⟩ := hfs f List.mem_cons_self
      obtain ⟨hnotin, hrestFresh⟩ := List.nodup_cons.mp hfresh
      have hmid := hφ.mono others.isPrefix
      -- The value comes first, and leaves the node alone.
      obtain ⟨G₁, hvalue, hgrown⟩ := first (bytes' ++ rest) G hsize
      have hnode₁ : G₁.get? p = some (.filled t value) :=
        (hgrown.old p hp List.not_mem_nil).trans hnode
      have hsort : (value f).sort = (v.rename φ).sort := by
        rw [hzero, Value.sort_rename, Value.sort_of_conformsTo hconforms]
      have hset : Decoder.setField p f.1.name (v.rename φ) ⟨bytes' ++ rest, G₁⟩ = .ok () ⟨_, _⟩ :=
        setField_run hnode₁ (Node.set_filled hn hf hsort)
      have hgrown₁ := hgrown.put hmid grows hp (.filled t (Function.update value f (v.rename φ)))
      have hp₁ : p.index < G₁.size := by
        rw [hgrown.size]
        exact Nat.lt_of_lt_of_le hp grows.length_le
      have hlater : ∀ f' ∈ fs, t.fields[f'.2]? = some f'.1 ∧
          Function.update value f (v.rename φ) f' = .zero f'.1.type := by
        intro f' hf'
        have hne : f' ≠ f := fun he => hnotin (by rwa [← he])
        rw [Function.update_of_ne hne]
        exact hfs f' (List.mem_cons_of_mem _ hf')
      obtain ⟨G₂, value', hrun, hnode', hsame, hvalues, hgrown₂⟩ := ih hφ hslots hlater hrestFresh
        (Nat.lt_of_lt_of_le hp grows.length_le) rest hgrown₁.size (ObjectGraph.get?_put_self hp₁ _)
      refine ⟨G₂, value', ?_, hnode', fun f' hf' => ?_, .cons ?_ hvalues, ?_⟩
      · rw [List.append_assoc, List.forM, bind_run ((bind_run hvalue).trans hset)]
        exact hrun
      · have hne : f' ≠ f := fun he => hf' (by rw [he]; exact List.mem_cons_self)
        rw [hsame f' fun hm => hf' (List.mem_cons_of_mem _ hm), Function.update_of_ne hne]
      · rw [hsame f hnotin, Function.update_self]
      · refine hgrown₁.trans hgrown₂ hmid grows fun id hid => ?_
        rw [List.mem_singleton.mp hid]
        exact hp

theorem exists_of_forall₂ {R : α → β → Prop} {l : List α} {l' : List β} (h : List.Forall₂ R l l')
    {a : α} (ha : a ∈ l) : ∃ b, R a b := by
  induction h with
  | nil => cases ha
  | cons hab _ ih =>
    rcases List.mem_cons.mp ha with rfl | ha
    · exact ⟨_, hab⟩
    · exact ih ha

/-- A node whose persisted fields have been filled in is a copy. -/
theorem copied_filled {t : TypeDef} {n : Node} {slots : List (FieldType × Value)}
    {value : FieldDef × Nat → Value} (ht : s.get? n.typeName = some t) (hfits : Fits t n slots)
    (hother : ∀ f, f ∉ t.persisted → value f = .zero f.1.type)
    (hvalues : List.Forall₂ (fun f slot => value f = slot.2.rename φ) t.persisted slots) :
    n.Copied t φ (.filled t value) where
  typeName := Schema.name_of_get? ht
  length := by simp [Node.filled]
  persisted i f hf htransient := by
    have hmem : (f, i) ∈ t.persisted := TypeDef.mem_persisted.mpr ⟨hf, htransient⟩
    have hboth := hfits.slots.mp (fun _ _ hslot hvalue => And.intro hslot.2.1 hvalue) hvalues
    obtain ⟨slot, hget, hvalue⟩ := exists_of_forall₂ hboth hmem
    refine ⟨slot.2, hget, ?_⟩
    rw [Node.getElem?_filled, hf, Option.map_some, hvalue]
  transient i f hf htransient := by
    have hnot : (f, i) ∉ t.persisted := fun hm => by
      rw [(TypeDef.mem_persisted.mp hm).2] at htransient
      cases htransient
    rw [Node.getElem?_filled, hf, Option.map_some, hother (f, i) hnot]

private theorem copies_newNode {n : Node} {t : TypeDef} {id : NodeId} (hd : DescribableType t)
    {slots : List (FieldType × Value)} {name : List UInt8} {layout : List (List UInt8)}
    (hnode : g.get? id = some n) (ht : s.get? n.typeName = some t)
    (hfits : Fits t n slots) (hname : putText t.name = .ok name)
    (hlayout : t.persisted.mapM (fun f => encodeFieldMeta f.1) = .ok layout)
    (hfields : CopiesAll s g φ level slots (seen ++ [id]) bytes after) (hφ : Numbers φ after) :
    Copies s g φ (decodeNewNode s (nodeReaders s level))
      (name ++ putCount t.persistedCount ++ layout.flatten ++ bytes) (φ id) seen after := by
  intro rest G hG
  have hn : t.fieldNames.Nodup := s.distinct t (Schema.mem_of_get? ht)
  have htype : s.resolve t.name = .ok t := by
    rw [Schema.resolve, Schema.name_of_get? ht, ht]
  have hp : φ id = ⟨G.size⟩ := by
    refine hφ _ _ ?_
    obtain ⟨later, rfl⟩ := hfields.isPrefix
    rw [hG]
    simp
  have hlayoutRun := layout_run hn hd.readable (fun f hf => ⟨hf, List.not_mem_nil⟩)
    (TypeDef.nodup_places t) hlayout (bytes ++ rest) (G.instantiate t).1
  obtain ⟨G', value, hfill, hcopy, hother, hvalues, hgrown⟩ :=
    fill_run (p := ⟨G.size⟩) hn hfields hφ
    (hfits.slots.imp fun _ _ hslot => ⟨hslot.1, hslot.2.2⟩)
    (fun f hf => ⟨(TypeDef.mem_persisted.mp hf).1, rfl⟩) (.of_map _ (TypeDef.nodup_places t))
    (by simp [hG]) rest (by simp [hG])
    ((ObjectGraph.get?_instantiate_self G t).trans (congrArg some (Node.ofType_eq_filled t)))
  refine ⟨G', ?_, hgrown.size, fun id' hlt _ => ?_, fun id' hid hnew' => ?_⟩
  · have hinstantiate : Decoder.instantiate t
        ⟨putCount t.persistedCount ++ (layout.flatten ++ (bytes ++ rest)), G⟩ =
          .ok ⟨G.size⟩ ⟨_, (G.instantiate t).1⟩ := rfl
    simp only [List.append_assoc]
    rw [decodeNewNode, bind_run (read_run (getText_putText hname) _ G), bind_run (lift_run htype _),
      bind_run hinstantiate, bind_run (read_run (getLength_putCount hd.fewFields _) _ _)]
    simp only [ne_eq, not_true, if_false]
    rw [← TypeDef.length_persisted, bind_run hlayoutRun, bind_run hfill, hp]
    rfl
  · -- Only the new node was changed on the way, and it was not there before.
    have hne : id' ∉ [(⟨G.size⟩ : NodeId)] := fun hm => by
      rw [List.mem_singleton.mp hm, hG] at hlt
      exact Nat.lt_irrefl _ hlt
    have hlt' : id'.index < (seen ++ [id]).length := by
      rw [List.length_append]
      omega
    rw [hgrown.old id' hlt' hne, ObjectGraph.get?_instantiate_of_lt t (hG ▸ hlt)]
  · by_cases he : id' = id
    · rw [he]
      exact ⟨n, t, _, hnode, ht, hp ▸ hcopy, copied_filled ht hfits hother hvalues⟩
    · refine hgrown.new id' hid fun hm => ?_
      rcases List.mem_append.mp hm with hm | hm
      · exact hnew' hm
      · exact he (List.mem_singleton.mp hm)

/-! ## References -/

private theorem copies_absent (below : List NodeReader) :
    Copies s g φ (decodeRef s below) [absent] none seen seen :=
  .bind_pure (.read (getByte_takes absent)) rfl

theorem ofHandle_run {handle : Nat} (hroom : handle ≤ greatestLength) (hlt : handle < G.size)
    (input : List UInt8) :
    Decoder.ofHandle (Int32.ofNat handle) ⟨input, G⟩ = .ok ⟨handle⟩ ⟨input, G⟩ := by
  have hin : (0 : Int) ≤ handle ∧ (handle : Int) < G.size := by omega
  rw [Decoder.ofHandle]
  simp only [toInt_ofNat hroom, if_pos hin, Int.toNat_natCast]

private theorem copies_again (below : List NodeReader) {id : NodeId} {handle : Nat}
    (hid : seen[handle]? = some id) (hroom : seen.length ≤ greatestLength + 1)
    (hφ : Numbers φ seen) :
    Copies s g φ (decodeRef s below) (present :: backReference :: putCount handle)
      (some (φ id)) seen seen := by
  have hlt : handle < seen.length := (List.getElem?_eq_some_iff.mp hid).1
  have hhandle : handle ≤ greatestLength := by omega
  have hdecode : Copies s g φ (Decoder.read getInt >>= fun n => Decoder.ofHandle n >>= fun id =>
      pure (some id)) (putCount handle) (some (φ id)) seen seen := by
    intro rest G hG
    refine ⟨G, ?_, .refl [] hG⟩
    rw [bind_run (read_run (getInt_putCount hhandle) rest G),
      bind_run (ofHandle_run hhandle (hG ▸ hlt) rest), hφ handle id hid]
    rfl
  have hbytes : present :: backReference :: putCount handle =
      [present] ++ ([backReference] ++ putCount handle) := rfl
  rw [hbytes]
  exact .bind_read (getByte_takes present) (.bind_read (getByte_takes backReference) hdecode)

private theorem copies_first (below : List NodeReader) {id : NodeId}
    (h : Copies s g φ (decodeNewNode s below) bytes id seen after) :
    Copies s g φ (decodeRef s below) (present :: newNode :: bytes) (some id) seen after :=
  .bind_read (getByte_takes present) (.bind_read (getByte_takes newNode) (.bind_pure h rfl))

/-! ## All together -/

/-- The decoder takes back what was written for a task. -/
def ReadsBack (s : Schema) (g : ObjectGraph) (φ : NodeId → NodeId) (level : Nat)
    (seen : List NodeId) (bytes : List UInt8) (after : List NodeId) : Task → Prop
  | .ref target =>
    Copies s g φ (decodeRef s (nodeReaders s level)) bytes (target.map φ) seen after
  | .value type v =>
    Copies s g φ (decodeValue type (nodeReaders s level)) bytes (v.rename φ) seen after
  | .values slots => CopiesAll s g φ level slots seen bytes after

theorem Writes.length_le {task : Task} (h : Writes s g level task seen bytes after)
    (hroom : seen.length ≤ greatestLength + 1) : after.length ≤ greatestLength + 1 := by
  induction h with
  | first _ room _ _ _ _ _ _ ih =>
    refine ih ?_
    rw [List.length_append, List.length_singleton]
    omega
  | cons _ _ ihFirst ih => exact ih (ihFirst hroom)
  | array _ _ ih => exact ih hroom
  | reference _ ih => exact ih hroom
  | _ => exact hroom

/-- Frames can describe the types of all nodes of a graph. -/
def DescribableNodes (s : Schema) (g : ObjectGraph) : Prop :=
  ∀ id n t, g.get? id = some n → s.get? n.typeName = some t → DescribableType t

/-- **The decoder reads back what the encoder wrote.** -/
theorem Writes.copied (hd : DescribableNodes s g) {task : Task}
    (h : Writes s g level task seen bytes after) (hroom : seen.length ≤ greatestLength + 1)
    (hφ : Numbers φ after) : ReadsBack s g φ level seen bytes after task := by
  induction h with
  | absent => exact copies_absent _
  | again old => exact copies_again _ (getElem?_of_idxOf? old) hroom hφ
  | first new room node type fits putName putLayout _ ih =>
    refine copies_first _
      (copies_newNode (hd _ _ _ node type) node type fits putName putLayout (ih ?_ hφ) hφ)
    rw [List.length_append, List.length_singleton]
    omega
  | nil => exact .nil
  | cons first others ihFirst ih =>
    -- The later values only add to the nodes that have names.
    have hprefix := others.visits.isPrefix
    exact .cons first.visits.isPrefix (ihFirst hroom (hφ.mono hprefix))
      (ih (first.length_le hroom) hφ)
  | plain body => exact copies_plain body _
  | array room body ih =>
    have hsize := body.size_le
    rw [Task.size, List.length_map] at hsize
    exact copies_array room hsize (ih hroom hφ) hφ
  | @reference level typeName target _ _ _ _ ih =>
    have hvalue : Copies s g φ (decodeRef s (nodeReaders s level)) _ (target.map φ) _ _ :=
      ih hroom hφ
    show Copies s g φ _ _ ((Value.ref target).rename φ) _ _
    rw [Value.rename]
    exact .bind_pure hvalue rfl

theorem Writes.readsBack (hs : Describable s) {task : Task}
    (h : Writes s g level task seen bytes after) (hroom : seen.length ≤ greatestLength + 1)
    (hφ : Numbers φ after) : ReadsBack s g φ level seen bytes after task :=
  h.copied (fun _ _ _ _ ht => hs.type ht) hroom hφ

end DatagramRpc.Frame
