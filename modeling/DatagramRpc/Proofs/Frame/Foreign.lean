import DatagramRpc.Proofs.Frame.WellFormed
import DatagramRpc.Proofs.Graph.Agreement

/-!
# Frames of another schema

The receiver of a frame may know other types than its sender. Up to the first node on whose type the
two schemas disagree, the receiver takes back exactly what was written, since it reads every value
as the type that the sender gave it. At that node it stops with a fault of the schema. So nothing is
misread, and no disagreement passes for a frame that is cut off or damaged.
-/

namespace DatagramRpc.Frame

open Wire ObjectGraph

variable {α β : Type} {s s' : Schema} {g G : ObjectGraph} {P : NodeId → Prop} {level : Nat}
  {seen mid after : List NodeId} {bytes bytes' rest : List UInt8} {t t' : TypeDef}

/-- What comes of reading the nodes after those seen, when `P` tells which can be read: all of it is
taken, or there is a fault of the schema at one that cannot. -/
inductive Settled (s' : Schema) (P : NodeId → Prop) (seen after : List NodeId) (rest : List UInt8) :
    EStateM.Result Fault DecodeState α → Prop
  | taken {a : α} {G : ObjectGraph} (intact : Intact s' G) (size : G.size = after.length)
      (readable : ∀ id ∈ after, id ∉ seen → P id) : Settled s' P seen after rest (.ok a ⟨rest, G⟩)
  | refused {cause : SchemaCause} {st : DecodeState} {id : NodeId} (mem : id ∈ after)
      (new : id ∉ seen)
      (unreadable : ¬ P id) : Settled s' P seen after rest (.error (.schema cause) st)

/-- Whatever follows the bytes, and whatever the graph holds so far. -/
def Settles (s' : Schema) (P : NodeId → Prop) (d : Decoder α) (bytes : List UInt8)
    (seen after : List NodeId) : Prop :=
  ∀ (rest : List UInt8) (G : ObjectGraph), Intact s' G → G.size = seen.length →
    Settled s' P seen after rest (d ⟨bytes ++ rest, G⟩)

private theorem bind_refused {d : Decoder α} {f : α → Decoder β} {st st' : DecodeState}
    {fault : Fault} (h : d st = .error fault st') : (d >>= f) st = .error fault st' := by
  show EStateM.bind d f st = _
  rw [EStateM.bind, h]

/-- What comes of the rest, once a part has been taken. -/
theorem Settled.behind {result : EStateM.Result Fault DecodeState α} (hp : seen <+: mid)
    (readable : ∀ id ∈ mid, id ∉ seen → P id) (h : Settled s' P mid after rest result) :
    Settled s' P seen after rest result := by
  cases h with
  | refused mem new unreadable => exact .refused mem (fun hs => new (hp.subset hs)) unreadable
  | taken intact size readable' =>
    refine .taken intact size fun id hid hnew => ?_
    by_cases hmid : id ∈ mid
    · exact readable id hmid hnew
    · exact readable' id hid hmid

/-- What is done with the result takes nothing more. -/
theorem Settled.bind_pure {d : Decoder α} {st : DecodeState}
    (h : Settled s' P seen after rest (d st)) (b : α → β) :
    Settled s' P seen after rest ((d >>= fun a => Pure.pure (b a)) st) := by
  generalize hrun : d st = result at h
  cases h with
  | refused mem new unreadable =>
    rw [bind_refused hrun]
    exact .refused mem new unreadable
  | taken intact size readable =>
    rw [bind_run hrun]
    exact .taken intact size readable

namespace Settles

variable {d : Decoder α} {f : α → Decoder β}

private theorem pure (b : β) : Settles s' P (Pure.pure b : Decoder β) [] seen seen :=
  fun _ _ hG hsize => .taken hG hsize fun _ hid hnew => absurd hid hnew

private theorem bind (h : Settles s' P d bytes seen mid)
    (h' : ∀ a, Settles s' P (f a) bytes' mid after) (hp : seen <+: mid) (hp' : mid <+: after) :
    Settles s' P (d >>= f) (bytes ++ bytes') seen after := by
  intro rest G hG hsize
  have hfirst := h (bytes' ++ rest) G hG hsize
  rw [List.append_assoc]
  generalize hrun : d ⟨bytes ++ (bytes' ++ rest), G⟩ = result at hfirst
  cases hfirst with
  | refused mem new unreadable =>
    rw [bind_refused hrun]
    exact .refused (hp'.subset mem) new unreadable
  | @taken a G₁ intact size readable =>
    rw [bind_run hrun]
    exact (h' a rest G₁ intact size).behind hp readable

/-- A step that reads from the input alone comes first. -/
theorem bind_read {r : Reader α} {a : α} (h : Takes r bytes a)
    (h' : Settles s' P (f a) bytes' seen after) :
    Settles s' P (Decoder.read r >>= f) (bytes ++ bytes') seen after := by
  intro rest G hG hsize
  rw [List.append_assoc, bind_run (read_run h _ G)]
  exact h' rest G hG hsize

private theorem bind_pure (h : Settles s' P d bytes seen after) (b : α → β) :
    Settles s' P (d >>= fun a => Pure.pure (b a)) bytes seen after :=
  fun rest G hG hsize => (h rest G hG hsize).bind_pure b

end Settles

/-! ## Values -/

private theorem settles_plain {type : FieldType} {v : Value} (h : Plain type v bytes)
    (level : Nat) : Settles s' P (decodeValue type (nodeReaders s' level)) bytes seen seen := by
  intro rest G hG hsize
  have hcopies : Copies s' .empty id (decodeValue type (nodeReaders s' level)) bytes
      (v.rename id) seen seen :=
    copies_plain h _
  obtain ⟨G', hrun, hgrown⟩ := hcopies rest G hsize
  have hbuilt := (builds_decodeValue type (allBuild_nodeReaders s' level) _ hG).of_ok hrun
  rw [hrun]
  exact .taken hbuilt.1.intact hgrown.size fun _ hid hnew => absurd hid hnew

/-- Values of several types, one after another. -/
inductive SettlesAll (s' : Schema) (P : NodeId → Prop) (level : Nat) :
    List FieldType → List NodeId → List UInt8 → List NodeId → Prop
  | nil {seen : List NodeId} : SettlesAll s' P level [] seen [] seen
  | cons {type : FieldType} {types : List FieldType} {seen mid after : List NodeId}
      {bytes bytes' : List UInt8} (grows : seen <+: mid)
      (first : Settles s' P (decodeValue type (nodeReaders s' level)) bytes seen mid)
      (others : SettlesAll s' P level types mid bytes' after) :
      SettlesAll s' P level (type :: types) seen (bytes ++ bytes') after

private theorem SettlesAll.isPrefix {types : List FieldType}
    (h : SettlesAll s' P level types seen bytes after) : seen <+: after := by
  induction h with
  | nil => exact List.prefix_rfl
  | cons grows _ _ ih => exact grows.trans ih

private theorem settles_times {element : FieldType} {n : Nat}
    (h : SettlesAll s' P level (List.replicate n element) seen bytes after) :
    Settles s' P (Decoder.times n (decodeValue element (nodeReaders s' level)))
      bytes seen after := by
  induction n generalizing seen bytes with
  | zero =>
    cases h
    exact .pure []
  | succ n ih =>
    rw [List.replicate_succ] at h
    cases h with
    | cons grows first others =>
      rw [times_succ]
      exact first.bind (fun v => (ih others).bind_pure fun items => v :: items)
        grows others.isPrefix

private theorem settles_array {element : FieldType} {n : Nat} (hroom : n ≤ greatestLength)
    (hbytes : n ≤ bytes.length)
    (h : SettlesAll s' P (level - 1) (List.replicate n element) seen bytes after) :
    Settles s' P (decodeValue (.array element) (nodeReaders s' level))
      (putCount n ++ bytes) seen after := by
  have hcount := toInt_ofNat hroom
  have hne : Int32.ofNat n ≠ -1 := fun he => by
    rw [he] at hcount
    have hneg : (-1 : Int32).toInt = -1 := by decide
    omega
  rw [decodeValue]
  refine .bind_read (getInt_putCount hroom) ?_
  simp only [if_neg hne, if_neg (not_ofNat_lt_zero hroom), hcount, Int.toNat_natCast,
    tail_nodeReaders]
  intro rest G hG hsize
  have henough : n ≤ (bytes ++ rest).length := by
    rw [List.length_append]
    omega
  rw [bind_run (demand_run henough _ G)]
  exact (settles_times h).bind_pure Value.array rest G hG hsize

/-! ## Fields by name and type -/

/-- What comes of matching listed fields with those of a type: each has its counterpart there, or
one has none. -/
inductive Matched (t' : TypeDef) (fs : List (FieldDef × Nat)) (rest : List UInt8)
    (G : ObjectGraph) :
    EStateM.Result Fault DecodeState (List (FieldDef × Nat)) → Prop
  | found {fs' : List (FieldDef × Nat)}
      (same : fs'.map (fun f => (f.1.name, f.1.type)) = fs.map fun f => (f.1.name, f.1.type))
      (readable : ∀ f ∈ fs, FieldType.ofWireName f.1.type.wireName = .ok f.1.type) :
      Matched t' fs rest G (.ok fs' ⟨rest, G⟩)
  | missed {cause : SchemaCause} {st : DecodeState} {f : FieldDef × Nat} (mem : f ∈ fs)
      (missing : FieldType.ofWireName f.1.type.wireName = .ok f.1.type →
        (f.1.name, f.1.type) ∉ t'.signature) :
      Matched t' fs rest G (.error (.schema cause) st)

private theorem matchField_missing {places : List Nat} {name : String} {sent : FieldType}
    (h : (name, sent) ∉ t'.signature) :
    ∃ cause, matchField t' places name sent = .error (.schema cause) := by
  rw [matchField]
  split
  · exact ⟨_, rfl⟩
  · next f found =>
    have hname : f.1.name = name := by simpa using List.find?_some found
    have htype : sent ≠ f.1.type := fun he =>
      h (TypeDef.mem_signature.mpr ⟨f, List.mem_of_find?_eq_some found, hname, he.symm⟩)
    rw [if_pos htype]
    split
    · exact ⟨_, rfl⟩
    · exact ⟨_, rfl⟩

/-- A type that is not read as it was written is noticed if the receiver has the field itself. -/
theorem field_unreadable (places : List Nat) {f : FieldDef × Nat} (hn' : t'.fieldNames.Nodup)
    (hf : f ∈ t'.persisted) (hread : FieldType.ofWireName f.1.type.wireName ≠ .ok f.1.type)
    (next : FieldDef × Nat → Decoder β) (st : DecodeState) :
    ∃ cause, (Decoder.lift (FieldType.ofWireName f.1.type.wireName) >>= fun sent =>
      Decoder.lift (matchField t' places f.1.name sent) >>=
        next) st = .error (.schema cause) st := by
  cases hsent : FieldType.ofWireName f.1.type.wireName with
  | error fault =>
    obtain ⟨cause, rfl⟩ := ofWireName_refused hsent
    exact ⟨cause, rfl⟩
  | ok sent =>
    have hmissing : (f.1.name, sent) ∉ t'.signature := fun hmem => by
      obtain ⟨f', hf', hname, htype⟩ := TypeDef.mem_signature.mp hmem
      have hsame := (TypeDef.find?_persisted hn' hf').symm
      rw [hname, TypeDef.find?_persisted hn' hf] at hsame
      rw [hsent, ← htype, Option.some.inj hsame] at hread
      exact hread rfl
    obtain ⟨cause, hrefused⟩ :
        ∃ cause, matchField t' places f.1.name sent = .error (.schema cause) :=
      matchField_missing hmissing
    refine ⟨cause, ?_⟩
    rw [bind_run (lift_run rfl _), hrefused]
    rfl

/-- No field is taken twice, since the sender names none twice. -/
theorem matched_decodeLayout (hn' : t'.fieldNames.Nodup) {fs : List (FieldDef × Nat)}
    {places : List Nat} {parts : List (List UInt8)}
    (hread : ∀ f ∈ fs, FieldType.ofWireName f.1.type.wireName = .ok f.1.type ∨ f ∈ t'.persisted)
    (hnames : (fs.map (·.1.name)).Nodup)
    (hplaces : ∀ f' ∈ t'.persisted, f'.2 ∈ places → f'.1.name ∉ fs.map (·.1.name))
    (hput : fs.mapM (fun f => encodeFieldMeta f.1) = .ok parts) (rest : List UInt8)
    (G : ObjectGraph) :
    Matched t' fs rest G (decodeLayout t' fs.length places ⟨parts.flatten ++ rest, G⟩) := by
  induction fs generalizing places parts with
  | nil =>
    cases hput
    exact .found rfl fun f hf => nomatch hf
  | cons f fs ih =>
    rw [List.mapM_cons] at hput
    obtain ⟨part, hpart, hput⟩ := bind_eq_ok.mp hput
    obtain ⟨parts, hparts, hdone⟩ := bind_eq_ok.mp hput
    cases hdone
    obtain ⟨name, hname, hpart⟩ := bind_eq_ok.mp hpart
    obtain ⟨type, htype, hdone⟩ := bind_eq_ok.mp hpart
    cases hdone
    obtain ⟨hnew, hnames⟩ := List.nodup_cons.mp hnames
    rw [List.flatten_cons, List.append_assoc, List.append_assoc, List.length_cons, decodeLayout,
      bind_run (read_run (getText_putText hname) _ G),
      bind_run (read_run (getText_putText htype) _ G)]
    by_cases hown : FieldType.ofWireName f.1.type.wireName = .ok f.1.type
    case neg =>
      have hf := (hread f List.mem_cons_self).resolve_left hown
      obtain ⟨cause, hrefused⟩ := field_unreadable places hn' hf hown _ _
      rw [hrefused]
      exact .missed List.mem_cons_self fun h => absurd h hown
    rw [bind_run (lift_run hown _)]
    by_cases hmem : (f.1.name, f.1.type) ∈ t'.signature
    · obtain ⟨f', hf', hsameName, hsameType⟩ := TypeDef.mem_signature.mp hmem
      have hfree : f'.2 ∉ places := fun hp => hplaces f' hf' hp (hsameName ▸ List.mem_cons_self)
      have hmatch := matchField_ok hn' hf' hfree
      rw [hsameName, hsameType] at hmatch
      have hlater : ∀ f'' ∈ t'.persisted, f''.2 ∈ f'.2 :: places →
          f''.1.name ∉ fs.map (·.1.name) := by
        intro f'' hf'' hp
        rcases List.mem_cons.mp hp with he | hp
        · have hsame : some f''.1 = some f'.1 := by
            rw [← (TypeDef.mem_persisted.mp hf'').1, ← (TypeDef.mem_persisted.mp hf').1, he]
          rw [Option.some.inj hsame, hsameName]
          exact hnew
        · exact fun hc => hplaces f'' hf'' hp (List.mem_cons_of_mem _ hc)
      have hothers := ih (fun g hg => hread g (List.mem_cons_of_mem _ hg)) hnames hlater hparts
      rw [bind_run (lift_run hmatch _)]
      generalize hrun : decodeLayout t' fs.length (f'.2 :: places) _ = result at hothers
      cases hothers with
      | found same readable =>
        rw [bind_run hrun]
        refine .found ?_ (List.forall_mem_cons.mpr ⟨hown, readable⟩)
        rw [List.map_cons, List.map_cons, same, hsameName, hsameType]
      | missed mem missing =>
        rw [bind_refused hrun]
        exact .missed (List.mem_cons_of_mem _ mem) missing
    · obtain ⟨cause, hrefused⟩ :
          ∃ cause, matchField t' places f.1.name f.1.type = .error (.schema cause) :=
        matchField_missing hmem
      rw [hrefused]
      exact .missed List.mem_cons_self fun _ => hmem

private theorem subset_of_matched {fs' : List (FieldDef × Nat)} (hfs' : ∀ f ∈ fs', f ∈ t'.persisted)
    (same : fs'.map (fun f => (f.1.name, f.1.type)) = t.persisted.map fun f =>
      (f.1.name, f.1.type)) : t.signature ⊆ t'.signature := by
  rintro ⟨name, type⟩ hfield
  obtain ⟨f, hf, rfl, rfl⟩ := TypeDef.mem_signature.mp hfield
  have hlisted : (f.1.name, f.1.type) ∈ fs'.map fun f => (f.1.name, f.1.type) :=
    same ▸ List.mem_map.mpr ⟨f, hf, rfl⟩
  obtain ⟨f', hf', he⟩ := List.mem_map.mp hlisted
  exact TypeDef.mem_signature.mpr ⟨f', hfs' f' hf', congrArg Prod.fst he, congrArg Prod.snd he⟩

/-! ## Nodes -/

/-- The fields of a node, in the order in which the frame lists them. -/
theorem settled_fill (ht' : s'.get? t'.name = some t') {p : NodeId} {types : List FieldType}
    (h : SettlesAll s' P level types seen bytes after) {fs : List (FieldDef × Nat)}
    {value : FieldDef × Nat → Value} (htypes : fs.map (·.1.type) = types)
    (hfs : ∀ f ∈ fs, f ∈ t'.persisted ∧ value f = .zero f.1.type) (hfresh : fs.Nodup)
    (rest : List UInt8) {G : ObjectGraph} (hG : Intact s' G) (hsize : G.size = seen.length)
    (hp : G.get? p = some (.filled t' value))
    (hvalue : ∀ f ∈ t'.fields.zipIdx, f.1.Admits G.size (value f)) :
    Settled s' P seen after rest ((fs.forM fun f => do
      Decoder.setField p f.1.name (← decodeValue f.1.type (nodeReaders s' level)))
        ⟨bytes ++ rest, G⟩) := by
  induction h generalizing fs value G with
  | nil =>
    cases List.map_eq_nil_iff.mp htypes
    exact .taken hG hsize fun _ hid hnew => absurd hid hnew
  | @cons type types seen mid after bytes bytes' grows first others ih =>
    obtain ⟨f, fs, rfl, rfl, hrest⟩ := List.map_eq_cons_iff.mp htypes
    obtain ⟨hf, hzero⟩ := hfs f List.mem_cons_self
    obtain ⟨hnotin, hothers⟩ := List.nodup_cons.mp hfresh
    have hfirst := first (bytes' ++ rest) G hG hsize
    have hbuilds := builds_decodeValue f.1.type (allBuild_nodeReaders s' level)
      ⟨bytes ++ (bytes' ++ rest), G⟩ hG
    rw [List.append_assoc, List.forM]
    generalize hrun : decodeValue f.1.type (nodeReaders s' level) _ = result at hfirst
    cases hfirst with
    | refused mem new unreadable =>
      rw [bind_refused (bind_refused hrun)]
      exact .refused (others.isPrefix.subset mem) new unreadable
    | @taken v G₁ intact size readable =>
      obtain ⟨hbuilt, hv⟩ := hbuilds.of_ok hrun
      obtain ⟨G₂, hset, hsize₂, hfilling, hp₂, hvalue₂⟩ :=
        setField_built ht' hp hvalue hf hzero hbuilt hv
      have hlater : ∀ f' ∈ fs, f' ∈ t'.persisted ∧
          Function.update value f v f' = .zero f'.1.type := by
        intro f' hf'
        have hne : f' ≠ f := fun he => hnotin (he ▸ hf')
        rw [Function.update_of_ne hne]
        exact hfs f' (List.mem_cons_of_mem _ hf')
      rw [bind_run ((bind_run hrun).trans hset)]
      exact (ih hrest hlater hothers hfilling.intact
        (hsize₂.trans size) hp₂ hvalue₂).behind grows readable

/-- What the decoder does for a node whose type it has read. -/
def decodeFields (t : TypeDef) (below : List NodeReader) : Decoder NodeId := do
  let id ← Decoder.instantiate t
  let count ← Decoder.read (getLength .negativeFieldCount)
  if count ≠ t.persistedCount then
    throw (.schema (.frameFieldCount t.name count t.persistedCount))
  let layout ← decodeLayout t count []
  layout.forM fun f => do
    Decoder.setField id f.1.name (← decodeValue f.1.type below)
  return id

private theorem decodeNewNode_eq (s : Schema) (below : List NodeReader) :
    decodeNewNode s below = (do
      let t ← Decoder.lift (s.resolve (← Decoder.read getText))
      decodeFields t below) := rfl

/-- The fields of a node are taken if their types are read as they are written and the two types
agree. Else their number differs, or there is one to miss. -/
theorem settles_fields (hfew : t.persistedCount ≤ greatestLength) {typeName : String} {id : NodeId}
    {layout : List (List UInt8)} (new : id ∉ seen) (ht : s.get? typeName = some t)
    (ht' : s'.get? t'.name = some t') (hread : ReadableType t ∨ t' = t)
    (hlayout : t.persisted.mapM (fun f => encodeFieldMeta f.1) = .ok layout)
    (hfields : SettlesAll s' P level (t.persisted.map (·.1.type)) (seen ++ [id]) bytes after)
    (hP : P id ↔ ReadableType t ∧ t.Agrees t') :
    Settles s' P (decodeFields t' (nodeReaders s' level))
      (putCount t.persistedCount ++ (layout.flatten ++ bytes)) seen after := by
  intro rest G hG hsize
  have hn : t.fieldNames.Nodup := s.distinct t (Schema.mem_of_get? ht)
  have hn' : t'.fieldNames.Nodup := s'.distinct t' (Schema.mem_of_get? ht')
  have hmem : id ∈ after :=
    hfields.isPrefix.subset (List.mem_append_right _ (List.mem_singleton_self id))
  have hinstantiate : Decoder.instantiate t'
      ⟨putCount t.persistedCount ++ (layout.flatten ++ (bytes ++ rest)), G⟩ =
        .ok ⟨G.size⟩ ⟨_, (G.instantiate t').1⟩ := rfl
  rw [List.append_assoc, List.append_assoc, decodeFields, bind_run hinstantiate,
    bind_run (read_run (getLength_putCount hfew _) _ _)]
  simp only
  by_cases hsame : t.persistedCount = t'.persistedCount
  · rw [if_neg (not_not.mpr hsame)]
    have hnames : (t.persisted.map (·.1.name)).Nodup :=
      (TypeDef.nodup_names hn).sublist (List.filter_sublist.map _)
    have hmatched : Matched t' t.persisted (bytes ++ rest) (G.instantiate t').1
        (decodeLayout t' t.persisted.length [] ⟨layout.flatten ++ (bytes ++ rest), _⟩) :=
      matched_decodeLayout hn'
        (fun f hf => hread.imp (· f hf) fun he => by rw [he]; exact hf) hnames
        (fun _ _ hp => absurd hp List.not_mem_nil) hlayout _ _
    have hlisted := ends_decodeLayout t' t.persistedCount []
      ⟨layout.flatten ++ (bytes ++ rest), (G.instantiate t').1⟩
    rw [TypeDef.length_persisted] at hmatched
    generalize hrun : decodeLayout t' t.persistedCount [] _ = result at hmatched
    cases hmatched with
    | @missed cause st f mem missing =>
      rw [bind_refused hrun]
      refine .refused hmem new fun hid => ?_
      obtain ⟨hreadable, hagrees⟩ := hP.mp hid
      exact missing (hreadable f mem)
        ((hagrees _).mp (TypeDef.mem_signature.mpr ⟨f, mem, rfl, rfl⟩))
    | @found fs' same readable =>
      obtain ⟨-, hfs', hplaces⟩ := hlisted.of_ok hrun
      have hid : P id := hP.mpr ⟨readable,
        TypeDef.agrees_of_subset hn (subset_of_matched (fun f hf => (hfs' f hf).1) same) hsame⟩
      have htypes : fs'.map (·.1.type) = t.persisted.map (·.1.type) := by
        have hsnd := congrArg (List.map Prod.snd) same
        rwa [List.map_map, List.map_map] at hsnd
      have hzero := (get?_instantiate_self G t').trans (congrArg some (Node.ofType_eq_filled t'))
      have hfill :=
        settled_fill ht' (p := ⟨G.size⟩) hfields htypes (fun f hf => ⟨(hfs' f hf).1, rfl⟩)
        (.of_map _ hplaces) rest (intact_instantiate hG ht') (by simp [hsize]) hzero
        (fun f _ => f.1.admits_zero _)
      rw [bind_run hrun]
      refine (hfill.behind (List.prefix_append ..) fun id' hmem' hnew => ?_).bind_pure _
      rcases List.mem_append.mp hmem' with hold | hlast
      · exact absurd hold hnew
      · rwa [List.mem_singleton.mp hlast]
  · rw [if_pos hsame]
    exact .refused hmem new fun hid => hsame ((hP.mp hid).2.persistedCount_eq hn hn')

/-- A node can be read if its type can be described and agrees with that of the sender. -/
theorem settles_newNode (hfew : t.persistedCount ≤ greatestLength) {n : Node} {id : NodeId}
    {name : List UInt8} {layout : List (List UInt8)} (new : id ∉ seen)
    (ht : s.get? n.typeName = some t) (hread : ReadableType t ∨ s' = s)
    (hname : putText t.name = .ok name)
    (hlayout : t.persisted.mapM (fun f => encodeFieldMeta f.1) = .ok layout)
    (hfields : SettlesAll s' P level (t.persisted.map (·.1.type)) (seen ++ [id]) bytes after)
    (hP : P id ↔ ReadableType t ∧ s.AgreesOn s' n.typeName) :
    Settles s' P (decodeNewNode s' (nodeReaders s' level))
      (name ++ putCount t.persistedCount ++ layout.flatten ++ bytes) seen after := by
  have hreadable : P id ↔ ReadableType t ∧ ∃ t', s'.get? t.name = some t' ∧ t.Agrees t' := by
    rw [hP, Schema.agreesOn_iff ht, Schema.name_of_get? ht]
  rw [List.append_assoc, List.append_assoc, decodeNewNode_eq]
  refine .bind_read (getText_putText hname) fun rest G hG hsize => ?_
  cases hget : s'.get? t.name with
  | none =>
    have hresolve : s'.resolve t.name = .error (.schema (.unknownType t.name)) := by
      rw [Schema.resolve, hget]
    have hunreadable : ¬ P id := fun hid => by
      obtain ⟨-, t', ht', -⟩ := hreadable.mp hid
      rw [hget] at ht'
      cases ht'
    rw [hresolve]
    exact .refused
      (hfields.isPrefix.subset (List.mem_append_right _ (List.mem_singleton_self id))) new
      hunreadable
  | some t' =>
    have hagrees : P id ↔ ReadableType t ∧ t.Agrees t' := by
      rw [hreadable]
      constructor
      · rintro ⟨hread, u, hu, h⟩
        cases hget.symm.trans hu
        exact ⟨hread, h⟩
      · rintro ⟨hread, h⟩
        exact ⟨hread, t', hget, h⟩
    have hsame : ReadableType t ∨ t' = t := hread.imp_right fun he => by
      rw [he, Schema.name_of_get? ht, ht] at hget
      exact (Option.some.inj hget).symm
    have hresolve : s'.resolve t.name = .ok t' := by rw [Schema.resolve, hget]
    rw [bind_run (lift_run hresolve _)]
    exact settles_fields hfew new ht (resolve_get? hresolve) hsame hlayout hfields
      hagrees rest G hG hsize

/-! ## References -/

private theorem settles_absent (below : List NodeReader) :
    Settles s' P (decodeRef s' below) [absent] seen seen :=
  .bind_read (getByte_takes absent) (.pure none)

private theorem settles_again (below : List NodeReader) {handle : Nat} (hlt : handle < seen.length)
    (hroom : seen.length ≤ greatestLength + 1) :
    Settles s' P (decodeRef s' below) (present :: backReference :: putCount handle) seen seen := by
  have hhandle : handle ≤ greatestLength := by omega
  have hdecode : Settles s' P (Decoder.read getInt >>= fun n => Decoder.ofHandle n >>= fun id =>
      pure (some id)) (putCount handle) seen seen := by
    intro rest G hG hsize
    rw [bind_run (read_run (getInt_putCount hhandle) rest G),
      bind_run (ofHandle_run hhandle (hsize ▸ hlt) rest)]
    exact .taken hG hsize fun _ hid hnew => absurd hid hnew
  have hbytes : present :: backReference :: putCount handle =
      [present] ++ ([backReference] ++ putCount handle) := rfl
  rw [hbytes]
  exact .bind_read (getByte_takes present) (.bind_read (getByte_takes backReference) hdecode)

private theorem settles_first (below : List NodeReader)
    (h : Settles s' P (decodeNewNode s' below) bytes seen after) :
    Settles s' P (decodeRef s' below) (present :: newNode :: bytes) seen after :=
  .bind_read (getByte_takes present) (.bind_read (getByte_takes newNode) (h.bind_pure some))

/-! ## Whole frames -/

/-- What the receiver makes of the bytes for a task. -/
def TaskSettles (s' : Schema) (P : NodeId → Prop) (level : Nat) (seen : List NodeId)
    (bytes : List UInt8) (after : List NodeId) : Task → Prop
  | .ref _ => Settles s' P (decodeRef s' (nodeReaders s' level)) bytes seen after
  | .value type _ => Settles s' P (decodeValue type (nodeReaders s' level)) bytes seen after
  | .values slots => SettlesAll s' P level (slots.map (·.1)) seen bytes after

private theorem Fits.types {n : Node} {slots : List (FieldType × Value)} (h : Fits t n slots) :
    slots.map (·.1) = t.persisted.map (·.1.type) := by
  obtain ⟨-, hslots⟩ := h
  generalize t.persisted = fields at hslots
  induction hslots with
  | nil => rfl
  | cons hslot _ ih => rw [List.map_cons, List.map_cons, ih, hslot.1]

/-- No type has more persisted fields than can be counted. -/
def FewFields (s : Schema) : Prop :=
  ∀ typeName t, s.get? typeName = some t → t.persistedCount ≤ greatestLength

/-- All types are read as they are written, or the receiver has the same schema. -/
def ReadableFor (s s' : Schema) : Prop :=
  ∀ typeName t, s.get? typeName = some t → ReadableType t ∨ s' = s

/-- Nothing that the encoder writes is misread. -/
theorem Writes.settles (hfew : FewFields s) (hread : ReadableFor s s') {task : Task}
    (h : Writes s g level task seen bytes after) (hroom : seen.length ≤ greatestLength + 1)
    (hP : ∀ id n t, g.get? id = some n → s.get? n.typeName = some t →
      (P id ↔ ReadableType t ∧ s.AgreesOn s' n.typeName)) :
    TaskSettles s' P level seen bytes after task := by
  induction h with
  | absent => exact settles_absent _
  | again old =>
    exact settles_again _ (List.getElem?_eq_some_iff.mp (getElem?_of_idxOf? old)).1 hroom
  | first new room node type fits putName putLayout _ ih =>
    refine settles_first _
      (settles_newNode (hfew _ _ type) new type (hread _ _ type) putName putLayout ?_
      (hP _ _ _ node type))
    rw [← fits.types]
    refine ih ?_
    rw [List.length_append, List.length_singleton]
    omega
  | nil => exact .nil
  | cons first _ ihFirst ih =>
    exact .cons first.visits.isPrefix (ihFirst hroom) (ih (first.length_le hroom))
  | plain body => exact settles_plain body _
  | @array level element items seen after bytes room body ih =>
    have hsize := body.size_le
    rw [Task.size, List.length_map] at hsize
    have hall : SettlesAll s' P (level - 1) ((items.map fun v => (element, v)).map (·.1))
        seen bytes after :=
      ih hroom
    rw [List.map_map, show (fun slot : FieldType × Value => slot.1) ∘ (fun v => (element, v)) =
      Function.const Value element from rfl, List.map_const] at hall
    exact settles_array room hsize hall
  | reference _ ih => exact (ih hroom).bind_pure Value.ref

/-- The receiver takes the frame, and all nodes can be read, or it fails because of the schema, and
one cannot. -/
theorem decode_settled_nodes (hfew : FewFields s) (hread : ReadableFor s s')
    (hP : ∀ id n t, g.get? id = some n → s.get? n.typeName = some t →
      (P id ↔ ReadableType t ∧ s.AgreesOn s' n.typeName))
    {root : Option NodeId} {frame : List UInt8} (h : encode s g root = .ok frame) :
    ((∃ decoded, decode s' frame = .ok decoded) ∧ ∀ id, g.Reachable s root id → P id) ∨
      ((∃ cause, decode s' frame = .error (.schema cause)) ∧
        ∃ id, g.Reachable s root id ∧ ¬ P id) := by
  obtain ⟨body, order, rfl, hwrites⟩ := encode_ok h
  have hvisits : g.Visits s [] root.toList order := hwrites.visits
  have hsettles : Settles s' P (decodeRef s' (nodeReaders s' nestingLimit)) body [] order :=
    hwrites.settles hfew hread (Nat.zero_le _) hP
  have hsettled := hsettles [] .empty (intact_empty s') rfl
  rw [List.append_nil] at hsettled
  have hdecode : decode s' (withTrailer body) = decodeBody s' body := by
    rw [decode, checkTrailer_withTrailer]
    rfl
  rw [hdecode, decodeBody]
  generalize decodeRef s' (nodeReaders s' nestingLimit) ⟨body, .empty⟩ = result at hsettled
  cases hsettled with
  | taken _ _ readable =>
    refine .inl ⟨⟨_, rfl⟩, fun id hreach => ?_⟩
    exact readable id (hvisits.mem_iff_reachable.mpr hreach) List.not_mem_nil
  | @refused cause st id mem _ unreadable =>
    exact .inr ⟨⟨cause, rfl⟩, id, hvisits.mem_iff_reachable.mp mem, unreadable⟩

/-- The receiver takes the frame, and agrees with the sender on the types of all nodes, or it fails
because of the schema, and they differ on one. -/
theorem decode_settled (hs : Describable s) (s' : Schema) {root : Option NodeId}
    {frame : List UInt8} (h : encode s g root = .ok frame) :
    ((∃ decoded, decode s' frame = .ok decoded) ∧
        ∀ id n, g.Reachable s root id → g.get? id = some n → s.AgreesOn s' n.typeName) ∨
      ((∃ cause, decode s' frame = .error (.schema cause)) ∧
        ∃ id n, g.Reachable s root id ∧ g.get? id = some n ∧ ¬ s.AgreesOn s' n.typeName) := by
  have hP : ∀ id n t, g.get? id = some n → s.get? n.typeName = some t →
      ((∀ m, g.get? id = some m → s.AgreesOn s' m.typeName) ↔
        ReadableType t ∧ s.AgreesOn s' n.typeName) := by
    intro id n t hn ht
    refine ⟨fun h => ⟨(hs.type ht).readable, h n hn⟩, fun h m hm => ?_⟩
    rw [← Option.some.inj (hn.symm.trans hm)]
    exact h.2
  rcases decode_settled_nodes (fun _ _ ht => (hs.type ht).fewFields)
    (fun _ _ ht => .inl (hs.type ht).readable) hP h with
    ⟨hok, hagree⟩ | ⟨herror, id, hreach, hdiffers⟩
  · exact .inl ⟨hok, fun id n hid hn => hagree id hid n hn⟩
  · obtain ⟨n, hn, hdiffers⟩ := not_forall₂.mp hdiffers
    exact .inr ⟨herror, id, n, hreach, hn, hdiffers⟩

/-- **Disagreement is always detected.** The receiver accepts exactly if it has the same persisted
fields for every reachable node, and else reports a fault of the schema. -/
theorem decode_ok_iff_agreesOn (hs : Describable s) (s' : Schema) {root : Option NodeId}
    {frame : List UInt8} (h : encode s g root = .ok frame) :
    ((∃ decoded, decode s' frame = .ok decoded) ↔
        ∀ id n, g.Reachable s root id → g.get? id = some n → s.AgreesOn s' n.typeName) ∧
      ((∃ decoded, decode s' frame = .ok decoded) ∨
        ∃ cause, decode s' frame = .error (.schema cause)) := by
  rcases decode_settled hs s' h with ⟨hok, hagree⟩ | ⟨⟨cause, herror⟩, id, n, hreach, hn, hdiffers⟩
  · exact ⟨⟨fun _ => hagree, fun _ => hok⟩, .inl hok⟩
  · refine ⟨⟨fun ⟨decoded, hok⟩ => ?_, fun hagree => ?_⟩, .inr ⟨cause, herror⟩⟩
    · rw [herror] at hok
      cases hok
    · exact absurd (hagree id n hreach hn) hdiffers

/-- The sample type with its fields in another order and other transient ones. -/
def reorderedType : TypeDef where
  name := "Sample"
  fields :=
    [⟨"hits", .int, true⟩, ⟨"links", .array (.object "Sample"), false⟩, ⟨"label", .text, false⟩,
    ⟨"next", .object "Sample", false⟩]

def reorderedSchema : Schema where
  types := [reorderedType]
  distinct := by decide +kernel

/-- The sample type with a reference that has become a text. -/
def retypedType : TypeDef where
  name := "Sample"
  fields :=
    [⟨"label", .text, false⟩, ⟨"next", .text, false⟩, ⟨"links", .array (.object "Sample"), false⟩]

def retypedSchema : Schema where
  types := [retypedType]
  distinct := by decide +kernel

private theorem agreesOn_reordered : sampleSchema.AgreesOn reorderedSchema "Sample" := by
  have hsub : sampleType.signature ⊆ reorderedType.signature := by
    intro field
    revert field
    decide +kernel
  exact ⟨sampleType, reorderedType, by decide +kernel, by decide +kernel,
    TypeDef.agrees_of_subset (by decide +kernel) hsub (by decide +kernel)⟩

private theorem not_agreesOn_retyped : ¬ sampleSchema.AgreesOn retypedSchema "Sample" := by
  rintro ⟨t, t', ht, ht', hagrees⟩
  cases Option.some.inj
    ((by decide +kernel : sampleSchema.get? "Sample" = some sampleType).symm.trans ht)
  cases Option.some.inj
    ((by decide +kernel : retypedSchema.get? "Sample" = some retypedType).symm.trans ht')
  have hnext := (hagrees ("next", .object "Sample")).mp (by decide +kernel)
  exact absurd hnext (by decide +kernel)

private theorem typeName_sampleGraph {id : NodeId} {n : Node} (hn : sampleGraph.get? id = some n) :
    n.typeName = "Sample" := by
  have hall : ∀ n ∈ sampleGraph.nodes.toList, n.typeName = "Sample" := by decide +kernel
  exact hall n (Array.mem_toList_iff.mpr (Array.mem_of_getElem? hn))

theorem decode_ok_iff_agreesOn_sample :
    encode sampleSchema sampleGraph (some ⟨0⟩) = .ok sampleFrame ∧
      (∃ decoded, decode reorderedSchema sampleFrame = .ok decoded) ∧
      ∃ cause, decode retypedSchema sampleFrame = .error (.schema cause) := by
  have hencode : encode sampleSchema sampleGraph (some ⟨0⟩) = .ok sampleFrame :=
    ok_of_toOption (by decide +kernel)
  refine ⟨hencode, ?_, ?_⟩
  · refine (decode_ok_iff_agreesOn describable_sampleSchema reorderedSchema hencode).1.mpr
      fun id n _ hn => ?_
    rw [typeName_sampleGraph hn]
    exact agreesOn_reordered
  · obtain ⟨hiff, hended⟩ := decode_ok_iff_agreesOn describable_sampleSchema retypedSchema hencode
    refine hended.resolve_left fun hok => ?_
    have hroot : sampleGraph.get? ⟨0⟩ = some _ := rfl
    exact not_agreesOn_retyped (hiff.mp hok ⟨0⟩ _ (.root rfl) hroot)

end DatagramRpc.Frame
