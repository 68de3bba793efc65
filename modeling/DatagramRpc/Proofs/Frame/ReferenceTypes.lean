import DatagramRpc.Proofs.Frame.Relay

/-!
# Where references lead

A field that is declared as a reference names the type of the nodes it leads to. The frame repeats
this name, and both sides compare it; but neither looks at the type of the node that the reference
leads to. So a field can lead to a node of any type that the schema can put into a frame, and
references lead where they are declared to lead only if there is no other type.

References that are declared inside so many arrays that nothing new could begin there are left out.
-/

namespace DatagramRpc

namespace Value

/-- The references in a value of some type, each with the name of the type that it is declared to
lead to. -/
def references : FieldType → Value → List (String × NodeId)
  | .object name, ref target => target.toList.map fun id => (name, id)
  | .array element, array items => items.flatMap (references element)
  | _, _ => []

private theorem mem_references {type : FieldType} {v : Value} {name : String} {id : NodeId}
    (h : (name, id) ∈ v.references type) : type.leaf = .object name ∧ id ∈ v.targets := by
  induction type generalizing v with
  | object typeName =>
    cases v with
    | ref target =>
      obtain ⟨found, hfound, he⟩ := List.mem_map.mp h
      cases he
      rw [targets]
      exact ⟨rfl, hfound⟩
    | _ => cases h
  | array element ih =>
    cases v with
    | array items =>
      obtain ⟨item, hitem, hmem⟩ := List.mem_flatMap.mp h
      obtain ⟨hleaf, htarget⟩ := ih hmem
      rw [targets]
      exact ⟨hleaf, List.mem_flatMap.mpr ⟨item, hitem, htarget⟩⟩
    | _ => cases h
  | _ => cases v <;> cases h

private theorem references_zero (type : FieldType) : (zero type).references type = [] := by
  cases type <;> rfl

/-- A reference inside so many arrays of one element. -/
def through (id : NodeId) : Nat → Value
  | 0 => ref (some id)
  | n + 1 => array [through id n]

private theorem targets_through (id : NodeId) (n : Nat) : (through id n).targets = [id] := by
  induction n with
  | zero => simp [through, targets]
  | succ n ih => simp [through, targets, ih]

private theorem rename_through (φ : NodeId → NodeId) (id : NodeId) (n : Nat) :
    (through id n).rename φ = through (φ id) n := by
  induction n with
  | zero => simp [through, rename]
  | succ n ih => simp [through, rename, ih]

section Through

variable {type : FieldType} {name : String} (hleaf : type.leaf = .object name) (id : NodeId)
include hleaf

private theorem conformsTo_through : (through id type.nesting).conformsTo type = true := by
  induction type with
  | object typeName => rfl
  | array element ih =>
    rw [FieldType.nesting, through, conformsTo]
    simpa using ih hleaf
  | _ => cases hleaf

private theorem references_through : (through id type.nesting).references type = [(name, id)] := by
  induction type with
  | object typeName =>
    cases hleaf
    rfl
  | array element ih =>
    rw [FieldType.nesting, through, references]
    simpa using ih hleaf
  | _ => cases hleaf

end Through

end Value

/-- Every reference leads to a node of the type that it is declared to lead to. -/
def ObjectGraph.RefersAsDeclared (s : Schema) (g : ObjectGraph) : Prop :=
  ∀ id n t, g.get? id = some n → s.get? n.typeName = some t →
    ∀ (i : Nat) (f : FieldDef) (name : String) (v : Value),
    t.fields[i]? = some f → n.fields[i]? = some (name, v) → ∀ typeName target,
      (typeName, target) ∈ v.references f.type → ∃ node, g.get? target = some node ∧
      node.typeName = typeName

namespace Frame

open Wire ObjectGraph

variable {s : Schema} {g : ObjectGraph} {level : Nat} {seen : List NodeId} {t u : TypeDef}
  {f : FieldDef × Nat} {name : String}

/-- The schema can put nodes of this type into a frame, and read them back. -/
structure Transmits (s : Schema) (t : TypeDef) : Prop where
  type : s.get? t.name = some t
  describable : DescribableType t
  name : ∃ bytes, putText t.name = .ok bytes
  layout : ∃ layout, t.persisted.mapM (fun f => encodeFieldMeta f.1) = .ok layout

/-! ## What the decoder ensures -/

/-- A decoded reference leads to a node of some type of the schema, and the field is declared to
lead to another. -/
theorem reference_of_decode {frame : List UInt8} {decoded : Rooted}
    (h : decode s frame = .ok decoded) {id : NodeId} {n : Node}
    (hn : decoded.graph.get? id = some n) (ht : s.get? n.typeName = some t) {i : Nat} {f : FieldDef}
    {v : Value} (hf : t.fields[i]? = some f) (hv : n.fields[i]? = some (name, v))
    {typeName : String} {target : NodeId} (href : (typeName, target) ∈ v.references f.type) :
    Transmits s t ∧ (f, i) ∈ t.persisted ∧ f.type.leaf = .object typeName ∧
      ∃ node u, decoded.graph.get? target = some node ∧ node.typeName = u.name ∧ Transmits s u := by
  have hwell : decoded.WellFormed s := by
    have hends := decode_ends s frame
    rwa [h] at hends
  obtain ⟨body, -, hreads⟩ := reads_of_decode h
  have hstored := hreads.stored (Nat.le_refl _)
  have hall (id : NodeId) {node : Node} (hnode : decoded.graph.get? id = some node) :
      ∃ t, node.typeName = t.name ∧ Transmits s t := by
    obtain ⟨t, value, hid⟩ := hstored id.index (Nat.zero_le _) (lt_of_get? hnode)
    cases hnode.symm.trans hid.node
    exact ⟨t, rfl, hid.type, hid.describable, hid.name, hid.layout⟩
  obtain ⟨t', hname, htransmits⟩ := hall id hn
  rw [hname] at ht
  cases ht.symm.trans htransmits.type
  obtain ⟨hleaf, htarget⟩ := Value.mem_references href
  -- A transient field is zero, so it has no references.
  have hpersisted : f.transient = false := by
    obtain ⟨t', ht', -, hfields⟩ := hwell.typed id n hn
    rw [hname] at ht'
    cases ht'.symm.trans ht
    obtain ⟨v', hv', -, hzero⟩ := hfields i f hf
    cases hv.symm.trans hv'
    by_contra htransient
    rw [hzero (by simpa using htransient), Value.references_zero] at href
    cases href
  have hlive := hwell.live id n hn _ (List.mem_of_getElem? hv) target htarget
  obtain ⟨node, hnode⟩ : ∃ node, decoded.graph.get? target = some node :=
    ⟨_, Array.getElem?_eq_getElem hlive⟩
  obtain ⟨u, hu, htransmits'⟩ := hall target hnode
  exact ⟨htransmits, TypeDef.mem_persisted.mpr ⟨hf, hpersisted⟩, hleaf, node, u, hnode,
    hu, htransmits'⟩

/-! ## A frame whose references lead elsewhere -/

private theorem writes_values {P : List NodeId → Prop} {slots : List (FieldType × Value)}
    (each : ∀ slot ∈ slots, ∀ seen, P seen →
      ∃ bytes after, Writes s g level (.value slot.1 slot.2) seen bytes after ∧ P after) :
    ∀ seen, P seen → ∃ bytes after,
      Writes s g level (.values slots) seen bytes after ∧ P after := by
  induction slots with
  | nil => exact fun seen hseen => ⟨[], seen, .nil, hseen⟩
  | cons slot slots ih =>
    intro seen hseen
    obtain ⟨bytes, mid, hfirst, hmid⟩ := each slot List.mem_cons_self seen hseen
    obtain ⟨bytes', after, hothers, hafter⟩ :=
      ih (fun slot hslot => each slot (List.mem_cons_of_mem _ hslot)) mid hmid
    exact ⟨bytes ++ bytes', after, .cons hfirst hothers, hafter⟩

/-- Zero can be written wherever one more level of nesting is left. -/
theorem writes_zero (type : FieldType) (seen : List NodeId) :
    ∃ bytes, Writes s g (level + 1) (.value type (.zero type)) seen bytes seen := by
  cases type with
  | bool => exact ⟨_, .plain (.bool _)⟩
  | byte => exact ⟨_, .plain (.byte _)⟩
  | int => exact ⟨_, .plain (.int _)⟩
  | long => exact ⟨_, .plain (.long _)⟩
  | double => exact ⟨_, .plain (.double _)⟩
  | text => exact ⟨_, .plain .noText⟩
  | array element => exact ⟨_, .plain .noArray⟩
  | object name => exact ⟨_, .reference .absent⟩

private theorem writes_through {type : FieldType} (hleaf : type.leaf = .object name) {id : NodeId}
    {bytes : List UInt8} {after : List NodeId}
    (h : Writes s g level (.ref (some id)) seen bytes after) :
    ∃ bytes', Writes s g (level + 1 + type.nesting)
      (.value type (.through id type.nesting)) seen bytes' after := by
  induction type with
  | object typeName => exact ⟨bytes, .reference h⟩
  | array element ih =>
    obtain ⟨bytes', hbytes'⟩ := ih hleaf
    have hone : (1 : Nat) ≤ greatestLength := by decide
    exact ⟨_, @Writes.array _ _ _ element [.through id element.nesting] _ _ _ hone
      (.cons hbytes' .nil)⟩
  | _ => cases hleaf

/-- A new node, when each of its persisted fields can be written. -/
theorem Transmits.writes {P : List NodeId → Prop} (ht : Transmits s t)
    {value : FieldDef × Nat → Value} {id : NodeId} (node : g.get? id = some (.filled t value))
    (conforms : ∀ f ∈ t.persisted, (value f).conformsTo f.1.type = true) (new : id ∉ seen)
    (room : seen.length ≤ greatestLength) (begun : P (seen ++ [id]))
    (each : ∀ f ∈ t.persisted, ∀ seen, P seen →
      ∃ bytes after, Writes s g level (.value f.1.type (value f)) seen bytes after ∧ P after) :
    ∃ bytes after, Writes s g level (.ref (some id)) seen bytes after ∧ P after := by
  obtain ⟨name, hname⟩ := ht.name
  obtain ⟨layout, hlayout⟩ := ht.layout
  have hslots : ∀ slot ∈ t.persisted.map fun f => (f.1.type, value f), ∀ seen, P seen →
      ∃ bytes after, Writes s g level (.value slot.1 slot.2) seen bytes after ∧ P after := by
    intro slot hslot
    obtain ⟨f, hf, rfl⟩ := List.mem_map.mp hslot
    exact each f hf
  obtain ⟨body, after, hbody, hafter⟩ := writes_values hslots _ begun
  exact ⟨_, after,
    .first new room node ht.type (fits_filled value conforms) hname hlayout hbody, hafter⟩

/-- What a node holds whose field leads to node 1 while all others are zero. -/
def leading (f : FieldDef × Nat) : FieldDef × Nat → Value :=
  Function.update (fun f' => .zero f'.1.type) f (.through ⟨1⟩ f.1.type.nesting)

/-- A node of one type whose field leads to a node of another. -/
def leadingGraph (t u : TypeDef) (f : FieldDef × Nat) : ObjectGraph where
  nodes := #[.filled t (leading f), .ofType u]

private theorem leading_self (f : FieldDef × Nat) : leading f f = .through ⟨1⟩ f.1.type.nesting :=
  Function.update_self ..

private theorem leading_of_ne {f f' : FieldDef × Nat} (h : f' ≠ f) :
    leading f f' = .zero f'.1.type :=
  Function.update_of_ne h ..

private theorem describable_leadingGraph (ht : Transmits s t) (hu : Transmits s u) :
    DescribableNodes s (leadingGraph t u f) := by
  intro id n t' hn ht'
  have hmem := Array.mem_of_getElem? hn
  simp only [leadingGraph, List.mem_toArray, List.mem_cons, List.not_mem_nil, or_false] at hmem
  rcases hmem with rfl | rfl
  · cases ht'.symm.trans ht.type
    exact ht.describable
  · cases ht'.symm.trans hu.type
    exact hu.describable

/-- Two nodes, of any types, are written so that a reference field of the one leads to the other. -/
theorem encode_leadingGraph (ht : Transmits s t) (hu : Transmits s u)
    (hleaf : f.1.type.leaf = .object name) (hdepth : f.1.type.nesting + 1 < nestingLimit) :
    ∃ frame, encode s (leadingGraph t u f) (some ⟨0⟩) = .ok frame := by
  obtain ⟨below, hbelow⟩ : ∃ below, nestingLimit = below + 1 + 1 + f.1.type.nesting :=
    ⟨nestingLimit - 2 - f.1.type.nesting, by omega⟩
  -- The second node begins where the field leads to it; all its own fields are zero.
  have hsecond : ∃ bytes after,
      Writes s (leadingGraph t u f) (below + 1) (.ref (some ⟨1⟩)) [⟨0⟩] bytes after ∧
      after = [⟨0⟩, ⟨1⟩] := by
    have hnode : (leadingGraph t u f).get? ⟨1⟩ = some (.filled u fun f => .zero f.1.type) :=
      congrArg some (Node.ofType_eq_filled u)
    refine hu.writes hnode (fun f _ => Value.conformsTo_zero f.1.type) (by simp) (by decide) rfl ?_
    rintro f' - seen rfl
    obtain ⟨bytes, hbytes⟩ := writes_zero f'.1.type [⟨0⟩, ⟨1⟩]
    exact ⟨bytes, _, hbytes, rfl⟩
  have hconforms : ∀ f' ∈ t.persisted, (leading f f').conformsTo f'.1.type = true := by
    intro f' _
    by_cases hf : f' = f
    · subst hf
      rw [leading_self]
      exact Value.conformsTo_through hleaf _
    · rw [leading_of_ne hf]
      exact Value.conformsTo_zero f'.1.type
  have hfields : ∀ f' ∈ t.persisted, ∀ seen, seen = [⟨0⟩] ∨ seen = [⟨0⟩, ⟨1⟩] →
      ∃ bytes after, Writes s (leadingGraph t u f) nestingLimit
        (.value f'.1.type (leading f f')) seen bytes after ∧
        (after = [⟨0⟩] ∨ after = [⟨0⟩, ⟨1⟩]) := by
    intro f' _ seen hseen
    by_cases hf : f' = f
    · subst hf
      rw [leading_self, hbelow]
      rcases hseen with rfl | rfl
      · obtain ⟨bytes, after, hbytes, rfl⟩ := hsecond
        obtain ⟨bytes', hbytes'⟩ := writes_through hleaf hbytes
        exact ⟨bytes', _, hbytes', .inr rfl⟩
      · have hagain : Writes s (leadingGraph t u f') (below + 1) (.ref (some ⟨1⟩)) [⟨0⟩, ⟨1⟩]
            (present :: backReference :: putCount 1) [⟨0⟩, ⟨1⟩] := .again rfl
        obtain ⟨bytes', hbytes'⟩ := writes_through hleaf hagain
        exact ⟨bytes', _, hbytes', .inr rfl⟩
    · rw [leading_of_ne hf]
      obtain ⟨bytes, hbytes⟩ := writes_zero f'.1.type seen
      exact ⟨bytes, seen, hbytes, hseen⟩
  have hroot : (leadingGraph t u f).get? ⟨0⟩ = some (.filled t (leading f)) := rfl
  obtain ⟨body, order, hwrites, -⟩ :=
    ht.writes hroot hconforms List.not_mem_nil (Nat.zero_le _) (.inl rfl) hfields
  exact ⟨_, encode_of_writes hwrites⟩

/-- In what is read from that frame, the field leads to a node of the other type. -/
theorem exists_leading (ht : Transmits s t) (hu : Transmits s u) (hf : f ∈ t.persisted)
    (hleaf : f.1.type.leaf = .object name) (hdepth : f.1.type.nesting + 1 < nestingLimit) :
    ∃ frame decoded id target node v node', decode s frame = .ok decoded ∧
      decoded.graph.get? id = some node ∧
      node.typeName = t.name ∧ node.fields[f.2]? = some (f.1.name, v) ∧
      (name, target) ∈ v.references f.1.type ∧
      decoded.graph.get? target = some node' ∧ node'.typeName = u.name := by
  obtain ⟨frame, hencode⟩ := encode_leadingGraph ht hu hleaf hdepth
  obtain ⟨decoded, φ, hdecode, hrestores⟩ :=
    decode_encode_nodes (describable_leadingGraph ht hu) hencode
  obtain ⟨hplace, htransient⟩ := TypeDef.mem_persisted.mp hf
  have hroot : (leadingGraph t u f).Reachable s (some ⟨0⟩) ⟨0⟩ := .root rfl
  have hfirst : (leadingGraph t u f).get? ⟨0⟩ = some (.filled t (leading f)) := rfl
  have hreach : (leadingGraph t u f).Reachable s (some ⟨0⟩) ⟨1⟩ := by
    refine .step hroot ?_
    rw [successors_filled ht.type hfirst]
    refine List.mem_flatMap.mpr ⟨f, hf, ?_⟩
    rw [leading_self, Value.targets_through]
    exact List.mem_singleton_self _
  obtain ⟨n, t', node, hn, ht', hnode, hcopied⟩ := hrestores.nodes _ hroot
  cases hn.symm.trans hfirst
  cases ht'.symm.trans ht.type
  obtain ⟨n', t', node', hn', -, hnode', hcopied'⟩ := hrestores.nodes _ hreach
  obtain rfl : Node.ofType u = n' := Option.some.inj hn'
  obtain ⟨v, hv, hv'⟩ := hcopied.persisted f.2 f.1 hplace htransient
  rw [Node.getElem?_filled, hplace, Option.map_some, Option.some.injEq, Prod.mk.injEq] at hv
  obtain ⟨-, rfl⟩ := hv
  rw [leading_self, Value.rename_through] at hv'
  refine ⟨frame, decoded, _, φ ⟨1⟩, node, _, node', hdecode, hnode, hcopied.typeName,
    hv', ?_, hnode', hcopied'.typeName⟩
  rw [Value.references_through hleaf]
  exact List.mem_singleton_self _

/-! ## The main statement -/

/-- **A reference can lead to any type** that the schema can put into a frame, so it leads where it
is declared to only if there is no other. -/
theorem references_as_declared_iff (s : Schema)
    (hdepth : ∀ t, Transmits s t → ∀ f ∈ t.persisted, ∀ name, f.1.type.leaf = .object name →
      f.1.type.nesting + 1 < nestingLimit) :
    (∀ frame decoded, decode s frame = .ok decoded → decoded.graph.RefersAsDeclared s) ↔
      ∀ t u, Transmits s t → Transmits s u →
        ∀ f ∈ t.persisted, ∀ name, f.1.type.leaf = .object name → u.name = name := by
  constructor
  · intro hall t u ht hu f hf name hleaf
    obtain ⟨frame, decoded, id, target, node, v, node', hdecode, hnode, htype, hv,
      href, hnode', htype'⟩ :=
      exists_leading ht hu hf hleaf (hdepth t ht f hf name hleaf)
    obtain ⟨found, hfound, hdeclared⟩ :=
      hall frame decoded hdecode id node t hnode (htype ▸ ht.type) f.2 f.1 _ v
      (TypeDef.mem_persisted.mp hf).1 hv name target href
    cases hfound.symm.trans hnode'
    exact htype'.symm.trans hdeclared
  · intro honly frame decoded hdecode id n t hn ht i f fieldName v hf hv name target href
    obtain ⟨htransmits, hpersisted, hleaf, node, u, hnode, hu, htransmits'⟩ :=
      reference_of_decode hdecode hn ht hf hv href
    exact ⟨node, hnode, hu.trans (honly t u htransmits htransmits' (f, i) hpersisted name hleaf)⟩

/-- Where there is one type only, every reference leads to it. -/
theorem references_as_declared_sample :
    (∀ t, Transmits sampleSchema t → ∀ f ∈ t.persisted, ∀ name, f.1.type.leaf = .object name →
        f.1.type.nesting + 1 < nestingLimit) ∧
      ∀ frame decoded, decode sampleSchema frame = .ok decoded →
        decoded.graph.RefersAsDeclared sampleSchema := by
  have honly (t : TypeDef) (ht : Transmits sampleSchema t) : t = sampleType :=
    List.mem_singleton.mp (Schema.mem_of_get? ht.type)
  have hshallow : ∀ f ∈ sampleType.persisted, f.1.type.nesting + 1 < nestingLimit := by
    decide +kernel
  have hleaves : ∀ f ∈ sampleType.persisted, f.1.type.leaf = .text ∨
      f.1.type.leaf = .object sampleType.name := by
    decide +kernel
  have hdepth : ∀ t, Transmits sampleSchema t →
      ∀ f ∈ t.persisted, ∀ name, f.1.type.leaf = .object name →
      f.1.type.nesting + 1 < nestingLimit := by
    intro t ht f hf _ _
    rw [honly t ht] at hf
    exact hshallow f hf
  refine ⟨hdepth,
    (references_as_declared_iff sampleSchema hdepth).mpr fun t u ht hu f hf name hleaf => ?_⟩
  rw [honly t ht] at hf
  rw [honly u hu]
  rcases hleaves f hf with htext | hobject
  · cases htext.symm.trans hleaf
  · exact FieldType.object.inj (hobject.symm.trans hleaf)

/-! ## A field that leads to another type -/

/-- Owners of cars, and dogs. -/
def garageSchema : Schema where
  types := [⟨"Owner", [⟨"car", .object "Car", false⟩]⟩, ⟨"Car", [⟨"plate", .text, false⟩]⟩,
    ⟨"Dog", [⟨"name", .text, false⟩]⟩]
  distinct := by decide +kernel

/-- An owner whose car is a dog. -/
def garageFrame : List UInt8 :=
  let text : String → List UInt8 := fun name => (putText name).toOption.getD []
  withTrailer ([present, newNode] ++ text "Owner" ++ putCount 1 ++ text "car" ++ text "Car" ++
    ([present, newNode] ++ text "Dog" ++ putCount 1 ++ text "name" ++
      text "java.lang.String" ++ [absent]))

theorem other_type_accepted : ∃ decoded, decode garageSchema garageFrame = .ok decoded ∧
    ¬ decoded.graph.RefersAsDeclared garageSchema := by
  have hnodes : (decode garageSchema garageFrame).toOption.map (fun decoded =>
      ((decoded.graph.get? ⟨0⟩).map fun n =>
          (n.typeName, n.fields.map fun f => decide (f.2.asRef = some (some ⟨1⟩))),
        (decoded.graph.get? ⟨1⟩).map (·.typeName))) =
      some (some ("Owner", [true]), some "Dog") := by decide +kernel
  obtain ⟨decoded, hdecoded, hnodes⟩ := Option.map_eq_some_iff.mp hnodes
  obtain ⟨howner, hdog⟩ := Prod.mk.inj hnodes
  obtain ⟨owner, howner, hfields⟩ := Option.map_eq_some_iff.mp howner
  obtain ⟨dog, hdog, hname⟩ := Option.map_eq_some_iff.mp hdog
  obtain ⟨htype, hfields⟩ := Prod.mk.inj hfields
  obtain ⟨⟨fieldName, v⟩, rest, hcar, href, -⟩ := List.map_eq_cons_iff.mp hfields
  have hv : v = .ref (some ⟨1⟩) := by
    cases v with
    | ref target => exact congrArg Value.ref (Option.some.inj (of_decide_eq_true href))
    | _ => cases of_decide_eq_true href
  refine ⟨decoded, ok_of_toOption hdecoded, fun hall => ?_⟩
  obtain ⟨node, hnode, hdeclared⟩ :=
    hall ⟨0⟩ owner ⟨"Owner", [⟨"car", .object "Car", false⟩]⟩ howner
    (by rw [htype]; decide +kernel) 0 _ fieldName v rfl (by rw [hcar]; rfl) "Car" ⟨1⟩
    (by rw [hv]; exact List.mem_singleton_self _)
  cases hnode.symm.trans hdog
  rw [hname] at hdeclared
  exact absurd hdeclared (by decide)

end Frame

end DatagramRpc
