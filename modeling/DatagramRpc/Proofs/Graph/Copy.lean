import DatagramRpc.Proofs.Graph.Visits
import DatagramRpc.Proofs.Lookup
import Mathlib.Logic.Function.Basic

/-!
# Copies of nodes

A copy has the type of its original, the same values in the persisted fields up to the numbering of
the nodes, and zero in all others. A graph in which copies are made grows: it keeps the nodes that
were there, and every node that is new is a copy.
-/

namespace DatagramRpc

namespace Value

/-- The value with its references renamed. -/
def rename (φ : NodeId → NodeId) : Value → Value
  | ref target => ref (target.map φ)
  | array items => array (items.map (rename φ))
  | v => v

theorem sort_rename (φ : NodeId → NodeId) (v : Value) : (v.rename φ).sort = v.sort := by
  cases v <;> simp [rename, sort]

theorem sort_of_conformsTo {v : Value} {t : FieldType} (h : v.conformsTo t = true) :
    v.sort = (zero t).sort := by
  cases t with
  | array element => cases v <;> simp_all [conformsTo, sort, zero]
  | _ => simpa [conformsTo, zero, sort] using h

end Value

namespace TypeDef

variable {t : TypeDef}

theorem mem_persisted {f : FieldDef × Nat} :
    f ∈ t.persisted ↔ t.fields[f.2]? = some f.1 ∧ f.1.transient = false := by
  simp [persisted, List.mem_zipIdx_iff_getElem?]

theorem nodup_names (hn : t.fieldNames.Nodup) : (t.fields.zipIdx.map (·.1.name)).Nodup := by
  have hfst : t.fields.zipIdx.map (fun f => f.1) = t.fields := List.zipIdx_map_fst 0 t.fields
  rw [fieldNames, ← hfst, List.map_map] at hn
  exact hn

/-- A persisted field is found by its name. -/
theorem find?_persisted {f : FieldDef × Nat} (hn : t.fieldNames.Nodup) (hf : f ∈ t.persisted) :
    t.persisted.find? (fun x => x.1.name == f.1.name) = some f :=
  find?_of_nodup ((nodup_names hn).sublist (List.filter_sublist.map _)) hf

theorem nodup_places (t : TypeDef) : (t.persisted.map (·.2)).Nodup := by
  have hall : (t.fields.zipIdx.map (·.2)).Nodup := by
    rw [List.zipIdx_map_snd]
    exact List.nodup_range'
  exact hall.sublist (List.filter_sublist.map _)

end TypeDef

/-! ## Nodes field by field -/

namespace Node

/-- A node of a type with given values, one for each declared field. -/
def filled (t : TypeDef) (value : FieldDef × Nat → Value) : Node where
  typeName := t.name
  fields := t.fields.zipIdx.map fun f => (f.1.name, value f)

theorem ofType_eq_filled (t : TypeDef) : ofType t = filled t fun f => .zero f.1.type := by
  simp only [ofType, filled]
  congr 1
  have hfst : t.fields.zipIdx.map (fun f => f.1) = t.fields := List.zipIdx_map_fst 0 t.fields
  conv_lhs => rw [← hfst]
  rw [List.map_map]
  rfl

theorem getElem?_filled (t : TypeDef) (value : FieldDef × Nat → Value) (i : Nat) :
    (filled t value).fields[i]? = t.fields[i]?.map fun f => (f.name, value (f, i)) := by
  simp [filled, Function.comp_def]

/-- Where names are unique, a field is overwritten in its own place. -/
theorem putFirst_map {value : FieldDef × Nat → Value} {fs : List (FieldDef × Nat)}
    {f : FieldDef × Nat} (hn : (fs.map (·.1.name)).Nodup) (hf : f ∈ fs) (v : Value) :
    putFirst f.1.name v (fs.map fun x => (x.1.name, value x)) =
      fs.map fun x => (x.1.name, Function.update value f v x) := by
  induction fs with
  | nil => cases hf
  | cons x rest ih =>
    obtain ⟨hx, hrest⟩ := List.nodup_cons.mp hn
    rcases List.mem_cons.mp hf with rfl | hf
    · have hother : ∀ y ∈ rest, y ≠ f := fun y hy he => hx (List.mem_map.mpr ⟨y, hy, by rw [he]⟩)
      rw [List.map_cons, putFirst, if_pos rfl, List.map_cons, Function.update_self]
      congr 1
      exact List.map_congr_left fun y hy => by rw [Function.update_of_ne (hother y hy)]
    · have hne : x.1.name ≠ f.1.name := fun he => hx (List.mem_map.mpr ⟨f, hf, he.symm⟩)
      have hxf : x ≠ f := fun he => hne (by rw [he])
      rw [List.map_cons, putFirst, if_neg hne, ih hrest hf, List.map_cons,
        Function.update_of_ne hxf]

/-- Overwriting a field with a value of the same sort. -/
theorem set_filled {t : TypeDef} {value : FieldDef × Nat → Value} {f : FieldDef × Nat} {v : Value}
    (hn : t.fieldNames.Nodup) (hf : t.fields[f.2]? = some f.1) (hv : (value f).sort = v.sort) :
    (filled t value).set f.1.name v = .ok (filled t (Function.update value f v)) := by
  have hmem : f ∈ t.fields.zipIdx := List.mem_zipIdx_iff_getElem?.mpr hf
  have hget : (filled t value).get? f.1.name = some (value f) := by
    have hfind := find?_of_nodup (TypeDef.nodup_names hn) hmem
    simp only [get?, filled, List.find?_map, Function.comp_def, hfind, Option.map_some]
  rw [set, hget]
  simp only [hv, if_true, put, filled, putFirst_map (TypeDef.nodup_names hn) hmem v]

/-- A copy: the type is the same, the persisted fields are the same up to renaming, and the
transient ones are zero. -/
structure Copied (t : TypeDef) (φ : NodeId → NodeId) (n n' : Node) : Prop where
  typeName : n'.typeName = n.typeName
  length : n'.fields.length = t.fields.length
  persisted : ∀ (i : Nat) (f : FieldDef), t.fields[i]? = some f → f.transient = false →
    ∃ v, n.fields[i]? = some (f.name, v) ∧ n'.fields[i]? = some (f.name, v.rename φ)
  transient : ∀ (i : Nat) (f : FieldDef), t.fields[i]? = some f → f.transient = true →
    n'.fields[i]? = some (f.name, Value.zero f.type)

end Node

/-! ## Growing graphs -/

namespace ObjectGraph

variable {s : Schema} {g G G₁ G₂ : ObjectGraph} {φ : NodeId → NodeId} {seen mid after : List NodeId}

/-- Nodes are named by their places in a list. -/
def Numbers (φ : NodeId → NodeId) (order : List NodeId) : Prop :=
  ∀ k id, order[k]? = some id → φ id = ⟨k⟩

theorem Numbers.mono (h : Numbers φ after) (hp : mid <+: after) : Numbers φ mid := by
  intro k id hk
  obtain ⟨rest, rfl⟩ := hp
  exact h k id (by rw [List.getElem?_append_left (List.getElem?_eq_some_iff.mp hk).1, hk])

/-- Another graph holds a copy of a node under its new name. -/
def CopiedTo (s : Schema) (g G : ObjectGraph) (φ : NodeId → NodeId) (id : NodeId) : Prop :=
  ∃ n t n', g.get? id = some n ∧ s.get? n.typeName = some t ∧ G.get? (φ id) = some n' ∧
    n.Copied t φ n'

/-- The graph `G` has grown to `G₁` while the nodes after those seen were copied. Some nodes may
have been changed. -/
structure Grown (s : Schema) (g : ObjectGraph) (φ : NodeId → NodeId)
    (changed seen after : List NodeId) (G G₁ : ObjectGraph) : Prop where
  size : G₁.size = after.length
  old : ∀ id, id.index < seen.length → id ∉ changed → G₁.get? id = G.get? id
  new : ∀ id ∈ after, id ∉ seen → CopiedTo s g G₁ φ id

theorem Grown.refl (changed : List NodeId) (h : G.size = seen.length) :
    Grown s g φ changed seen seen G G :=
  ⟨h, fun _ _ _ => rfl, fun _ hid hnew => absurd hid hnew⟩

private theorem index_lt (hφ : Numbers φ mid) {id : NodeId} (hid : id ∈ mid) :
    (φ id).index < mid.length := by
  obtain ⟨k, hk⟩ := List.getElem?_of_mem hid
  rw [hφ k id hk]
  exact (List.getElem?_eq_some_iff.mp hk).1

private theorem le_index (hφ : Numbers φ mid) (hp : seen <+: mid) {id : NodeId} (hid : id ∈ mid)
    (hnew : id ∉ seen) : seen.length ≤ (φ id).index := by
  obtain ⟨k, hk⟩ := List.getElem?_of_mem hid
  rw [hφ k id hk]
  rcases Nat.lt_or_ge k seen.length with hlt | hge
  · obtain ⟨rest, rfl⟩ := hp
    rw [List.getElem?_append_left hlt] at hk
    exact absurd (List.mem_of_getElem? hk) hnew
  · exact hge

/-- A graph that grows twice has grown. The nodes that may change were there before. -/
theorem Grown.trans {changed : List NodeId} (h : Grown s g φ changed seen mid G G₁)
    (h' : Grown s g φ changed mid after G₁ G₂) (hφ : Numbers φ mid) (hp : seen <+: mid)
    (hc : ∀ id ∈ changed, id.index < seen.length) : Grown s g φ changed seen after G G₂ where
  size := h'.size
  old id hlt hid := by
    rw [h'.old id (Nat.lt_of_lt_of_le hlt hp.length_le) hid, h.old id hlt hid]
  new id hid hnew := by
    by_cases hmid : id ∈ mid
    · obtain ⟨n, t, n', hn, ht, hn', hcopy⟩ := h.new id hmid hnew
      refine ⟨n, t, n', hn, ht, ?_, hcopy⟩
      have hge := le_index hφ hp hmid hnew
      rw [h'.old _ (index_lt hφ hmid) fun hm => ?_, hn']
      have hlt := hc _ hm
      omega
    · exact h'.new id hid hmid

/-! ## Changing one node -/

theorem get?_put_self {p : NodeId} (h : p.index < G.size) (n : Node) :
    (G.put p n).get? p = some n := by
  simp only [get?, put]
  exact Array.getElem?_setIfInBounds_self_of_lt h

theorem get?_put_of_ne {p id : NodeId} (h : id ≠ p) (n : Node) :
    (G.put p n).get? id = G.get? id := by
  have hne : p.index ≠ id.index := fun he => h (by cases p; cases id; cases he; rfl)
  simp only [get?, put]
  exact Array.getElem?_setIfInBounds_ne hne

theorem get?_instantiate_self (G : ObjectGraph) (t : TypeDef) :
    (G.instantiate t).1.get? ⟨G.size⟩ = some (Node.ofType t) := by
  simp [get?, instantiate, size]

theorem get?_instantiate_of_lt (t : TypeDef) {id : NodeId} (h : id.index < G.size) :
    (G.instantiate t).1.get? id = G.get? id := by
  simp only [get?, instantiate]
  exact Array.getElem?_push_lt h ▸ (Array.getElem?_eq_getElem h).symm

/-- An old node may be changed on the way. -/
theorem Grown.put (h : Grown s g φ [] seen mid G G₁) (hφ : Numbers φ mid) (hp : seen <+: mid)
    {p : NodeId} (hlt : p.index < seen.length) (n : Node) :
    Grown s g φ [p] seen mid G (G₁.put p n) where
  size := (size_put ..).trans h.size
  old id hid hne := by
    have hp : id ≠ p := fun he => hne (List.mem_singleton.mpr he)
    rw [get?_put_of_ne hp, h.old id hid List.not_mem_nil]
  new id hid hnew := by
    obtain ⟨n', t, copy, hn, ht, hcopy, hcopied⟩ := h.new id hid hnew
    have hge := le_index hφ hp hid hnew
    have hne : φ id ≠ p := fun he => by
      rw [he] at hge
      omega
    exact ⟨n', t, copy, hn, ht, (get?_put_of_ne hne n).trans hcopy, hcopied⟩

end ObjectGraph

end DatagramRpc
