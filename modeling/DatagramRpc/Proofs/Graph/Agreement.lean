import DatagramRpc.Proofs.Graph.Copy
import Mathlib.Data.List.Perm.Subperm

/-!
# Types that agree

A frame tells the names and types of the persisted fields of each node. Two types agree if these are
the same, in whatever order they are declared and whatever transient fields there are beside them.
No type declares a name twice, so it is enough that all fields of one are among those of the other
and that both have as many.
-/

namespace DatagramRpc

namespace TypeDef

variable {t t' : TypeDef}

/-- The persisted fields by name and type. -/
def signature (t : TypeDef) : List (String × FieldType) :=
  (t.fields.filter fun f => !f.transient).map fun f => (f.name, f.type)

def Agrees (t t' : TypeDef) : Prop := ∀ field, field ∈ t.signature ↔ field ∈ t'.signature

private theorem length_signature (t : TypeDef) : t.signature.length = t.persistedCount := by
  rw [signature, List.length_map, persistedCount]

theorem mem_signature {name : String} {type : FieldType} :
    (name, type) ∈ t.signature ↔ ∃ f ∈ t.persisted, f.1.name = name ∧ f.1.type = type := by
  constructor
  · intro h
    obtain ⟨f, hf, he⟩ := List.mem_map.mp h
    obtain ⟨hmem, htransient⟩ := List.mem_filter.mp hf
    obtain ⟨i, hi⟩ := List.getElem?_of_mem hmem
    cases he
    exact ⟨(f, i), mem_persisted.mpr ⟨hi, by simpa using htransient⟩, rfl, rfl⟩
  · rintro ⟨f, hf, rfl, rfl⟩
    obtain ⟨hi, htransient⟩ := mem_persisted.mp hf
    refine List.mem_map.mpr ⟨f.1, List.mem_filter.mpr ⟨List.mem_of_getElem? hi, ?_⟩, rfl⟩
    rw [htransient]
    rfl

private theorem nodup_signature (hn : t.fieldNames.Nodup) : t.signature.Nodup := by
  have hnames : (t.signature.map (·.1)).Nodup := by
    rw [signature, List.map_map]
    exact hn.sublist (List.filter_sublist.map _)
  exact hnames.of_map

private theorem Agrees.perm (h : t.Agrees t') (hn : t.fieldNames.Nodup)
    (hn' : t'.fieldNames.Nodup) : t.signature.Perm t'.signature :=
  (List.perm_ext_iff_of_nodup (nodup_signature hn) (nodup_signature hn')).mpr h

theorem Agrees.persistedCount_eq (h : t.Agrees t') (hn : t.fieldNames.Nodup)
    (hn' : t'.fieldNames.Nodup) : t.persistedCount = t'.persistedCount := by
  rw [← length_signature, ← length_signature, (h.perm hn hn').length_eq]

/-- As many fields, all of them among the others, are the same fields. -/
theorem agrees_of_subset (hn : t.fieldNames.Nodup) (hsub : t.signature ⊆ t'.signature)
    (hcount : t.persistedCount = t'.persistedCount) : t.Agrees t' := by
  have hle : t'.signature.length ≤ t.signature.length := by
    rw [length_signature, length_signature]
    omega
  have hperm := ((nodup_signature hn).subperm hsub).perm_of_length_le hle
  exact fun field => hperm.mem_iff

end TypeDef

/-- Both schemas have a type of this name, and the two agree. -/
def Schema.AgreesOn (s s' : Schema) (typeName : String) : Prop :=
  ∃ t t', s.get? typeName = some t ∧ s'.get? typeName = some t' ∧ t.Agrees t'

theorem Schema.agreesOn_iff {s s' : Schema} {t : TypeDef} {typeName : String}
    (ht : s.get? typeName = some t) :
    s.AgreesOn s' typeName ↔ ∃ t', s'.get? typeName = some t' ∧ t.Agrees t' := by
  constructor
  · rintro ⟨u, t', hu, ht', hagrees⟩
    cases ht.symm.trans hu
    exact ⟨t', ht', hagrees⟩
  · rintro ⟨t', ht', hagrees⟩
    exact ⟨t, t', ht, ht', hagrees⟩

end DatagramRpc
