import DatagramRpc.Proofs.Graph.Copy

/-!
# Graphs under construction

A node is in its graph before its fields are known, so that on the way most nodes are filled in only
in part and some refer to others that are. What holds of every node all the time is `Intact`: it has
the fields of a registered type, each with a value of the declared type, and refers only to nodes
that are there. `Built` says in addition what reading one value adds to a graph: nothing that was
there is changed, and every new node can be reached from the nodes that the value refers to.
-/

namespace DatagramRpc

/-- What a field can hold in a graph of some size. -/
structure FieldDef.Admits (f : FieldDef) (size : Nat) (v : Value) : Prop where
  conforms : v.conformsTo f.type = true
  transient : f.transient = true → v = .zero f.type
  live : ∀ id ∈ v.targets, id.index < size

private theorem Value.targets_zero (t : FieldType) : (zero t).targets = [] := by
  cases t <;> simp [zero, targets]

theorem FieldDef.admits_zero (f : FieldDef) (size : Nat) : f.Admits size (.zero f.type) where
  conforms := Value.conformsTo_zero f.type
  transient _ := rfl
  live := by simp [Value.targets_zero]

private theorem FieldDef.Admits.mono {f : FieldDef} {size size' : Nat} {v : Value}
    (h : f.Admits size v) (hle : size ≤ size') : f.Admits size' v :=
  ⟨h.conforms, h.transient, fun id hid => Nat.lt_of_lt_of_le (h.live id hid) hle⟩

/-- A value that has been read is admitted in a persisted field; the other fields keep theirs. -/
theorem TypeDef.admits_update {t : TypeDef} {value : FieldDef × Nat → Value} {f : FieldDef × Nat}
    {v : Value} {size size' : Nat} (hvalue : ∀ f' ∈ t.fields.zipIdx, f'.1.Admits size (value f'))
    (hle : size ≤ size') (hf : f ∈ t.persisted) (hv : v.conformsTo f.1.type = true)
    (hlive : ∀ id ∈ v.targets, id.index < size') :
    ∀ f' ∈ t.fields.zipIdx, f'.1.Admits size' (Function.update value f v f') := by
  intro f' hf'
  by_cases he : f' = f
  · subst he
    rw [Function.update_self]
    refine ⟨hv, fun htransient => ?_, hlive⟩
    rw [(TypeDef.mem_persisted.mp hf).2] at htransient
    cases htransient
  · rw [Function.update_of_ne he]
    exact (hvalue f' hf').mono hle

namespace Node

variable {s : Schema} {t : TypeDef} {value : FieldDef × Nat → Value}

private theorem persistedValues_filled (ht : s.get? t.name = some t)
    (value : FieldDef × Nat → Value) :
    (filled t value).persistedValues s = t.persisted.map value := by
  have hfield : ∀ f ∈ t.persisted,
      (filled t value).fields[f.2]?.map (·.2) = some (value f) := by
    intro f hf
    have hplace := (TypeDef.mem_persisted.mp hf).1
    rw [getElem?_filled, hplace, Option.map_some, Option.map_some]
  have hname : (filled t value).typeName = t.name := rfl
  rw [persistedValues, hname, ht]
  simp only
  rw [List.filterMap_congr hfield, List.filterMap_eq_map']

/-- A node of a registered type, each of whose fields holds what it admits. -/
def IntactIn (s : Schema) (size : Nat) (n : Node) : Prop :=
  ∃ t value, s.get? t.name = some t ∧ n = filled t value ∧
    ∀ f ∈ t.fields.zipIdx, f.1.Admits size (value f)

private theorem IntactIn.mono {size size' : Nat} {n : Node} (h : n.IntactIn s size)
    (hle : size ≤ size') : n.IntactIn s size' := by
  obtain ⟨t, value, ht, hn, hvalue⟩ := h
  exact ⟨t, value, ht, hn, fun f hf => (hvalue f hf).mono hle⟩

end Node

namespace ObjectGraph

variable {s : Schema} {G G₁ G₂ : ObjectGraph} {ids ids' : List NodeId}

private theorem get?_eq_none {id : NodeId} (h : G.size ≤ id.index) : G.get? id = none :=
  Array.getElem?_eq_none h

theorem lt_of_get? {id : NodeId} {n : Node} (h : G.get? id = some n) : id.index < G.size := by
  rcases Nat.lt_or_ge id.index G.size with hlt | hge
  · exact hlt
  · rw [get?_eq_none hge] at h
    cases h

/-! ## Ways through a graph -/

private theorem Reachable.trans {a b c : NodeId} (h : Reachable s G (some a) b)
    (h' : Reachable s G (some b) c) : Reachable s G (some a) c := by
  induction h' with
  | root start =>
    cases start
    exact h
  | step _ next ih => exact .step ih next

/-- A graph that refers to all that another refers to. -/
def Keeps (s : Schema) (G G₁ : ObjectGraph) : Prop :=
  ∀ id, ∀ next ∈ G.successors s id, next ∈ G₁.successors s id

private theorem Keeps.trans (h : Keeps s G G₁) (h' : Keeps s G₁ G₂) : Keeps s G G₂ :=
  fun id next hnext => h' id next (h id next hnext)

private theorem Reachable.keep {root : Option NodeId} {id : NodeId} (h : Reachable s G root id)
    (hk : Keeps s G G₁) : Reachable s G₁ root id := by
  induction h with
  | root start => exact .root start
  | step _ next ih => exact .step ih (hk _ _ next)

private theorem keeps_of_get? (h : ∀ id, id.index < G.size → G₁.get? id = G.get? id) :
    Keeps s G G₁ := by
  intro id next hnext
  rcases Nat.lt_or_ge id.index G.size with hlt | hge
  · rw [successors, h id hlt]
    exact hnext
  · rw [successors, get?_eq_none hge] at hnext
    cases hnext

/-! ## What a value adds -/

/-- Every node holds what its type admits. -/
def Intact (s : Schema) (G : ObjectGraph) : Prop :=
  ∀ id n, G.get? id = some n → n.IntactIn s G.size

theorem intact_empty (s : Schema) : Intact s .empty := by
  intro id n h
  rw [get?_eq_none (Nat.zero_le _)] at h
  cases h

/-- What reading a value that refers to some nodes makes of a graph. -/
structure Built (s : Schema) (G G₁ : ObjectGraph) (ids : List NodeId) : Prop where
  intact : Intact s G₁
  size_le : G.size ≤ G₁.size
  kept : ∀ id, id.index < G.size → G₁.get? id = G.get? id
  live : ∀ id ∈ ids, id.index < G₁.size
  reached : ∀ id, G.size ≤ id.index → id.index < G₁.size →
    ∃ start ∈ ids, G₁.Reachable s (some start) id

theorem Built.refl (h : Intact s G) (hids : ∀ id ∈ ids, id.index < G.size) : Built s G G ids where
  intact := h
  size_le := Nat.le_refl _
  kept _ _ := rfl
  live := hids
  reached id hge hlt := by omega

theorem Built.trans (h : Built s G G₁ ids) (h' : Built s G₁ G₂ ids') :
    Built s G G₂ (ids ++ ids') where
  intact := h'.intact
  size_le := Nat.le_trans h.size_le h'.size_le
  kept id hlt := by
    have hmid : id.index < G₁.size := Nat.lt_of_lt_of_le hlt h.size_le
    rw [h'.kept id hmid, h.kept id hlt]
  live id hid := by
    rcases List.mem_append.mp hid with hid | hid
    · exact Nat.lt_of_lt_of_le (h.live id hid) h'.size_le
    · exact h'.live id hid
  reached id hge hlt := by
    rcases Nat.lt_or_ge id.index G₁.size with hmid | hmid
    · obtain ⟨start, hstart, hreach⟩ := h.reached id hge hmid
      have hkeep : Keeps s G₁ G₂ := keeps_of_get? h'.kept
      exact ⟨start, List.mem_append_left _ hstart, hreach.keep hkeep⟩
    · obtain ⟨start, hstart, hreach⟩ := h'.reached id hmid hlt
      exact ⟨start, List.mem_append_right _ hstart, hreach⟩

/-! ## What filling in a node adds -/

/-- What filling in some fields of the node `p` makes of a graph. -/
structure Filling (s : Schema) (p : NodeId) (G G₁ : ObjectGraph) : Prop where
  intact : Intact s G₁
  size_le : G.size ≤ G₁.size
  keeps : Keeps s G G₁
  kept : ∀ id, id.index < G.size → id ≠ p → G₁.get? id = G.get? id
  reached : ∀ id, G.size ≤ id.index → id.index < G₁.size → G₁.Reachable s (some p) id

variable {p : NodeId} {t : TypeDef} {value : FieldDef × Nat → Value} {f : FieldDef × Nat}
  {v : Value}

theorem Filling.refl (p : NodeId) (h : Intact s G) : Filling s p G G where
  intact := h
  size_le := Nat.le_refl _
  keeps _ _ hnext := hnext
  kept _ _ _ := rfl
  reached id hge hlt := by omega

theorem Filling.trans (h : Filling s p G G₁) (h' : Filling s p G₁ G₂) : Filling s p G G₂ where
  intact := h'.intact
  size_le := Nat.le_trans h.size_le h'.size_le
  keeps := h.keeps.trans h'.keeps
  kept id hlt hne := by
    have hmid : id.index < G₁.size := Nat.lt_of_lt_of_le hlt h.size_le
    rw [h'.kept id hmid hne, h.kept id hlt hne]
  reached id hge hlt := by
    rcases Nat.lt_or_ge id.index G₁.size with hmid | hmid
    · exact (h.reached id hge hmid).keep h'.keeps
    · exact h'.reached id hmid hlt

theorem successors_filled (ht : s.get? t.name = some t) (hp : G.get? p = some (.filled t value)) :
    G.successors s p = t.persisted.flatMap fun f => (value f).targets := by
  rw [successors, hp]
  simp only
  rw [Node.persistedValues_filled ht, List.flatMap_map]

/-- One field is read and filled in. It held zero before, so no reference is lost. -/
theorem Filling.field (h : Built s G G₁ v.targets) (ht : s.get? t.name = some t)
    (hp : G.get? p = some (.filled t value)) (hf : f ∈ t.persisted)
    (hzero : value f = .zero f.1.type)
    (hvalue : ∀ f' ∈ t.fields.zipIdx, f'.1.Admits G₁.size (Function.update value f v f')) :
    Filling s p G (G₁.put p (.filled t (Function.update value f v))) := by
  have hlt : p.index < G.size := lt_of_get? hp
  have hlt₁ : p.index < G₁.size := Nat.lt_of_lt_of_le hlt h.size_le
  have hp₁ : G₁.get? p = some (.filled t value) := (h.kept p hlt).trans hp
  have hp₂ := get?_put_self hlt₁ (.filled t (Function.update value f v))
  have hother : ∀ id, id ≠ p →
      (G₁.put p (.filled t (Function.update value f v))).get? id = G₁.get? id :=
    fun id hne => get?_put_of_ne hne _
  have hkeeps : Keeps s G₁ (G₁.put p (.filled t (Function.update value f v))) := by
    intro id next hnext
    by_cases he : id = p
    · subst he
      rw [successors_filled ht hp₁] at hnext
      rw [successors_filled ht hp₂]
      obtain ⟨f', hf', hnext⟩ := List.mem_flatMap.mp hnext
      refine List.mem_flatMap.mpr ⟨f', hf', ?_⟩
      have hne : f' ≠ f := by
        intro he
        rw [he, hzero, Value.targets_zero] at hnext
        cases hnext
      rwa [Function.update_of_ne hne]
    · rw [successors, hother id he]
      exact hnext
  constructor
  · intro id n hn
    rw [size_put]
    by_cases he : id = p
    · subst he
      cases hp₂.symm.trans hn
      exact ⟨t, _, ht, rfl, hvalue⟩
    · rw [hother id he] at hn
      exact h.intact id n hn
  · rw [size_put]
    exact h.size_le
  · exact (keeps_of_get? h.kept).trans hkeeps
  · intro id hid hne
    rw [hother id hne, h.kept id hid]
  · intro id hge hid
    rw [size_put] at hid
    obtain ⟨start, hstart, hreach⟩ := h.reached id hge hid
    have hnext : start ∈ (G₁.put p (.filled t (Function.update value f v))).successors s p := by
      rw [successors_filled ht hp₂]
      refine List.mem_flatMap.mpr ⟨f, hf, ?_⟩
      rwa [Function.update_self]
    exact Reachable.trans (.step (.root rfl) hnext) (hreach.keep hkeeps)

theorem intact_instantiate (h : Intact s G) (ht : s.get? t.name = some t) :
    Intact s (G.instantiate t).1 := by
  intro id n hn
  have hsize : (G.instantiate t).1.size = G.size + 1 := size_instantiate G t
  have hlt := lt_of_get? hn
  by_cases he : id.index < G.size
  · rw [get?_instantiate_of_lt t he] at hn
    exact (h id n hn).mono (by omega)
  · obtain rfl : id = ⟨G.size⟩ := by
      have hindex : id.index = G.size := by omega
      cases id
      exact congrArg NodeId.mk hindex
    rw [get?_instantiate_self] at hn
    cases hn
    exact ⟨t, _, ht, Node.ofType_eq_filled t, fun f _ => f.1.admits_zero _⟩

/-- A new node that has been filled in. -/
theorem Built.node (h : Filling s ⟨G.size⟩ (G.instantiate t).1 G₁) : Built s G G₁ [⟨G.size⟩] := by
  have hsize : (G.instantiate t).1.size = G.size + 1 := size_instantiate G t
  have hle := h.size_le
  constructor
  · exact h.intact
  · omega
  · intro id hid
    have hne : id ≠ ⟨G.size⟩ := by
      intro he
      rw [he] at hid
      exact Nat.lt_irrefl _ hid
    rw [h.kept id (by omega) hne, get?_instantiate_of_lt t hid]
  · intro id hid
    rw [List.mem_singleton.mp hid]
    show G.size < G₁.size
    omega
  · intro id hge hid
    refine ⟨⟨G.size⟩, List.mem_singleton_self _, ?_⟩
    by_cases he : id = ⟨G.size⟩
    · exact .root (congrArg some he.symm)
    · have hne : id.index ≠ G.size := fun hc => he (by cases id; exact congrArg NodeId.mk hc)
      exact h.reached id (by omega) hid

end ObjectGraph

end DatagramRpc
