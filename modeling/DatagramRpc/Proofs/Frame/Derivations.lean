import DatagramRpc.Proofs.Frame.Writes

/-!
# The encoder writes whatever the grammar allows

The grammar of frames was read off the runs of the encoder that succeed. Here is the way back: every
derivation is such a run. So whether a graph can be written, and as which bytes, can be shown
without the encoder.
-/

namespace DatagramRpc.Frame

open Wire

variable {s : Schema} {g : ObjectGraph} {level : Nat} {seen after : List NodeId}
  {bytes : List UInt8} {target : Option NodeId} {t : TypeDef} {n : Node}
  {slots : List (FieldType × Value)}

/-- The encoder succeeds in a task with these bytes. -/
def Encodes (s : Schema) (g : ObjectGraph) (level : Nat) (seen : List NodeId) (bytes : List UInt8)
    (after : List NodeId) : Task → Prop
  | .ref target => encodeRef s g (nodeWriters s g level) target seen = .ok (bytes, after)
  | .value type v => encodeValue type (nodeWriters s g level) v seen = .ok (bytes, after)
  | .values slots => ∃ parts, bytes = parts.flatten ∧
    slots.mapM (fun slot => encodeValue slot.1 (nodeWriters s g level) slot.2) seen =
      .ok (parts, after)

theorem encodes_plain {type : FieldType} {v : Value} (h : Plain type v bytes)
    (below : List NodeWriter) :
    encodeValue type below v seen = .ok (bytes, seen) := by
  cases h with
  | text body =>
    rw [encodeValue]
    exact state_bind_ok.mpr ⟨_, seen, state_lift_ok.mpr ⟨body, rfl⟩, rfl⟩
  | _ => rw [encodeValue]; rfl

/-- An array that is not too long: its length, and the elements one level further down. -/
theorem encodeValue_array {element : FieldType} {items : List Value}
    (hroom : items.length ≤ greatestLength) :
    encodeValue (.array element) (nodeWriters s g level) (.array items) =
      items.mapM (encodeValue element (nodeWriters s g (level - 1))) >>= fun parts =>
        pure (putCount items.length ++ parts.flatten) := by
  rw [encodeValue, if_neg (Nat.not_lt_of_le hroom), tail_nodeWriters]

private theorem encodes_array {element : FieldType} {items : List Value}
    (hroom : items.length ≤ greatestLength)
    (h : Encodes s g (level - 1) seen bytes after (.values (items.map fun v => (element, v)))) :
    encodeValue (.array element) (nodeWriters s g level) (.array items) seen =
      .ok (putCount items.length ++ bytes, after) := by
  obtain ⟨parts, rfl, hparts⟩ := h
  rw [List.mapM_map] at hparts
  rw [encodeValue_array hroom]
  exact state_bind_ok.mpr ⟨parts, after, hparts, rfl⟩

/-! ## Nodes -/

private theorem slotValue_of_fits {f : FieldDef × Nat} {v : Value}
    (hget : n.fields[f.2]? = some (f.1.name, v)) (hv : v.conformsTo f.1.type = true) :
    slotValue t n f = .ok v := by
  rw [slotValue, hget]
  simp only [hv, and_self, if_true]

/-- The values of the fields one after another. What the node holds for them is known. -/
theorem fields_mapM {fields : List (FieldDef × Nat)} {below : List NodeWriter}
    (hslots : List.Forall₂ (fun f slot => slot.1 = f.1.type ∧
      n.fields[f.2]? = some (f.1.name, slot.2) ∧ slot.2.conformsTo slot.1 = true) fields slots) :
    (fields.mapM fun f =>
      (do encodeValue f.1.type below (← slotValue t n f) : Encoder (List UInt8))) =
      slots.mapM fun slot => encodeValue slot.1 below slot.2 := by
  induction hslots with
  | nil => rfl
  | @cons f slot fields slots hslot _ ih =>
    obtain ⟨htype, hget, hconforms⟩ := hslot
    rw [htype] at hconforms
    rw [List.mapM_cons, List.mapM_cons, ih, slotValue_of_fits (t := t) hget hconforms, htype]
    rfl

/-- Steps that only may fail, in a state that they leave alone. -/
theorem mapM_lift_run {α β : Type} {f : α → Except Fault β} {l : List α} {bs : List β}
    (h : l.mapM f = .ok bs) :
    l.mapM (fun a => (liftM (f a) : Encoder β)) seen = .ok (bs, seen) := by
  induction l generalizing bs with
  | nil =>
    cases h
    rfl
  | cons a l ih =>
    rw [List.mapM_cons] at h ⊢
    obtain ⟨b, hb, h⟩ := bind_eq_ok.mp h
    obtain ⟨rest, hrest, h⟩ := bind_eq_ok.mp h
    cases h
    exact state_bind_ok.mpr ⟨b, seen, state_lift_ok.mpr ⟨hb, rfl⟩,
      state_bind_ok.mpr ⟨rest, seen, ih hrest, rfl⟩⟩

/-- A node that fits its type: all that is left to do is to write the values. -/
theorem encodeNewNode_run {below : List NodeWriter} {name : List UInt8} {layout : List (List UInt8)}
    (ht : s.get? n.typeName = some t) (hfits : Fits t n slots) (hname : putText t.name = .ok name)
    (hlayout : t.persisted.mapM (fun f => encodeFieldMeta f.1) = .ok layout) (seen : List NodeId) :
    encodeNewNode s below n seen =
      ((slots.mapM fun slot => encodeValue slot.1 below slot.2) >>= fun values =>
        pure (name ++ putCount t.persistedCount ++ layout.flatten ++ values.flatten)) seen := by
  have hresolve : s.resolve n.typeName = .ok t := by rw [Schema.resolve, ht]
  rw [encodeNewNode, state_bind_run (state_lift_ok.mpr ⟨hresolve, rfl⟩)]
  simp only [hfits.length, ne_eq, not_true, if_false]
  rw [state_bind_run (state_lift_ok.mpr ⟨hname, rfl⟩), state_bind_run (mapM_lift_run hlayout),
    fields_mapM hfits.slots]

private theorem encodes_newNode {name body : List UInt8} {layout : List (List UInt8)}
    (ht : s.get? n.typeName = some t) (hfits : Fits t n slots) (hname : putText t.name = .ok name)
    (hlayout : t.persisted.mapM (fun f => encodeFieldMeta f.1) = .ok layout)
    (h : Encodes s g level seen body after (.values slots)) :
    encodeNewNode s (nodeWriters s g level) n seen =
      .ok (name ++ putCount t.persistedCount ++ layout.flatten ++ body, after) := by
  obtain ⟨parts, rfl, hparts⟩ := h
  rw [encodeNewNode_run ht hfits hname hlayout, state_bind_run hparts]
  rfl

/-- A node that has no handle yet takes the next one. -/
theorem encodeRef_first {id : NodeId} {below : List NodeWriter} (hnew : id ∉ seen)
    (hroom : seen.length ≤ greatestLength) (hnode : g.get? id = some n) :
    encodeRef s g below (some id) seen =
      (encodeNewNode s below n >>=
        fun body => pure (present :: newNode :: body)) (seen ++ [id]) := by
  have hn : g.node id = .ok n := by rw [ObjectGraph.node, hnode]
  have hget : (get : Encoder (List NodeId)) seen = .ok (seen, seen) := rfl
  have hset : (set (seen ++ [id]) : Encoder PUnit) seen = .ok ((), seen ++ [id]) := rfl
  rw [encodeRef, state_bind_run hget, List.idxOf?_eq_none_iff.mpr hnew]
  simp only [if_neg (Nat.not_lt_of_le hroom)]
  rw [state_bind_run hset, state_bind_run (state_lift_ok.mpr ⟨hn, rfl⟩)]

private theorem encodes_first {id : NodeId} {body : List UInt8} (hnew : id ∉ seen)
    (hroom : seen.length ≤ greatestLength) (hnode : g.get? id = some n)
    (h : encodeNewNode s (nodeWriters s g level) n (seen ++ [id]) = .ok (body, after)) :
    encodeRef s g (nodeWriters s g level) (some id) seen =
      .ok (present :: newNode :: body, after) := by
  rw [encodeRef_first hnew hroom hnode, state_bind_run h]
  rfl

/-- There are no more handles than a number can count. -/
theorem encodeRef_full {id : NodeId} {below : List NodeWriter} (hnew : id ∉ seen)
    (hfull : greatestLength < seen.length) :
    encodeRef s g below (some id) seen = .error (.framing .tooManyNodes) := by
  have hget : (get : Encoder (List NodeId)) seen = .ok (seen, seen) := rfl
  rw [encodeRef, state_bind_run hget, List.idxOf?_eq_none_iff.mpr hnew]
  simp only [if_pos hfull]
  rfl

theorem encodes_again {id : NodeId} {handle : Nat} (h : seen.idxOf? id = some handle)
    (below : List NodeWriter) :
    encodeRef s g below (some id) seen =
      .ok (present :: backReference :: putCount handle, seen) := by
  rw [encodeRef]
  refine state_bind_ok.mpr ⟨seen, seen, rfl, ?_⟩
  rw [h]
  rfl

/-! ## All together -/

/-- **The encoder writes what the grammar allows.** -/
theorem Writes.encodes {task : Task} (h : Writes s g level task seen bytes after) :
    Encodes s g level seen bytes after task := by
  induction h with
  | absent => rfl
  | again old => exact encodes_again old _
  | first new room node type fits putName putLayout _ ih =>
    exact encodes_first new room node (encodes_newNode type fits putName putLayout ih)
  | nil => exact ⟨[], rfl, rfl⟩
  | cons _ _ ihFirst ih =>
    obtain ⟨parts, rfl, hparts⟩ := ih
    refine ⟨_ :: parts, rfl, ?_⟩
    rw [List.mapM_cons]
    exact state_bind_ok.mpr ⟨_, _, ihFirst, state_bind_ok.mpr ⟨parts, _, hparts, rfl⟩⟩
  | plain body => exact encodes_plain body _
  | array room _ ih => exact encodes_array room ih
  | reference _ ih => exact ih

/-- The frame is what was written for the root, with the trailer. -/
theorem encode_eq (s : Schema) (g : ObjectGraph) (root : Option NodeId) :
    encode s g root =
      (encodeRef s g (nodeWriters s g nestingLimit) root []).map fun result =>
        withTrailer result.1 := by
  rw [encode, encodeBody, StateT.run']
  cases encodeRef s g (nodeWriters s g nestingLimit) root [] <;> rfl

/-- The frame of a derivation from the root. -/
theorem encode_of_writes {root : Option NodeId} {body : List UInt8} {order : List NodeId}
    (h : Writes s g nestingLimit (.ref root) [] body order) :
    encode s g root = .ok (withTrailer body) := by
  have hrun : encodeRef s g (nodeWriters s g nestingLimit) root [] = .ok (body, order) := h.encodes
  rw [encode_eq, hrun]
  rfl

end DatagramRpc.Frame
