import DatagramRpc.Frame.Encode
import DatagramRpc.Proofs.Failure
import DatagramRpc.Proofs.Graph.Visits
import Mathlib.Data.List.Forall2

/-!
# What the encoder writes

The bytes of a reference, a value or a sequence of values, as a derivation: what is written, and
which nodes have a handle before and after it. The derivation follows the grammar of frames, so that
whatever holds of all frames is proved by induction on it.
-/

namespace DatagramRpc.Frame

open Wire

/-- The bytes of a value without references. -/
inductive Plain : FieldType → Value → List UInt8 → Prop
  | bool (v : Bool) : Plain .bool (.bool v) [if v then 1 else 0]
  | byte (v : Int8) : Plain .byte (.byte v) [v.toUInt8]
  | int (v : Int32) : Plain .int (.int v) (putInt v)
  | long (v : Int64) : Plain .long (.long v) (putLong v)
  | double (bits : UInt64) : Plain .double (.double bits) (putDouble bits)
  | noText : Plain .text (.text none) [absent]
  | text {v : String} {bytes : List UInt8} (body : putText v = .ok bytes) :
      Plain .text (.text (some v)) (present :: bytes)
  | noArray {element : FieldType} : Plain (.array element) .absentArray (putInt (-1))

/-- What a node holds in its persisted fields fits the type: names, places and values. -/
structure Fits (t : TypeDef) (n : Node) (slots : List (FieldType × Value)) : Prop where
  length : n.fields.length = t.fields.length
  slots : List.Forall₂ (fun (f : FieldDef × Nat) slot =>
    slot.1 = f.1.type ∧ n.fields[f.2]? = some (f.1.name, slot.2) ∧ slot.2.conformsTo slot.1 = true)
    t.persisted slots

/-- What can be written: a reference, a value of a type, or values of several types. -/
inductive Task where
  | ref (target : Option NodeId)
  | value (type : FieldType) (v : Value)
  | values (slots : List (FieldType × Value))

/-- `Writes s g level task seen bytes after`: with so many levels of nesting left and these nodes
seen, the encoder writes these bytes and has then seen the nodes `after`. -/
inductive Writes (s : Schema) (g : ObjectGraph) :
    Nat → Task → List NodeId → List UInt8 → List NodeId → Prop
  | absent {level : Nat} {seen : List NodeId} : Writes s g level (.ref none) seen [absent] seen
  | again {level handle : Nat} {id : NodeId} {seen : List NodeId}
      (old : seen.idxOf? id = some handle) :
      Writes s g level (.ref (some id)) seen (present :: backReference :: putCount handle) seen
  | first {level : Nat} {id : NodeId} {n : Node} {t : TypeDef} {slots : List (FieldType × Value)}
      {seen after : List NodeId} {name body : List UInt8} {layout : List (List UInt8)}
      (new : id ∉ seen)
      (room : seen.length ≤ greatestLength) (node : g.get? id = some n)
      (type : s.get? n.typeName = some t) (fits : Fits t n slots)
      (putName : putText t.name = .ok name)
      (putLayout : t.persisted.mapM (fun f => encodeFieldMeta f.1) = .ok layout)
      (fields : Writes s g level (.values slots) (seen ++ [id]) body after) :
      Writes s g level (.ref (some id)) seen
        (present :: newNode :: (name ++ putCount t.persistedCount ++ layout.flatten ++ body)) after
  | nil {level : Nat} {seen : List NodeId} : Writes s g level (.values []) seen [] seen
  | cons {level : Nat} {type : FieldType} {v : Value} {rest : List (FieldType × Value)}
      {seen mid after : List NodeId} {bytes bytes' : List UInt8}
      (first : Writes s g level (.value type v) seen bytes mid)
      (others : Writes s g level (.values rest) mid bytes' after) :
      Writes s g level (.values ((type, v) :: rest)) seen (bytes ++ bytes') after
  | plain {level : Nat} {type : FieldType} {v : Value} {seen : List NodeId} {bytes : List UInt8}
      (body : Plain type v bytes) : Writes s g level (.value type v) seen bytes seen
  | array {level : Nat} {element : FieldType} {items : List Value} {seen after : List NodeId}
      {bytes : List UInt8} (room : items.length ≤ greatestLength)
      (body : Writes s g (level - 1) (.values (items.map fun v => (element, v))) seen bytes after) :
      Writes s g level (.value (.array element) (.array items)) seen
        (putCount items.length ++ bytes)
        after
  | reference {level : Nat} {typeName : String} {target : Option NodeId} {seen after : List NodeId}
      {bytes : List UInt8} (body : Writes s g level (.ref target) seen bytes after) :
      Writes s g (level + 1) (.value (.object typeName) (.ref target)) seen bytes after

/-! ## The encoder writes only this -/

variable {s : Schema} {g : ObjectGraph} {level : Nat} {seen after : List NodeId}
  {bytes : List UInt8}

theorem slotValue_ok {t : TypeDef} {n : Node} {f : FieldDef × Nat} {v : Value}
    (h : slotValue t n f = .ok v) :
    n.fields[f.2]? = some (f.1.name, v) ∧ v.conformsTo f.1.type = true := by
  unfold slotValue at h
  split at h
  · next name w hw =>
    split at h
    · next hfits =>
      cases h
      exact ⟨by rw [hw, hfits.1], hfits.2⟩
    · cases h
  · cases h

/-- One level of nesting further down. -/
theorem tail_nodeWriters (s : Schema) (g : ObjectGraph) (level : Nat) :
    (nodeWriters s g level).tail = nodeWriters s g (level - 1) := by
  cases level <;> rfl

/-- Several values, when each one by itself is written. -/
theorem writes_mapM {α : Type} {write : α → Encoder (List UInt8)} {R : α → FieldType × Value → Prop}
    {l : List α} {parts : List (List UInt8)}
    (each : ∀ a ∈ l, ∀ seen bytes after, write a seen = .ok (bytes, after) →
      ∃ slot, R a slot ∧ Writes s g level (.value slot.1 slot.2) seen bytes after)
    (h : l.mapM write seen = .ok (parts, after)) :
    ∃ slots, List.Forall₂ R l slots ∧
      Writes s g level (.values slots) seen parts.flatten after := by
  induction l generalizing seen parts with
  | nil =>
    cases h
    exact ⟨[], .nil, .nil⟩
  | cons a l ih =>
    rw [List.mapM_cons] at h
    obtain ⟨bytes, mid, hfirst, h⟩ := state_bind_ok.mp h
    obtain ⟨rest, end', hrest, h⟩ := state_bind_ok.mp h
    cases h
    obtain ⟨slot, hslot, hwrites⟩ := each a List.mem_cons_self seen bytes mid hfirst
    obtain ⟨slots, hslots, hothers⟩ := ih (fun b hb => each b (List.mem_cons_of_mem _ hb)) hrest
    exact ⟨slot :: slots, .cons hslot hslots, .cons hwrites hothers⟩

/-- A value is written, when the references in it are. -/
theorem writes_of_encodeValue (t : FieldType) :
    ∀ {level : Nat} {v : Value} {seen after : List NodeId} {bytes : List UInt8},
      (∀ m < level, ∀ target seen bytes after,
        encodeRef s g (nodeWriters s g m) target seen = .ok (bytes, after) →
          Writes s g m (.ref target) seen bytes after) →
      v.conformsTo t = true → encodeValue t (nodeWriters s g level) v seen = .ok (bytes, after) →
      Writes s g level (.value t v) seen bytes after := by
  induction t with
  | array element ih =>
    intro level v seen after bytes hrefs hv h
    cases v with
    | absentArray =>
      cases h
      exact .plain .noArray
    | array items =>
      rw [encodeValue] at h
      simp only at h
      split at h
      · cases h
      · next hroom =>
        obtain ⟨parts, mid, hparts, hdone⟩ := state_bind_ok.mp h
        cases hdone
        rw [tail_nodeWriters] at hparts
        have hall := List.all_eq_true.mp hv
        obtain ⟨slots, hslots, hwrites⟩ := writes_mapM (R := fun v slot => slot = (element, v))
          (fun v hmem _ _ _ h =>
            ⟨_, rfl, ih (fun m hm => hrefs m (by omega)) (hall v hmem) h⟩) hparts
        have hmap : items.map (fun v => (element, v)) = slots :=
          List.forall₂_eq_eq_eq ▸ List.forall₂_map_left_iff.mpr (hslots.imp fun _ _ h => h.symm)
        exact .array (Nat.le_of_not_lt hroom) (hmap ▸ hwrites)
    | _ => cases hv
  | object typeName =>
    intro level v seen after bytes hrefs hv h
    cases v with
    | ref target =>
      cases level with
      | zero => cases h
      | succ level => exact .reference (hrefs level (Nat.lt_succ_self _) target seen bytes after h)
    | _ => cases hv
  | text =>
    intro level v seen after bytes hrefs hv h
    cases v with
    | text v =>
      cases v with
      | none =>
        cases h
        exact .plain .noText
      | some v =>
        rw [encodeValue] at h
        obtain ⟨body, mid, hput, hdone⟩ := state_bind_ok.mp h
        obtain ⟨hbody, rfl⟩ := state_lift_ok.mp hput
        cases hdone
        exact .plain (.text hbody)
    | _ => cases hv
  | _ =>
    intro level v seen after bytes hrefs hv h
    cases v <;> first
      | (cases hv; done)
      | (cases h; exact .plain (by constructor))

private theorem fits_of_slotValue {t : TypeDef} {n : Node} {slots : List (FieldType × Value)}
    (hlength : n.fields.length = t.fields.length)
    (h : List.Forall₂ (fun f slot => slot.1 = f.1.type ∧ slotValue t n f = .ok slot.2)
      t.persisted slots) : Fits t n slots := by
  refine ⟨hlength, h.imp fun f slot ⟨htype, hslot⟩ => ?_⟩
  obtain ⟨hget, hconforms⟩ := slotValue_ok hslot
  exact ⟨htype, hget, htype ▸ hconforms⟩

theorem resolve_ok {name : String} {t : TypeDef} (h : s.resolve name = .ok t) :
    s.get? name = some t := by
  unfold Schema.resolve at h
  split at h
  · next found =>
    cases h
    exact found
  · cases h

private theorem node_ok {id : NodeId} {n : Node} (h : g.node id = .ok n) : g.get? id = some n := by
  unfold ObjectGraph.node at h
  split at h
  · next found =>
    cases h
    exact found
  · cases h

private theorem encodeNewNode_ok {below : List NodeWriter} {n : Node}
    (h : encodeNewNode s below n seen = .ok (bytes, after)) :
    ∃ t name layout parts, s.get? n.typeName = some t ∧ n.fields.length = t.fields.length ∧
      putText t.name = .ok name ∧ t.persisted.mapM (fun f => encodeFieldMeta f.1) = .ok layout ∧
      (t.persisted.mapM fun f =>
        (do encodeValue f.1.type below (← slotValue t n f) : Encoder (List UInt8))) seen =
          .ok (parts, after) ∧
      bytes = name ++ putCount t.persistedCount ++ layout.flatten ++ parts.flatten := by
  rw [encodeNewNode] at h
  obtain ⟨t, mid, ht, hnode⟩ := state_bind_ok.mp h
  obtain ⟨hresolve, rfl⟩ := state_lift_ok.mp ht
  simp only at hnode
  split at hnode
  · cases hnode
  · next hlength =>
    obtain ⟨name, mid', hname, hlayoutOn⟩ := state_bind_ok.mp hnode
    obtain ⟨hput, rfl⟩ := state_lift_ok.mp hname
    obtain ⟨layout, mid', hlayout, hpartsOn⟩ := state_bind_ok.mp hlayoutOn
    obtain ⟨hmeta, rfl⟩ := state_mapM_lift_ok hlayout
    obtain ⟨parts, mid', hparts, hdone⟩ := state_bind_ok.mp hpartsOn
    cases hdone
    exact ⟨t, name, layout, parts, resolve_ok hresolve, Decidable.not_not.mp hlength, hput, hmeta,
      hparts, rfl⟩

/-- **The encoder follows the grammar**, at every level of nesting. -/
theorem writes_of_encodeRef (level : Nat) :
    ∀ target seen bytes after, encodeRef s g (nodeWriters s g level) target seen =
      .ok (bytes, after) → Writes s g level (.ref target) seen bytes after := by
  induction level using Nat.strongRecOn with
  | ind level ih =>
    intro target seen bytes after h
    cases target with
    | none =>
      cases h
      exact .absent
    | some id =>
      rw [encodeRef] at h
      obtain ⟨seen', mid, hget, h⟩ := state_bind_ok.mp h
      cases hget
      cases hidx : seen.idxOf? id with
      | some handle =>
        rw [hidx] at h
        cases h
        exact .again hidx
      | none =>
        rw [hidx] at h
        simp only at h
        split at h
        · cases h
        · next hroom =>
          obtain ⟨_, mid, hset, hbody⟩ := state_bind_ok.mp h
          cases hset
          obtain ⟨n, mid, hn, hbody⟩ := state_bind_ok.mp hbody
          obtain ⟨hnode, rfl⟩ := state_lift_ok.mp hn
          obtain ⟨body, mid, hnew, hdone⟩ := state_bind_ok.mp hbody
          cases hdone
          obtain ⟨t, name, layout, parts, ht, hlength, hput, hmeta, hparts, rfl⟩ :=
            encodeNewNode_ok hnew
          obtain ⟨slots, hslots, hfields⟩ := writes_mapM
            (R := fun f slot => slot.1 = f.1.type ∧ slotValue t n f = .ok slot.2)
            (fun f _ seen bytes after h => by
              obtain ⟨v, mid, hv, hvalue⟩ := state_bind_ok.mp h
              obtain ⟨hslot, rfl⟩ := state_lift_ok.mp hv
              exact ⟨(f.1.type, v), ⟨rfl, hslot⟩,
                writes_of_encodeValue f.1.type ih (slotValue_ok hslot).2 hvalue⟩) hparts
          exact .first (List.idxOf?_eq_none_iff.mp hidx) (Nat.le_of_not_lt hroom) (node_ok hnode) ht
            (fits_of_slotValue hlength hslots) hput hmeta hfields

/-! ## What follows from the grammar -/

/-- The nodes that a task refers to, in order. -/
def Task.targets : Task → List NodeId
  | ref target => target.toList
  | value _ v => v.targets
  | values slots => slots.flatMap fun slot => slot.2.targets

/-- The number of values in a task. -/
def Task.size : Task → Nat
  | ref _ | value .. => 1
  | values slots => slots.length

private theorem Plain.targets {t : FieldType} {v : Value} (h : Plain t v bytes) :
    v.targets = [] := by
  cases h <;> simp [Value.targets]

theorem getElem?_of_idxOf? {id : NodeId} {handle : Nat} (h : seen.idxOf? id = some handle) :
    seen[handle]? = some id := by
  obtain ⟨hlt, heq, -⟩ := List.findIdx?_eq_some_iff_getElem.mp h
  rw [List.getElem?_eq_getElem hlt, beq_iff_eq.mp heq]

theorem Fits.persistedValues {t : TypeDef} {n : Node} {slots : List (FieldType × Value)}
    (h : Fits t n slots) (ht : s.get? n.typeName = some t) :
    n.persistedValues s = slots.map (·.2) := by
  obtain ⟨-, hslots⟩ := h
  rw [Node.persistedValues, ht]
  simp only
  generalize t.persisted = fields at hslots
  induction hslots with
  | nil => rfl
  | cons hslot _ ih => rw [List.filterMap_cons, hslot.2.1, Option.map_some, ih, List.map_cons]

/-- The encoder walks depth first, and each node takes the next handle. -/
theorem Writes.visits {task : Task} (h : Writes s g level task seen bytes after) :
    g.Visits s seen task.targets after := by
  induction h with
  | absent => exact .done
  | again old => exact .again (List.mem_of_getElem? (getElem?_of_idxOf? old)) .done
  | @first level id n t slots seen after _ _ _ new _ node type fits _ _ _ ih =>
    refine .first new ?_ .done
    rw [ObjectGraph.successors, node]
    simp only
    rw [fits.persistedValues type, List.flatMap_map]
    exact ih
  | nil => exact .done
  | cons _ _ ihFirst ih => exact ihFirst.append ih
  | plain body =>
    rw [Task.targets, body.targets]
    exact .done
  | array _ _ ih =>
    rw [Task.targets, List.flatMap_map] at ih
    rw [Task.targets, Value.targets]
    exact ih
  | reference _ ih =>
    rw [Task.targets, Value.targets]
    exact ih

/-- Every value takes at least one byte. -/
theorem Writes.size_le {task : Task} (h : Writes s g level task seen bytes after) :
    task.size ≤ bytes.length := by
  induction h with
  | nil => exact Nat.le_refl _
  | cons _ _ ihFirst ih =>
    simp only [Task.size, List.length_cons, List.length_append] at *
    omega
  | plain body => cases body <;> simp [Task.size, putInt, putLong, putDouble]
  | reference _ ih => exact ih
  | array _ _ _ =>
    simp only [Task.size, putCount, List.length_append, length_bigEndian]
    omega
  | _ => simp [Task.size]

end DatagramRpc.Frame
