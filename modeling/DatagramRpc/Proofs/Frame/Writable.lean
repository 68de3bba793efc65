import DatagramRpc.Proofs.Frame.Refusals
import DatagramRpc.Proofs.Frame.Relay
import DatagramRpc.Proofs.Frame.Relocation
import DatagramRpc.Proofs.Graph.Depth

/-!
# Which graphs can be written

Whether there is a frame for a graph can be told from the graph alone. The nodes that can be reached
have to hold what their types declare, and the walk from the root must not meet a reference below
more references and arrays than frames allow. What the encoder writes follows the walk step by step,
so the depths of one are the levels of the other.

The walk meets no reference too deep when the nodes, each with the arrays around its references, are
few. No array is ever found in a place for something else.
-/

namespace DatagramRpc

/-- The texts and arrays in a value are short enough for their length fields. -/
def Value.LengthsFit : Value → Prop
  | .text (some v) => (Text.encodeUtf8 v).length ≤ Wire.greatestLength
  | .array items => items.length ≤ Wire.greatestLength ∧ ∀ v ∈ items, LengthsFit v
  | _ => True

/-- The names by which a frame describes the type are short enough for their length fields. -/
structure TypeDef.NamesFit (t : TypeDef) : Prop where
  type : (Text.encodeUtf8 t.name).length ≤ Wire.greatestLength
  fields : ∀ f ∈ t.fields, f.transient = false →
    (Text.encodeUtf8 f.name).length ≤ Wire.greatestLength ∧
      (Text.encodeUtf8 f.type.wireName).length ≤ Wire.greatestLength

/-- A node that holds what its type declares: as many fields, and in the place of each persisted one
its name and a value that conforms to its type. -/
structure Node.Holds (t : TypeDef) (n : Node) : Prop where
  length : n.fields.length = t.fields.length
  fields : ∀ (i : Nat) (f : FieldDef), t.fields[i]? = some f → f.transient = false →
    ∃ v : Value, n.fields[i]? = some (f.name, v) ∧ v.conformsTo f.type = true

namespace ObjectGraph

/-- The node is in the graph, its type is registered, and it holds what the type declares. -/
def WellTyped (s : Schema) (g : ObjectGraph) (id : NodeId) : Prop :=
  ∃ n t, g.get? id = some n ∧ s.get? n.typeName = some t ∧ n.Holds t

/-- Nodes, names, texts and arrays are not more and not longer than a frame can count. -/
structure InRange (s : Schema) (g : ObjectGraph) (root : Option NodeId) : Prop where
  nodes : g.size ≤ Wire.greatestLength + 1
  names : ∀ id n t, g.Reachable s root id → g.get? id = some n →
    s.get? n.typeName = some t → t.NamesFit
  values : ∀ id n, g.Reachable s root id → g.get? id = some n →
    ∀ v ∈ n.persistedValues s, v.LengthsFit

end ObjectGraph

namespace Frame

open Wire ObjectGraph Link

variable {s : Schema} {g : ObjectGraph} {root : Option NodeId} {level depth : Nat}
  {seen after : List NodeId} {met met' : List Link} {bytes : List UInt8} {t : TypeDef} {n : Node}
  {slots : List (FieldType × Value)}

/-! ## What a node has to hold -/

private theorem Fits.holds (h : Fits t n slots) : n.Holds t where
  length := h.length
  fields i f hf htransient := by
    have hmem : (f, i) ∈ t.persisted := TypeDef.mem_persisted.mpr ⟨hf, htransient⟩
    obtain ⟨slot, htype, hget, hconforms⟩ := exists_of_forall₂ h.slots hmem
    exact ⟨slot.2, hget, htype ▸ hconforms⟩

private theorem exists_fits (h : n.Holds t) : ∃ slots, Fits t n slots := by
  let held (f : FieldDef × Nat) : Value := (n.fields[f.2]?.map (·.2)).getD (.zero f.1.type)
  refine ⟨t.persisted.map fun f => (f.1.type, held f), h.length, ?_⟩
  refine List.forall₂_map_right_iff.mpr (List.forall₂_same.mpr fun f hf => ?_)
  obtain ⟨hget, htransient⟩ := TypeDef.mem_persisted.mp hf
  obtain ⟨v, hv, hconforms⟩ := h.fields f.2 f.1 hget htransient
  have hheld : held f = v := by simp [held, hv]
  rw [hheld]
  exact ⟨rfl, hv, hconforms⟩

/-- Whatever the encoder has gone into is well typed. -/
theorem Writes.wellTyped {task : Task} (h : Writes s g level task seen bytes after) :
    ∀ id ∈ after, id ∉ seen → g.WellTyped s id := by
  induction h with
  | @first level id n t slots seen after name body layout new room node type fits putName
      putLayout fields ih =>
    intro a ha hnew
    by_cases hid : a = id
    · subst hid
      exact ⟨n, t, node, type, fits.holds⟩
    · refine ih a ha fun hmem => ?_
      rcases List.mem_append.mp hmem with hmem | hmem
      · exact hnew hmem
      · exact hid (List.mem_singleton.mp hmem)
  | @cons level type v rest seen mid after bytes bytes' first others ihFirst ih =>
    intro a ha hnew
    by_cases hmid : a ∈ mid
    · exact ihFirst a hmid hnew
    · exact ih a ha hmid
  | array _ _ ih => exact ih
  | reference _ ih => exact ih
  | _ => exact fun a ha hnew => absurd ha hnew

/-! ## Depths and levels -/

/-- The references in a task that is taken up at some depth. -/
def Task.links (depth : Nat) : Task → List Link
  | .ref target => [⟨depth, target⟩]
  | .value _ v => v.links.map (deeper (depth + 1))
  | .values slots => (slots.flatMap fun slot => slot.2.links).map (deeper (depth + 1))

private theorem Plain.links {type : FieldType} {v : Value} (h : Plain type v bytes) :
    v.links = [] := by
  cases h <;> simp [Value.links]

private theorem links_cons (depth : Nat) (type : FieldType) (v : Value)
    (rest : List (FieldType × Value)) :
    (Task.values ((type, v) :: rest)).links depth =
      (Task.value type v).links depth ++ (Task.values rest).links depth := by
  simp only [Task.links, List.flatMap_cons, List.map_append]

/-- The elements of an array are one level further down. -/
theorem links_array (depth : Nat) (element : FieldType) (items : List Value) :
    (Task.value (.array element) (.array items)).links depth =
      (Task.values (items.map fun v => (element, v))).links (depth + 1) := by
  rw [Task.links, Value.links, map_deeper_deeper, Task.links, List.flatMap_map]

private theorem links_reference (depth : Nat) (typeName : String) (target : Option NodeId) :
    (Task.value (.object typeName) (.ref target)).links depth =
      (Task.ref target).links (depth + 1) := by
  simp [Task.links, Value.links, deeper]

private theorem Fits.linksBelow {id : NodeId} (h : Fits t n slots) (hnode : g.get? id = some n)
    (ht : s.get? n.typeName = some t) (depth : Nat) :
    g.linksBelow s depth id = (Task.values slots).links depth := by
  rw [ObjectGraph.linksBelow, hnode]
  simp only
  rw [h.persistedValues ht, Task.links, List.flatMap_map]

/-- **Writing goes along the walk**, and meets nothing that is too deep. -/
theorem Writes.walk {task : Task} (h : Writes s g level task seen bytes after) :
    ∀ depth, level = nestingLimit - depth → (∀ target, task = .ref target → depth ≤ nestingLimit) →
      ∃ met, Walk s g seen (task.links depth) met after ∧ ∀ l ∈ met, l.depth ≤ nestingLimit := by
  -- Arrays may go on when no level is left. So the level stays at zero there, and only references
  -- are held to it.
  induction h with
  | absent => exact fun depth _ href => ⟨_, .null .done, by simpa using href none rfl⟩
  | @again level handle id seen old =>
    intro depth _ href
    have hold : id ∈ seen := List.mem_of_getElem? (getElem?_of_idxOf? old)
    exact ⟨_, .again hold .done, by simpa using href _ rfl⟩
  | @first level id n t slots seen after _ _ _ new _ node type fits _ _ _ ih =>
    intro depth hlevel href
    obtain ⟨inner, hbelow, hinner⟩ := ih depth hlevel fun _ he => nomatch he
    rw [← fits.linksBelow node type] at hbelow
    refine ⟨_, .first new hbelow .done, ?_⟩
    rw [List.append_nil]
    exact List.forall_mem_cons.mpr ⟨href _ rfl, hinner⟩
  | nil => exact fun _ _ _ => ⟨[], .done, fun l hl => nomatch hl⟩
  | cons _ _ ihFirst ih =>
    intro depth hlevel _
    obtain ⟨met, hfirst, hmet⟩ := ihFirst depth hlevel fun _ he => nomatch he
    obtain ⟨met', hothers, hmet'⟩ := ih depth hlevel fun _ he => nomatch he
    rw [links_cons]
    exact ⟨met ++ met', hfirst.append hothers, List.forall_mem_append.mpr ⟨hmet, hmet'⟩⟩
  | plain body =>
    intro depth _ _
    rw [Task.links, body.links]
    exact ⟨[], .done, fun l hl => nomatch hl⟩
  | array _ _ ih =>
    intro depth hlevel _
    rw [links_array]
    exact ih (depth + 1) (by omega) fun _ he => nomatch he
  | reference _ ih =>
    intro depth hlevel _
    rw [links_reference]
    exact ih (depth + 1) (by omega) fun _ _ => by omega

/-! ## Nodes that can be written -/

/-- A node that can be written at some depth, whatever its transient fields hold. -/
structure Ready (s : Schema) (g : ObjectGraph) (id : NodeId) (n : Node) (t : TypeDef)
    (slots : List (FieldType × Value)) : Prop where
  node : g.get? id = some n
  type : s.get? n.typeName = some t
  fits : Fits t n slots
  name : ∃ bytes, putText t.name = .ok bytes
  layout : ∃ layout, t.persisted.mapM (fun f => encodeFieldMeta f.1) = .ok layout
  values : ∀ slot ∈ slots, Frame.Storable g.size slot.1 slot.2

private theorem storable_of_conforms (type : FieldType) {size : Nat} :
    ∀ {v : Value}, v.conformsTo type = true →
    v.LengthsFit → (∀ id ∈ v.targets, id.index < size) → Frame.Storable size type v := by
  induction type with
  | array element ih =>
    intro v hconforms hlengths hlive
    cases v with
    | absentArray => exact .plain .noArray
    | array items =>
      rw [Value.LengthsFit] at hlengths
      rw [Value.targets] at hlive
      refine .array hlengths.1 fun v hv =>
        ih (List.all_eq_true.mp hconforms v hv) (hlengths.2 v hv) fun id hid => ?_
      exact hlive id (List.mem_flatMap.mpr ⟨v, hv, hid⟩)
    | _ => cases hconforms
  | object typeName =>
    intro v hconforms _ hlive
    cases v with
    | ref target =>
      exact .reference fun id hid => hlive id (by rwa [Value.targets, Option.mem_toList])
    | _ => cases hconforms
  | text =>
    intro v hconforms hlengths _
    cases v with
    | text v =>
      cases v with
      | none => exact .plain .noText
      | some v =>
        rw [Value.LengthsFit] at hlengths
        obtain ⟨body, hbody⟩ := exists_putText hlengths
        exact .plain (.text hbody)
    | _ => cases hconforms
  | _ =>
    intro v hconforms _ _
    cases v <;> first
      | (cases hconforms; done)
      | exact .plain (by constructor)

private theorem exists_layout (h : t.NamesFit) :
    ∃ layout, t.persisted.mapM (fun f => encodeFieldMeta f.1) = .ok layout := by
  refine mapM_succeeds_iff.mpr fun f hf => ?_
  obtain ⟨hget, htransient⟩ := TypeDef.mem_persisted.mp hf
  obtain ⟨hname, htype⟩ := h.fields f.1 (List.mem_of_getElem? hget) htransient
  obtain ⟨name, hname⟩ := exists_putText hname
  obtain ⟨type, htype⟩ := exists_putText htype
  exact ⟨name ++ type, bind_eq_ok.mpr ⟨name, hname, bind_eq_ok.mpr ⟨type, htype, rfl⟩⟩⟩

/-- In a graph of the right size, what is well typed can be written. -/
theorem exists_ready (hrange : g.InRange s root)
    (htyped : ∀ id, g.Reachable s root id → g.WellTyped s id) {id : NodeId}
    (hid : g.Reachable s root id) : ∃ n t slots, Ready s g id n t slots := by
  obtain ⟨n, t, hnode, ht, hholds⟩ := htyped id hid
  obtain ⟨slots, hfits⟩ := exists_fits hholds
  have hnames := hrange.names id n t hid hnode ht
  have hpersisted := hfits.persistedValues ht
  refine ⟨n, t, slots, hnode, ht, hfits, exists_putText hnames.type, exists_layout hnames,
    fun slot hslot => ?_⟩
  have hmem : slot.2 ∈ n.persistedValues s := by
    rw [hpersisted]
    exact List.mem_map_of_mem hslot
  have hconforms : slot.2.conformsTo slot.1 = true := by
    obtain ⟨f, -, -, hconforms⟩ := exists_of_forall₂ hfits.slots.flip hslot
    exact hconforms
  refine storable_of_conforms slot.1 hconforms
    (hrange.values id n hid hnode _ hmem) fun target htarget => ?_
  have hreach : g.Reachable s root target := by
    refine .step hid ?_
    rw [successors, hnode]
    exact List.mem_flatMap.mpr ⟨slot.2, hmem, htarget⟩
  obtain ⟨n', _, hnode', -⟩ := htyped target hreach
  exact lt_of_get? hnode'

/-! ## Writing along a walk -/

/-- Nothing on a walk stops the encoder. -/
structure Clear (s : Schema) (g : ObjectGraph) (met : List Link) (after : List NodeId) : Prop where
  depth : ∀ l ∈ met, l.depth ≤ nestingLimit
  nodes : ∀ id ∈ after, ∃ n t slots, Ready s g id n t slots
  room : after.length ≤ greatestLength + 1

private theorem Clear.part {mid : List NodeId} (h : Clear s g met after) (hmet : met' ⊆ met)
    (hmid : mid <+: after) : Clear s g met' mid where
  depth l hl := h.depth l (hmet hl)
  nodes id hid := h.nodes id (hmid.subset hid)
  room := Nat.le_trans hmid.length_le h.room

/-- At this depth, whatever walk the task begins can be written if nothing on it stops the
encoder. -/
def Writable (s : Schema) (g : ObjectGraph) (depth : Nat) (task : Task) : Prop :=
  ∀ {seen met after}, Walk s g seen (task.links depth) met after → Clear s g met after →
    ∃ bytes, Writes s g (nestingLimit - depth) task seen bytes after

private theorem writable_values (h : ∀ slot ∈ slots, Writable s g depth (.value slot.1 slot.2)) :
    Writable s g depth (.values slots) := by
  induction slots with
  | nil =>
    intro seen met after hwalk _
    cases hwalk
    exact ⟨[], .nil⟩
  | cons slot slots ih =>
    intro seen met after hwalk hclear
    obtain ⟨hslot, hslots⟩ := List.forall_mem_cons.mp h
    rw [links_cons] at hwalk
    obtain ⟨met₁, met₂, mid, rfl, hfirst, hrest⟩ := hwalk.split
    obtain ⟨bytes, hbytes⟩ :=
      hslot hfirst (hclear.part (List.subset_append_left ..) hrest.visits.isPrefix)
    obtain ⟨bytes', hbytes'⟩ :=
      ih hslots hrest (hclear.part (List.subset_append_right ..) List.prefix_rfl)
    exact ⟨bytes ++ bytes', .cons hbytes hbytes'⟩

private theorem writable_value {size : Nat} {type : FieldType} {v : Value}
    (h : Frame.Storable size type v) :
    ∀ {depth : Nat}, (∀ d, depth < d → d ≤ nestingLimit → ∀ target, Writable s g d (.ref target)) →
      Writable s g depth (.value type v) := by
  induction h with
  | plain body =>
    intro depth _ seen met after hwalk _
    rw [Task.links, body.links] at hwalk
    cases hwalk
    exact ⟨_, .plain body⟩
  | @array element items room each ih =>
    intro depth hrefs seen met after hwalk hclear
    rw [links_array] at hwalk
    have hitems : Writable s g (depth + 1) (.values (items.map fun v => (element, v))) := by
      refine writable_values fun slot hslot => ?_
      obtain ⟨v, hv, rfl⟩ := List.mem_map.mp hslot
      exact ih v hv fun d hd => hrefs d (by omega)
    obtain ⟨bytes, hbytes⟩ := hitems hwalk hclear
    exact ⟨_, .array room hbytes⟩
  | reference =>
    intro depth hrefs seen met after hwalk hclear
    rw [links_reference] at hwalk
    -- The reference itself is the first that the walk meets.
    have hdepth : depth + 1 ≤ nestingLimit := by
      cases hwalk <;> exact hclear.depth _ List.mem_cons_self
    obtain ⟨bytes, hbytes⟩ := hrefs (depth + 1) (Nat.lt_succ_self _) hdepth _ hwalk hclear
    have hlevel : nestingLimit - depth = nestingLimit - (depth + 1) + 1 := by omega
    rw [hlevel]
    exact ⟨bytes, .reference hbytes⟩

/-- **Whatever lies on a clear walk is written.** -/
theorem writable_ref (depth : Nat) : ∀ target, Writable s g depth (.ref target) := by
  -- By induction on the levels that are left: a node is written with what is known of the levels
  -- below it.
  induction hleft : nestingLimit - depth using Nat.strongRecOn generalizing depth with
  | ind left ih =>
    subst hleft
    have hrefs : ∀ d, depth < d → d ≤ nestingLimit → ∀ target, Writable s g d (.ref target) :=
      fun d hd hlimit => ih (nestingLimit - d) (by omega) d rfl
    intro target seen met after hwalk hclear
    cases hwalk with
    | null next =>
      cases next
      exact ⟨_, .absent⟩
    | again old next =>
      cases next
      obtain ⟨handle, hhandle⟩ := Option.isSome_iff_exists.mp (List.isSome_idxOf?.mpr old)
      exact ⟨_, .again hhandle⟩
    | @first _ _ _ _ id _ inner _ new below next =>
      cases next
      have hmore := below.visits.isPrefix
      have hid : id ∈ after := hmore.subset (List.mem_append_right _ (List.mem_singleton_self id))
      obtain ⟨n, t, slots, hready⟩ := hclear.nodes id hid
      obtain ⟨name, hname⟩ := hready.name
      obtain ⟨layout, hlayout⟩ := hready.layout
      have hroom : seen.length ≤ greatestLength := by
        have hlength := hmore.length_le
        rw [List.length_append, List.length_singleton] at hlength
        have htotal := hclear.room
        omega
      rw [hready.fits.linksBelow hready.node hready.type] at below
      have hinner : inner ⊆ ⟨depth, some id⟩ :: (inner ++ []) := by
        rw [List.append_nil]
        exact List.subset_cons_self ..
      obtain ⟨body, hbody⟩ :=
        writable_values (fun slot hslot => writable_value (hready.values slot hslot) hrefs) below
        (hclear.part hinner List.prefix_rfl)
      exact ⟨_, .first new hroom hready.node hready.type hready.fits hname hlayout hbody⟩

/-! ## Frames -/

/-- What was written was well typed, and nothing was too deep. -/
theorem walk_of_encode {frame : List UInt8} (h : encode s g root = .ok frame) :
    (∀ id, g.Reachable s root id → g.WellTyped s id) ∧
      ∃ met order, WalkFrom s g root met order ∧ ∀ l ∈ met, l.depth ≤ nestingLimit := by
  obtain ⟨body, order, -, hwrites⟩ := encode_ok h
  obtain ⟨met, hwalk, hdepth⟩ := hwrites.walk 0 rfl fun _ _ => Nat.zero_le _
  refine ⟨fun id hid => ?_, met, order, hwalk, hdepth⟩
  exact hwrites.wellTyped id (hwrites.visits.mem_iff_reachable.mpr hid) List.not_mem_nil

private theorem exists_frame (hrange : g.InRange s root)
    (htyped : ∀ id, g.Reachable s root id → g.WellTyped s id) {order : List NodeId}
    (hwalk : WalkFrom s g root met order) (hdepth : ∀ l ∈ met, l.depth ≤ nestingLimit) :
    ∃ frame, encode s g root = .ok frame := by
  have hmem : ∀ {id}, id ∈ order ↔ g.Reachable s root id := hwalk.visits.mem_iff_reachable
  have hdistinct : Distinct g order := by
    refine ⟨hwalk.visits.nodup List.nodup_nil, fun id hid => ?_⟩
    obtain ⟨n, _, hnode, -⟩ := htyped id (hmem.mp hid)
    exact lt_of_get? hnode
  have hclear : Clear s g met order :=
    ⟨hdepth, fun id hid => exists_ready hrange htyped (hmem.mp hid),
      Nat.le_trans hdistinct.length_le hrange.nodes⟩
  obtain ⟨body, hbody⟩ := writable_ref 0 root hwalk hclear
  exact ⟨withTrailer body, encode_of_writes hbody⟩

/-- **Exactly when a graph can be written**: if all that can be reached is well typed and its one
walk meets no reference too deep. -/
theorem encode_succeeds_iff (s : Schema) (g : ObjectGraph) (root : Option NodeId) :
    (∀ type, encode s g root ≠ .error (.schema (.arrayDeclaredAs type))) ∧
      ∃ met order, WalkFrom s g root met order ∧
        (∀ met' order', WalkFrom s g root met' order' → met' = met ∧ order' = order) ∧
        (g.InRange s root →
          ((∃ frame, encode s g root = .ok frame) ↔
            (∀ id, g.Reachable s root id → g.WellTyped s id) ∧ ∀ l ∈ met, l.depth ≤ nestingLimit) ∧
          ∀ a, (∀ id, g.Reachable s root id → g.WellTyped s id) → g.ArraysWithin s root a →
            {id | g.Reachable s root id}.ncard * (1 + a) ≤ nestingLimit →
            ∃ frame, encode s g root = .ok frame) := by
  refine ⟨fun type h => (nomatch encode_refusal h), ?_⟩
  obtain ⟨met, order, hwalk⟩ := exists_walkFrom s g root
  refine ⟨met, order, hwalk, fun _ _ => hwalk.unique, fun hrange => ⟨⟨?_, ?_⟩, ?_⟩⟩
  · rintro ⟨frame, hframe⟩
    obtain ⟨htyped, met', order', hwalk', hdepth⟩ := walk_of_encode hframe
    obtain ⟨rfl, rfl⟩ := hwalk.unique hwalk'
    exact ⟨htyped, hdepth⟩
  · rintro ⟨htyped, hdepth⟩
    exact exists_frame hrange htyped hwalk hdepth
  · intro a htyped harrays hfew
    exact exists_frame hrange htyped hwalk fun l hl =>
      Nat.le_trans (hwalk.depth_le harrays l hl) hfew

theorem encode_succeeds_iff_moved :
    movedGraph.InRange sampleSchema (some ⟨2⟩) ∧
      (∀ id, movedGraph.Reachable sampleSchema (some ⟨2⟩) id →
        movedGraph.WellTyped sampleSchema id) ∧ movedGraph.ArraysWithin sampleSchema (some ⟨2⟩) 1 ∧
      {id | movedGraph.Reachable sampleSchema (some ⟨2⟩) id}.ncard * (1 + 1) ≤ nestingLimit ∧
      (∃ frame, encode sampleSchema movedGraph (some ⟨2⟩) = .ok frame) ∧
      ∃ met order, WalkFrom sampleSchema movedGraph (some ⟨2⟩) met order ∧
        ∀ l ∈ met, l.depth ≤ nestingLimit := by
  have hrange : movedGraph.InRange sampleSchema (some ⟨2⟩) := by
    refine ⟨by decide, fun id n t hid hn ht => ?_, fun id n hid hn => ?_⟩
    · rw [List.mem_singleton.mp (Schema.mem_of_get? ht)]
      exact ⟨by decide, by decide +kernel⟩
    · have hlabel : (Text.encodeUtf8 "root").length ≤ greatestLength := by decide +kernel
      have hlinks : 3 ≤ greatestLength := by decide
      rcases reachable_movedGraph.mp hid with rfl | rfl
      all_goals
        cases hn
        simp [Node.persistedValues, Schema.get?, TypeDef.persisted, Value.LengthsFit,
          movedGraph, sampleSchema, sampleType, hlabel, hlinks]
  have htyped : ∀ id, movedGraph.Reachable sampleSchema (some ⟨2⟩) id →
      movedGraph.WellTyped sampleSchema id := by
    intro id hid
    rcases reachable_movedGraph.mp hid with rfl | rfl
    all_goals
      refine ⟨_, sampleType, rfl, rfl, rfl, fun i f hf htransient => ?_⟩
      rcases i with _ | _ | _ | _ | i
      · cases hf
        exact ⟨_, rfl, rfl⟩
      · cases hf
        exact ⟨_, rfl, rfl⟩
      · cases hf
        exact ⟨_, rfl, by decide⟩
      · cases hf
        cases htransient
      · cases hf
  have harrays : movedGraph.ArraysWithin sampleSchema (some ⟨2⟩) 1 := by
    intro id n hid hn
    rcases reachable_movedGraph.mp hid with rfl | rfl
    all_goals
      cases hn
      simp [Node.persistedValues, Schema.get?, TypeDef.persisted, Value.links, Link.deeper,
        movedGraph, sampleSchema, sampleType]
  have hfew : {id | movedGraph.Reachable sampleSchema (some ⟨2⟩) id}.ncard *
      (1 + 1) ≤ nestingLimit := by
    have hpair : {id | movedGraph.Reachable sampleSchema (some ⟨2⟩) id} = {⟨2⟩, ⟨1⟩} :=
      Set.ext fun id => reachable_movedGraph
    rw [hpair, Set.ncard_pair (by decide)]
    decide
  obtain ⟨-, met, order, hwalk, -, hboth⟩ := encode_succeeds_iff sampleSchema movedGraph (some ⟨2⟩)
  obtain ⟨hiff, hsmall⟩ := hboth hrange
  have hframe := hsmall 1 htyped harrays hfew
  exact ⟨hrange, htyped, harrays, hfew, hframe, met, order, hwalk, (hiff.mp hframe).2⟩

end Frame

end DatagramRpc
