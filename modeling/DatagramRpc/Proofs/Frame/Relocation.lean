import DatagramRpc.Proofs.Frame.Derivations
import DatagramRpc.Proofs.Frame.RoundTrip

/-!
# Frames do not show where nodes are

Two graphs with roots whose reachable nodes correspond to each other have the same frame. The frame
depends neither on the places of the nodes, nor on nodes that cannot be reached, nor on what
transient fields hold. The two runs of the encoder come upon corresponding nodes in the same order,
so that they give them the same handles.
-/

namespace DatagramRpc

/-- What a node shows of itself in a frame is what the other shows, with references renamed: the
type, the number of fields, and the names and values of the persisted ones. -/
structure Node.Shows (s : Schema) (φ : NodeId → NodeId) (n n' : Node) : Prop where
  typeName : n'.typeName = n.typeName
  length : n'.fields.length = n.fields.length
  persisted : ∀ t, s.get? n.typeName = some t → ∀ f ∈ t.persisted,
    n'.fields[f.2]? = n.fields[f.2]?.map fun slot => (slot.1, slot.2.rename φ)

namespace ObjectGraph

/-- The nodes that can be reached in one graph correspond one to one to those of another. -/
structure Relocates (s : Schema) (φ : NodeId → NodeId) (g : ObjectGraph) (root : Option NodeId)
    (g' : ObjectGraph) (root' : Option NodeId) : Prop where
  rooted : root' = root.map φ
  bijective : Set.BijOn φ {id | g.Reachable s root id} {id | g'.Reachable s root' id}
  nodes : ∀ id n, g.Reachable s root id → g.get? id = some n →
    ∃ n', g'.get? (φ id) = some n' ∧ n.Shows s φ n'

end ObjectGraph

/-- A value keeps its shape when its references are renamed. -/
theorem Value.conformsTo_rename {φ : NodeId → NodeId} (t : FieldType) :
    ∀ v : Value, (v.rename φ).conformsTo t = v.conformsTo t := by
  induction t with
  | array element ih =>
    intro v
    cases v with
    | array items =>
      rw [rename, conformsTo, conformsTo]
      simp only [List.all_map, Function.comp_def, ih]
    | _ => simp [rename, conformsTo]
  | _ =>
    intro v
    simp only [conformsTo, sort_rename]

/-- Nodes that are told apart have the same first places under new names. -/
theorem idxOf?_map {φ : NodeId → NodeId} {seen : List NodeId} {id : NodeId}
    (hinj : ∀ other ∈ seen, φ other = φ id → other = id) :
    (seen.map φ).idxOf? (φ id) = seen.idxOf? id := by
  induction seen with
  | nil => rfl
  | cons first rest ih =>
    have hrest := ih fun other hother => hinj other (List.mem_cons_of_mem _ hother)
    rw [List.map_cons, List.idxOf?_cons, List.idxOf?_cons, hrest]
    by_cases he : first = id
    · rw [he, if_pos (beq_self_eq_true _), if_pos (beq_self_eq_true _)]
    · have hne : φ first ≠ φ id := fun hφ => he (hinj first List.mem_cons_self hφ)
      rw [if_neg (by simpa using hne), if_neg (by simpa using he)]

namespace Frame

open Wire ObjectGraph

variable {s : Schema} {g g' : ObjectGraph} {root root' : Option NodeId} {φ : NodeId → NodeId}
  {level : Nat} {seen after : List NodeId} {bytes : List UInt8} {t : TypeDef} {n n' : Node}
  {slots : List (FieldType × Value)}

/-- The values of a node under new names. -/
def renameSlots (φ : NodeId → NodeId) (slots : List (FieldType × Value)) :
    List (FieldType × Value) :=
  slots.map fun slot => (slot.1, slot.2.rename φ)

/-- The same task under new names. -/
def Task.rename (φ : NodeId → NodeId) : Task → Task
  | ref target => ref (target.map φ)
  | value type v => value type (v.rename φ)
  | values slots => values (renameSlots φ slots)

private theorem renameSlots_items (φ : NodeId → NodeId) (element : FieldType) (items : List Value) :
    renameSlots φ (items.map fun v => (element, v)) =
      (items.map (·.rename φ)).map fun v => (element, v) := by
  simp only [renameSlots, List.map_map, Function.comp_def]

/-- A node has the same handle under its new name. -/
theorem handle_relocated (hr : Relocates s φ g root g' root') {id : NodeId}
    (hid : g.Reachable s root id) (hseen : ∀ other ∈ seen, g.Reachable s root other) :
    (seen.map φ).idxOf? (φ id) = seen.idxOf? id :=
  idxOf?_map fun other hother he => hr.bijective.injOn (hseen other hother) hid he

private theorem Fits.shows (h : Fits t n slots) (hn : n.Shows s φ n')
    (ht : s.get? n.typeName = some t) : Fits t n' (renameSlots φ slots) where
  length := hn.length.trans h.length
  slots := by
    have hslots := (List.forall₂_and_left _ _).mpr ⟨fun f (hf : f ∈ t.persisted) => hf, h.slots⟩
    refine List.forall₂_map_right_iff.mpr (hslots.imp fun f slot ⟨hf, htype, hget, hv⟩ => ?_)
    refine ⟨htype, ?_, ?_⟩
    · rw [hn.persisted t ht f hf, hget, Option.map_some]
    · rw [Value.conformsTo_rename]
      exact hv

/-- **Corresponding nodes are written alike**, with the same handles. -/
theorem Writes.relocate (hr : Relocates s φ g root g' root') {task : Task}
    (h : Writes s g level task seen bytes after) (hseen : ∀ id ∈ seen, g.Reachable s root id)
    (htask : ∀ id ∈ task.targets, g.Reachable s root id) :
    Writes s g' level (task.rename φ) (seen.map φ) bytes (after.map φ) := by
  induction h with
  | absent => exact .absent
  | @again level handle id seen old =>
    have hid := htask id (by simp [Task.targets])
    exact .again ((handle_relocated hr hid hseen).trans old)
  | @first level id n t slots seen after name body layout new room node type fits putName
      putLayout _ ih =>
    have hid := htask id (by simp [Task.targets])
    obtain ⟨n', hnode', hshows⟩ := hr.nodes id n hid node
    have hnew : φ id ∉ seen.map φ := by
      rw [← List.idxOf?_eq_none_iff, handle_relocated hr hid hseen]
      exact List.idxOf?_eq_none_iff.mpr new
    have hroom : (seen.map φ).length ≤ greatestLength := by rwa [List.length_map]
    have htype : s.get? n'.typeName = some t := by rw [hshows.typeName, type]
    have hfields := ih (fun other hother => ?_) fun next hnext => ?_
    · rw [List.map_append, List.map_singleton] at hfields
      exact .first hnew hroom hnode' htype (fits.shows hshows type) putName putLayout hfields
    · rcases List.mem_append.mp hother with hother | hother
      · exact hseen other hother
      · rw [List.mem_singleton.mp hother]
        exact hid
    · -- The values of the node refer to its successors.
      refine .step hid ?_
      rw [successors, node]
      simp only
      rwa [fits.persistedValues type, List.flatMap_map]
  | nil => exact .nil
  | @cons level type v rest seen mid after bytes bytes' first _ ihFirst ih =>
    have hv : ∀ id ∈ v.targets, g.Reachable s root id := fun id hid =>
      htask id (List.mem_append_left _ hid)
    have hrest : ∀ id ∈ (Task.values rest).targets, g.Reachable s root id := fun id hid =>
      htask id (List.mem_append_right _ hid)
    exact .cons (ihFirst hseen hv) (ih (first.visits.reachable hseen hv) hrest)
  | plain body =>
    rw [Task.rename, body.rename]
    exact .plain body
  | @array level element items seen after bytes room _ ih =>
    have hitems : ∀ id ∈ (Task.values (items.map fun v => (element, v))).targets,
        g.Reachable s root id := by
      rw [Task.targets, Value.targets] at htask
      rwa [Task.targets, List.flatMap_map]
    have hbody := ih hseen hitems
    have hroom : (items.map (·.rename φ)).length ≤ greatestLength := by rwa [List.length_map]
    rw [Task.rename, renameSlots_items] at hbody
    have harray := Writes.array hroom hbody
    rw [List.length_map] at harray
    rw [Task.rename, Value.rename]
    exact harray
  | reference _ ih =>
    rw [Task.targets, Value.targets] at htask
    rw [Task.rename, Value.rename]
    exact .reference (ih hseen htask)

/-- **The frame depends only on what it describes**: graphs whose reachable nodes correspond have
the same frame, byte for byte. -/
theorem encode_relocated (hr : Relocates s φ g root g' root') {frame : List UInt8}
    (h : encode s g root = .ok frame) : encode s g' root' = .ok frame := by
  obtain ⟨body, order, rfl, hwrites⟩ := encode_ok h
  have hroot : ∀ id ∈ (Task.ref root).targets, g.Reachable s root id := fun id hid =>
    .root (Option.mem_toList.mp hid)
  have hmoved := hwrites.relocate hr (fun id hid => nomatch hid) hroot
  rw [Task.rename, ← hr.rooted] at hmoved
  exact encode_of_writes hmoved

/-- The sample graph in another order. What its transient fields hold is different, and a node that
cannot be reached is of no registered type. -/
def movedGraph : ObjectGraph where
  nodes := #[
    ⟨"Ghost", []⟩,
    ⟨"Sample", [("label", .text none), ("next", .ref (some ⟨2⟩)), ("links", .absentArray),
      ("cache", .ref (some ⟨7⟩))]⟩,
    ⟨"Sample", [("label", .text (some "root")), ("next", .ref (some ⟨1⟩)),
      ("links", .array [.ref (some ⟨1⟩), .ref none, .ref (some ⟨2⟩)]), ("cache", .ref none)]⟩]

/-- Where the nodes of the sample graph have gone. -/
def moved (id : NodeId) : NodeId := if id = ⟨0⟩ then ⟨2⟩ else ⟨1⟩

/-- A root and a node that it refers to, when they refer to no others. -/
theorem reachable_pair {a b id : NodeId} (ha : ∀ next ∈ g.successors s a, next = a ∨ next = b)
    (hb : ∀ next ∈ g.successors s b, next = a ∨ next = b) (hab : b ∈ g.successors s a) :
    g.Reachable s (some a) id ↔ id = a ∨ id = b := by
  constructor
  · intro h
    induction h with
    | root start => exact .inl (Option.some.inj start).symm
    | step _ next ih =>
      rcases ih with rfl | rfl
      · exact ha _ next
      · exact hb _ next
  · rintro (rfl | rfl)
    · exact .root rfl
    · exact .step (.root rfl) hab

theorem reachable_movedGraph {id : NodeId} :
    movedGraph.Reachable sampleSchema (some ⟨2⟩) id ↔ id = ⟨2⟩ ∨ id = ⟨1⟩ := by
  apply reachable_pair <;> simp [successors, ObjectGraph.get?, Node.persistedValues, Schema.get?,
    TypeDef.persisted, Value.targets, movedGraph, sampleSchema, sampleType]

private theorem relocates_sampleGraph :
    Relocates sampleSchema moved sampleGraph (some ⟨0⟩) movedGraph (some ⟨2⟩) := by
  have hsample : ∀ id, sampleGraph.Reachable sampleSchema (some ⟨0⟩) id ↔ id = ⟨0⟩ ∨ id = ⟨2⟩ := by
    intro id
    apply reachable_pair <;> simp [successors, ObjectGraph.get?, Node.persistedValues, Schema.get?,
      TypeDef.persisted, Value.targets, sampleGraph, sampleSchema, sampleType]
  refine ⟨rfl, ?_, fun id n hid hn => ?_⟩
  · simp only [hsample, reachable_movedGraph]
    refine ⟨?_, ?_, ?_⟩
    · rintro id (rfl | rfl)
      · exact .inl rfl
      · exact .inr rfl
    · rintro id (rfl | rfl) id' (rfl | rfl) he
      · rfl
      · cases he
      · cases he
      · rfl
    · rintro id (rfl | rfl)
      · exact ⟨⟨0⟩, .inl rfl, rfl⟩
      · exact ⟨⟨2⟩, .inr rfl, rfl⟩
  · rcases (hsample id).mp hid with rfl | rfl
    all_goals
      cases hn
      refine ⟨_, rfl, rfl, rfl, fun t ht => ?_⟩
      cases ht
      simp [TypeDef.persisted, Value.rename, sampleType, sampleGraph, movedGraph, moved]

theorem encode_relocated_sample :
    encode sampleSchema sampleGraph (some ⟨0⟩) = .ok sampleFrame ∧
      encode sampleSchema movedGraph (some ⟨2⟩) = .ok sampleFrame := by
  have hencode : encode sampleSchema sampleGraph (some ⟨0⟩) = .ok sampleFrame :=
    ok_of_toOption (by decide +kernel)
  exact ⟨hencode, encode_relocated relocates_sampleGraph hencode⟩

end Frame

end DatagramRpc
