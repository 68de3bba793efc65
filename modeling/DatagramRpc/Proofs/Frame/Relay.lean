import DatagramRpc.Proofs.Frame.Rewritten

/-!
# Graphs that are sent on

A graph that has come out of a frame is written again for the next receiver. Both directions bound
how deep references and arrays nest, but the decoder follows the fields as the frame lists them and
the encoder as they are declared, so a node that two fields share may begin at another depth than
before. Whatever else the encoder could refuse has been ruled out by the decoder: if the nodes are
not nested too deep for their declared order, the frame is written and describes the same graph.

If the first frame has listed the fields in the declared order, then nothing but the handles can
keep the graph from being written.
-/

namespace DatagramRpc.Frame

open Wire ObjectGraph

variable {α β : Type} {s : Schema} {g : ObjectGraph} {level n after : Nat} {bytes : List UInt8}
  {marks : List Mark} {t : TypeDef} {seen : List NodeId} {value : FieldDef × Nat → Value}

/-! ## What the decoder has ruled out -/

/-- A value that can be written at some depth: no text and no array is too long, and no reference
leads outside. -/
inductive Storable (size : Nat) : FieldType → Value → Prop
  | plain {type : FieldType} {v : Value} {bytes : List UInt8} (body : Plain type v bytes) :
      Storable size type v
  | array {element : FieldType} {items : List Value} (room : items.length ≤ greatestLength)
      (each : ∀ v ∈ items, Storable size element v) : Storable size (.array element) (.array items)
  | reference {typeName : String} {target : Option NodeId} (live : ∀ id ∈ target, id.index < size) :
      Storable size (.object typeName) (.ref target)

private theorem Storable.conforms {size : Nat} {type : FieldType} {v : Value}
    (h : Storable size type v) : v.conformsTo type = true := by
  induction h with
  | plain body => exact body.conforms
  | array _ _ ih => exact List.all_eq_true.mpr ih
  | reference => rfl

/-- A node that can be written at some depth. -/
structure Stored (s : Schema) (g : ObjectGraph) (id : NodeId) (t : TypeDef)
    (value : FieldDef × Nat → Value) : Prop where
  node : g.get? id = some (.filled t value)
  type : s.get? t.name = some t
  describable : DescribableType t
  name : ∃ bytes, putText t.name = .ok bytes
  layout : ∃ layout, t.persisted.mapM (fun f => encodeFieldMeta f.1) = .ok layout
  values : ∀ f ∈ t.persisted, Storable g.size f.1.type (value f)

/-- Every node can be written at some depth. -/
def AllStored (s : Schema) (g : ObjectGraph) : Prop :=
  ∀ id, id.index < g.size → ∃ t value, Stored s g id t value

def Task.Storable (size : Nat) : Task → Prop
  | .ref target => ∀ id ∈ target, id.index < size
  | .value type v => Frame.Storable size type v
  | .values slots => ∀ slot ∈ slots, Frame.Storable size slot.1 slot.2

private theorem Reads.storable {task : Task} {size : Nat}
    (h : Reads s g level task n bytes after marks) (hsize : after ≤ size) : task.Storable size := by
  induction h with
  | absent => exact fun id hid => nomatch hid
  | again old =>
    intro id hid
    cases hid
    exact Nat.lt_of_lt_of_le old hsize
  | first _ _ _ _ _ _ fields =>
    intro id hid
    cases hid
    exact Nat.lt_of_lt_of_le fields.le hsize
  | nil => exact fun slot hslot => nomatch hslot
  | cons _ others ihFirst ih =>
    exact List.forall_mem_cons.mpr ⟨ihFirst (Nat.le_trans others.le hsize), ih hsize⟩
  | plain body => exact .plain body
  | truth => exact .plain (.bool _)
  | array room _ ih => exact .array room fun v hv => ih hsize _ (List.mem_map_of_mem hv)
  | reference _ ih => exact .reference (ih hsize)

/-- Every node that was read can be written. -/
theorem Reads.stored {task : Task} (h : Reads s g level task n bytes after marks)
    (hsize : after ≤ g.size) : ∀ i, n ≤ i → i < after → ∃ t value, Stored s g ⟨i⟩ t value := by
  induction h with
  | @first level n after t value fs name body layout marks node type describable order
      putName putLayout fields ih =>
    intro i hi hlt
    rcases Nat.eq_or_lt_of_le hi with rfl | hi
    · have hmeta := mapM_succeeds_iff.mp ⟨layout, putLayout⟩
      have hvalues := fields.storable hsize
      refine ⟨t, value, node, type, describable, ⟨name, putName⟩, ?_, ?_⟩
      · exact mapM_succeeds_iff.mpr fun f hf => hmeta f (order.mem_iff.mpr hf)
      · exact fun f hf => hvalues _ (List.mem_map_of_mem (order.mem_iff.mpr hf))
    · exact ih hsize i hi hlt
  | @cons level type v rest n mid after bytes bytes' marks marks' first others ihFirst ih =>
    intro i hi hlt
    rcases Nat.lt_or_ge i mid with hmid | hmid
    · exact ihFirst (Nat.le_trans others.le hsize) i hi hmid
    · exact ih hsize i hmid hlt
  | array _ _ ih => exact ih hsize
  | reference _ ih => exact ih hsize
  | _ => exact fun i hi hlt => absurd hlt (Nat.not_lt_of_le hi)

/-! ## How writing can end -/

/-- Some nodes of a graph, each of them once. -/
structure Distinct (g : ObjectGraph) (seen : List NodeId) : Prop where
  nodup : seen.Nodup
  live : ∀ id ∈ seen, id.index < g.size

private theorem mem_firstNodes {id : NodeId} (h : id.index < n) : id ∈ firstNodes n :=
  List.mem_map.mpr ⟨id.index, List.mem_range.mpr h, rfl⟩

theorem Distinct.length_le (h : Distinct g seen) : seen.length ≤ g.size := by
  have hsub := h.nodup.subperm fun id hid => mem_firstNodes (h.live id hid)
  have hlength := hsub.length_le
  rwa [length_firstNodes] at hlength

private theorem Distinct.concat (h : Distinct g seen) {id : NodeId} (hnew : id ∉ seen)
    (hid : id.index < g.size) : Distinct g (seen ++ [id]) where
  nodup := by
    refine List.nodup_append.mpr ⟨h.nodup, List.nodup_singleton _, fun a ha b hb he => hnew ?_⟩
    rw [← List.mem_singleton.mp hb, ← he]
    exact ha
  live a ha := by
    rcases List.mem_append.mp ha with ha | ha
    · exact h.live a ha
    · rw [List.mem_singleton.mp ha]
      exact hid

/-- What can stop the encoder: nodes that are nested too deep, or that are too many. -/
inductive Obstacle (g : ObjectGraph) : Fault → Prop
  | depth : Obstacle g (.framing (.nestedTooDeep nestingLimit))
  | handles (many : greatestLength + 1 < g.size) : Obstacle g (.framing .tooManyNodes)

/-- Writing comes to its end or to an obstacle. -/
def Proceeds (g : ObjectGraph) (write : Encoder α) : Prop :=
  ∀ seen, Distinct g seen →
    match write seen with
    | .ok (_, after) => Distinct g after
    | .error fault => Obstacle g fault

namespace Proceeds

variable {write : Encoder α} {next : α → Encoder β}

private theorem pure (a : α) : Proceeds g (Pure.pure a : Encoder α) := fun _ h => h

private theorem bind (h : Proceeds g write) (h' : ∀ a, Proceeds g (next a)) :
    Proceeds g (write >>= next) := by
  intro seen hseen
  have hfirst := h seen hseen
  cases hrun : write seen with
  | error fault =>
    rw [hrun] at hfirst
    rw [state_bind_error hrun]
    exact hfirst
  | ok result =>
    rw [hrun] at hfirst
    rw [state_bind_run hrun]
    exact h' result.1 result.2 hfirst

private theorem mapM {γ : Type} {f : γ → Encoder α} {l : List γ} (h : ∀ c ∈ l, Proceeds g (f c)) :
    Proceeds g (l.mapM f) := by
  induction l with
  | nil => exact pure []
  | cons c l ih =>
    rw [List.mapM_cons]
    obtain ⟨hfirst, hothers⟩ := List.forall_mem_cons.mp h
    exact hfirst.bind fun _ => (ih hothers).bind fun _ => pure _

end Proceeds

/-- References to live nodes are written at this level. -/
def ProceedsAt (s : Schema) (g : ObjectGraph) (level : Nat) : Prop :=
  ∀ target : Option NodeId, (∀ id ∈ target, id.index < g.size) →
    Proceeds g (encodeRef s g (nodeWriters s g level) target)

private theorem proceeds_value {type : FieldType} {v : Value} (h : Storable g.size type v) :
    ∀ {level : Nat}, (∀ m < level, ProceedsAt s g m) →
      Proceeds g (encodeValue type (nodeWriters s g level) v) := by
  induction h with
  | plain body =>
    intro level _ seen hseen
    rw [encodes_plain body]
    exact hseen
  | @array element items room _ ih =>
    intro level hrefs
    rw [encodeValue_array room]
    exact (Proceeds.mapM fun v hv => ih v hv fun m hm => hrefs m (by omega)).bind fun _ => .pure _
  | reference live =>
    intro level hrefs
    cases level with
    | zero => exact fun _ _ => .depth
    | succ level => exact hrefs level (Nat.lt_succ_self _) _ live

private theorem proceeds_newNode {id : NodeId} (h : Stored s g id t value)
    (hrefs : ∀ m < level, ProceedsAt s g m) :
    Proceeds g (encodeNewNode s (nodeWriters s g level) (.filled t value)) := by
  obtain ⟨name, hname⟩ := h.name
  obtain ⟨layout, hlayout⟩ := h.layout
  have hfits := fits_filled value fun f hf => (h.values f hf).conforms
  intro seen hseen
  rw [encodeNewNode_run h.type hfits hname hlayout]
  have hvalues : Proceeds g ((t.persisted.map fun f => (f.1.type, value f)).mapM fun slot =>
      encodeValue slot.1 (nodeWriters s g level) slot.2) := by
    refine .mapM fun slot hslot => ?_
    obtain ⟨f, hf, rfl⟩ := List.mem_map.mp hslot
    exact proceeds_value (h.values f hf) hrefs
  exact hvalues.bind (fun _ => .pure _) seen hseen

/-- **Only the two obstacles can stop the encoder** where every node can be written at some
depth. -/
theorem proceeds_ref (hall : AllStored s g) (level : Nat) : ProceedsAt s g level := by
  induction level using Nat.strongRecOn with
  | ind level hrefs =>
    intro target htarget seen hseen
    cases target with
    | none => exact hseen
    | some id =>
      have hid : id.index < g.size := htarget id rfl
      cases hidx : seen.idxOf? id with
      | some handle =>
        rw [encodes_again hidx]
        exact hseen
      | none =>
        have hnew := List.idxOf?_eq_none_iff.mp hidx
        have hnext := hseen.concat hnew hid
        by_cases hfull : greatestLength < seen.length
        · -- All nodes seen are different ones of the graph, and here is one more.
          have hlength := hnext.length_le
          rw [List.length_append, List.length_singleton] at hlength
          rw [encodeRef_full hnew hfull]
          exact .handles (by omega)
        · obtain ⟨t, value, hstored⟩ := hall id hid
          rw [encodeRef_first hnew (Nat.le_of_not_lt hfull) hstored.node]
          exact (proceeds_newNode hstored hrefs).bind (fun _ => .pure _) _ hnext

/-! ## Frames -/

/-- The same graph under new names of its nodes. -/
structure Mirrors (s : Schema) (original copy : Rooted) (φ : NodeId → NodeId) : Prop where
  rooted : copy.root = original.root.map φ
  bijective : Set.BijOn φ {id | id.index < original.graph.size} {id | id.index < copy.graph.size}
  /-- Types and persisted fields are the same up to the names of nodes, transient fields are
  zero. -/
  nodes : ∀ id, id.index < original.graph.size → original.graph.CopiedTo s copy.graph φ id

/-- Where every node can be reached, what is restored is all of the graph. -/
theorem Restores.mirrors {original copy : Rooted} {φ : NodeId → NodeId}
    (h : Restores s original.graph original.root copy φ) (hwell : original.WellFormed s) :
    Mirrors s original copy φ := by
  have hall : {id | original.graph.Reachable s original.root id} =
      {id | id.index < original.graph.size} := by
    ext id
    refine ⟨fun hreach => ?_, hwell.reachable id⟩
    obtain ⟨node, -, -, hnode, -⟩ := h.nodes id hreach
    exact lt_of_get? hnode
  refine ⟨h.rooted, hall ▸ h.bijective, fun id hid => h.nodes id (hwell.reachable id hid)⟩

private theorem AllStored.describable (h : AllStored s g) : DescribableNodes s g := by
  intro id node t hnode ht
  obtain ⟨t', value, hstored⟩ := h id (lt_of_get? hnode)
  cases hnode.symm.trans hstored.node
  cases ht.symm.trans hstored.type
  exact hstored.describable

private theorem encode_proceeds (hall : AllStored s g) {root : Option NodeId}
    (hroot : ∀ id ∈ root, id.index < g.size) :
    (∃ frame, encode s g root = .ok frame) ∨ ∃ fault, encode s g root = .error fault ∧
    Obstacle g fault := by
  have hproceeds := proceeds_ref hall nestingLimit root hroot []
    ⟨List.nodup_nil, fun id hid => nomatch hid⟩
  rw [encode_eq]
  cases hrun : encodeRef s g (nodeWriters s g nestingLimit) root [] with
  | ok result => exact .inl ⟨withTrailer result.1, rfl⟩
  | error fault =>
    rw [hrun] at hproceeds
    exact .inr ⟨fault, rfl, hproceeds⟩

/-- **What was decoded can be sent on** and describes the same graph then, unless it nests too deep
in the declared order or the handles run out. -/
theorem sent_on {frame : List UInt8} {decoded : Rooted} (h : decode s frame = .ok decoded) :
    ((∃ frame' copy φ, encode s decoded.graph decoded.root = .ok frame' ∧
      decode s frame' = .ok copy ∧
          Mirrors s decoded copy φ) ∨
        encode s decoded.graph decoded.root = .error (.framing (.nestedTooDeep nestingLimit)) ∨
        encode s decoded.graph decoded.root = .error (.framing .tooManyNodes) ∧
          greatestLength + 1 < decoded.graph.size) ∧
      ((∀ mark ∈ transcript s frame, mark.InOrder) → decoded.graph.size ≤ greatestLength + 1 →
        ∃ frame', encode s decoded.graph decoded.root = .ok frame') := by
  have hwell : decoded.WellFormed s := by
    have hends := decode_ends s frame
    rwa [h] at hends
  obtain ⟨body, rfl, hreads⟩ := reads_of_decode h
  have hall : AllStored s decoded.graph :=
    fun id hid => hreads.stored (Nat.le_refl _) id.index (Nat.zero_le _) hid
  constructor
  · rcases encode_proceeds hall (hreads.storable (Nat.le_refl _)) with
      ⟨frame', hencode⟩ | ⟨fault, hencode, hstop⟩
    · obtain ⟨copy, φ, hdecode, hrestores⟩ := decode_encode_nodes hall.describable hencode
      exact .inl ⟨frame', copy, φ, hencode, hdecode, hrestores.mirrors hwell⟩
    · cases hstop with
      | depth => exact .inr (.inl hencode)
      | handles many => exact .inr (.inr ⟨hencode, many⟩)
  · intro horder hroom
    obtain ⟨body', hwrites, -⟩ := hreads.writes horder hroom
    exact ⟨withTrailer body', encode_of_writes hwrites⟩

theorem sent_on_switches : ∃ decoded, decode switchSchema switchFrame = .ok decoded ∧
    (∀ mark ∈ transcript switchSchema switchFrame, mark.InOrder) ∧
    ∃ frame' copy φ, encode switchSchema decoded.graph decoded.root = .ok frame' ∧
      decode switchSchema frame' = .ok copy ∧ Mirrors switchSchema decoded copy φ := by
  have horder : ∀ mark ∈ transcript switchSchema switchFrame, mark.InOrder :=
    fun mark hmark => (canonical_switchFrame mark hmark).inOrder
  obtain ⟨decoded, hdecode, hroom⟩ := exists_decoded_switches
  obtain ⟨hsent, hordered⟩ := sent_on hdecode
  obtain ⟨frame', hencode⟩ := hordered horder hroom
  refine ⟨decoded, hdecode, horder, ?_⟩
  rcases hsent with hsent | hdeep | ⟨-, hmany⟩
  · exact hsent
  · rw [hencode] at hdeep
    cases hdeep
  · exact absurd hroom (Nat.not_le_of_lt hmany)

/-- Items that refer to others at once, and through 64 arrays. -/
def itemType : TypeDef where
  name := "Item"
  fields := [⟨"deep", .nested (.object "Item") 64, false⟩, ⟨"near", .object "Item", false⟩]

def itemSchema : Schema where
  types := [itemType]
  distinct := by decide +kernel

/-- A frame that lists the near field first: an item begins there, and is deep down the second time.
It holds an absent reference that is as deep again. -/
def sharedFrame : List UInt8 :=
  let text : String → List UInt8 := fun name => (putText name).toOption.getD []
  let start := [present, newNode] ++ text "Item" ++ putCount 2 ++ text "near" ++ text "Item" ++
    text "deep" ++ text (FieldType.nested (.object "Item") 64).wireName
  let down := (List.replicate 64 (putCount 1)).flatten
  withTrailer (start ++ (start ++ [absent] ++ down ++ [absent]) ++ down ++
    ([present, backReference] ++ putCount 1))

example : ¬ ∀ mark ∈ transcript itemSchema sharedFrame, mark.InOrder := by decide +kernel

/-- The decoder comes upon the shared item at once, the encoder below 64 arrays, and then there are
64 more. -/
theorem not_sent_on_shared : ∃ decoded, decode itemSchema sharedFrame = .ok decoded ∧
    encode itemSchema decoded.graph decoded.root =
      .error (.framing (.nestedTooDeep nestingLimit)) := by
  have hrefused : (match decode itemSchema sharedFrame with
      | .error _ => false
      | .ok decoded => match encode itemSchema decoded.graph decoded.root with
        | .error (.framing cause) => decide (cause = .nestedTooDeep nestingLimit)
        | _ => false) = true := by decide +kernel
  cases hdecode : decode itemSchema sharedFrame with
  | error fault =>
    rw [hdecode] at hrefused
    cases hrefused
  | ok decoded =>
    refine ⟨decoded, rfl, ?_⟩
    rw [hdecode] at hrefused
    simp only at hrefused
    split at hrefused
    · next cause hencode => rw [hencode, of_decide_eq_true hrefused]
    · cases hrefused

end DatagramRpc.Frame
