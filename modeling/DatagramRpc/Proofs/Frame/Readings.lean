import DatagramRpc.Proofs.Frame.Inversion

/-!
# What the decoder reads

The bytes of a reference, a value or a sequence of values as the decoder takes them, as a
derivation: from how many nodes to how many the graph grows, and which marks are left. It is the
grammar of frames once more, with the fields of a node in any order and any byte but zero for true.
Since a node is filled in before the next one is read, the values in a derivation are those of the
finished graph.
-/

namespace DatagramRpc.Frame

open Wire ObjectGraph Decoder

variable {α : Type} {s : Schema} {g g' : ObjectGraph} {level n after : Nat} {bytes : List UInt8}
  {marks : List Mark} {t : TypeDef}

/-- `Reads s g level task n bytes after marks`: with `n` nodes, the decoder reads the task from
these bytes, has `after` nodes then, and has come by the marks. -/
inductive Reads (s : Schema) (g : ObjectGraph) :
    Nat → Task → Nat → List UInt8 → Nat → List Mark → Prop
  | absent {level n : Nat} : Reads s g level (.ref none) n [absent] n []
  | again {level n handle : Nat} (old : handle < n) (room : handle ≤ greatestLength) :
      Reads s g level (.ref (some ⟨handle⟩)) n (present :: backReference :: putCount handle) n []
  | first {level n after : Nat} {t : TypeDef} {value : FieldDef × Nat → Value}
      {fs : List (FieldDef × Nat)}
      {name body : List UInt8} {layout : List (List UInt8)} {marks : List Mark}
      (node : g.get? ⟨n⟩ = some (.filled t value)) (type : s.get? t.name = some t)
      (describable : DescribableType t) (order : fs.Perm t.persisted)
      (putName : putText t.name = .ok name)
      (putLayout : fs.mapM (fun f => encodeFieldMeta f.1) = .ok layout)
      (fields : Reads s g level (.values (fs.map fun f => (f.1.type, value f)))
        (n + 1) body after marks) :
      Reads s g level (.ref (some ⟨n⟩)) n
        (present :: newNode :: (name ++ putCount t.persistedCount ++ layout.flatten ++ body)) after
        (.listing t fs :: marks)
  | nil {level n : Nat} : Reads s g level (.values []) n [] n []
  | cons {level : Nat} {type : FieldType} {v : Value} {rest : List (FieldType × Value)}
      {n mid after : Nat}
      {bytes bytes' : List UInt8} {marks marks' : List Mark}
      (first : Reads s g level (.value type v) n bytes mid marks)
      (others : Reads s g level (.values rest) mid bytes' after marks') :
      Reads s g level (.values ((type, v) :: rest)) n (bytes ++ bytes') after (marks ++ marks')
  | plain {level n : Nat} {type : FieldType} {v : Value} {bytes : List UInt8}
      (body : Plain type v bytes) :
      Reads s g level (.value type v) n bytes n []
  | truth {level n : Nat} (byte : UInt8) :
      Reads s g level (.value .bool (.bool (byte != 0))) n [byte] n [.truth byte]
  | array {level n after : Nat} {element : FieldType} {items : List Value} {bytes : List UInt8}
      {marks : List Mark} (room : items.length ≤ greatestLength)
      (body : Reads s g (level - 1) (.values (items.map fun v => (element, v))) n
        bytes after marks) :
      Reads s g level (.value (.array element) (.array items)) n
        (putCount items.length ++ bytes) after marks
  | reference {level n after : Nat} {typeName : String} {target : Option NodeId}
      {bytes : List UInt8}
      {marks : List Mark} (body : Reads s g level (.ref target) n bytes after marks) :
      Reads s g (level + 1) (.value (.object typeName) (.ref target)) n bytes after marks

namespace Reads

/-- The graph grows. -/
theorem le {task : Task} (h : Reads s g level task n bytes after marks) : n ≤ after := by
  induction h with
  | first _ _ _ _ _ _ _ ih => exact Nat.le_of_succ_le ih
  | cons _ _ ihFirst ih => exact Nat.le_trans ihFirst ih
  | array _ _ ih => exact ih
  | reference _ ih => exact ih
  | _ => exact Nat.le_refl _

/-- Only the nodes that begin on the way matter. -/
theorem congr {task : Task} (h : Reads s g level task n bytes after marks)
    (hsame : ∀ i, n ≤ i → i < after → g'.get? ⟨i⟩ = g.get? ⟨i⟩) :
    Reads s g' level task n bytes after marks := by
  induction h with
  | absent => exact .absent
  | again old room => exact .again old room
  | first node type describable order putName putLayout fields ih =>
    refine .first ?_ type describable order putName putLayout
      (ih fun i hi hlt => hsame i (by omega) hlt)
    rw [hsame _ (Nat.le_refl _) fields.le, node]
  | nil => exact .nil
  | cons first others ihFirst ih =>
    have hmid := first.le
    have hlast := others.le
    exact .cons (ihFirst fun i hi hlt => hsame i hi (by omega))
      (ih fun i hi hlt => hsame i (by omega) hlt)
  | plain body => exact .plain body
  | truth byte => exact .truth byte
  | array room _ ih => exact .array room (ih hsame)
  | reference _ ih => exact .reference (ih hsame)

end Reads

/-! ## Runs of the recorder -/

variable {rst rst' : DecodeState × List Mark}

private theorem silent_ok {d : Decoder α} {a : α} (h : Recorder.silent d rst = .ok a rst') :
    d rst.1 = .ok a rst'.1 ∧ rst'.2 = rst.2 := by
  rw [Recorder.silent] at h
  split at h
  · next hd =>
    cases h
    exact ⟨hd, rfl⟩
  · cases h

private theorem note_ok {m : Mark} {u : Unit} (h : Recorder.note m rst = .ok u rst') :
    rst'.1 = rst.1 ∧ rst'.2 = rst.2 ++ [m] := by
  cases h
  exact ⟨rfl, rfl⟩

private theorem Records.run {r : Recorder α} {d : Decoder α} {a : α} (h : Records r d)
    (hr : r rst = .ok a rst') : d rst.1 = .ok a rst'.1 := by
  rw [← h rst, hr, forget]

/-- Between two states of the recorder, a task has been read. -/
def Reading (s : Schema) (level : Nat) (task : Task) (rst rst' : DecodeState × List Mark) : Prop :=
  ∃ bytes marks, rst.1.input = bytes ++ rst'.1.input ∧ rst'.2 = rst.2 ++ marks ∧
    Reads s rst'.1.graph level task rst.1.graph.size bytes rst'.1.graph.size marks

private theorem reading_plain {type : FieldType} {v : Value} (hbool : type ≠ .bool)
    (harray : ∀ element, type ≠ .array element)
    (h : Recorder.silent (decodeValue type []) rst = .ok v rst') :
    Reading s level (.value type v) rst rst' := by
  obtain ⟨hrun, hmarks⟩ := silent_ok h
  obtain ⟨hgraph, bytes, hplain, hinput⟩ := decodeValue_plain hbool harray hrun
  refine ⟨bytes, [], hinput, by rw [hmarks, List.append_nil], ?_⟩
  rw [hgraph]
  exact .plain hplain

/-- Values one after another. In between, nodes that were there before may be filled in. -/
theorem Reading.cons {mid mid' : DecodeState × List Mark} {type : FieldType} {v : Value}
    {rest : List (FieldType × Value)} (first : Reading s level (.value type v) rst mid)
    (others : Reading s level (.values rest) mid' rst') (hinput : mid'.1.input = mid.1.input)
    (hmarks : mid'.2 = mid.2) (hsize : mid'.1.graph.size = mid.1.graph.size)
    (kept : ∀ i, rst.1.graph.size ≤ i → i < mid.1.graph.size →
      rst'.1.graph.get? ⟨i⟩ = mid.1.graph.get? ⟨i⟩) :
    Reading s level (.values ((type, v) :: rest)) rst rst' := by
  obtain ⟨bytes, marks, hbytes, hadded, hfirst⟩ := first
  obtain ⟨bytes', marks', hbytes', hadded', hothers⟩ := others
  rw [hsize] at hothers
  refine ⟨bytes ++ bytes', marks ++ marks', ?_, ?_, .cons (hfirst.congr kept) hothers⟩
  · rw [hbytes, ← hinput, hbytes', List.append_assoc]
  · rw [hadded', hmarks, hadded, List.append_assoc]

private theorem recordValue_built {type : FieldType} {v : Value} (hst : Intact s rst.1.graph)
    (h : recordValue type (recorders s level) rst = .ok v rst') :
    Built s rst.1.graph rst'.1.graph v.targets ∧ v.conformsTo type = true :=
  (builds_decodeValue type (allBuild_nodeReaders s level) rst.1 hst).of_ok
    ((records_value type (allRecord s level)).run h)

private theorem reading_elements {element : FieldType}
    (each : ∀ {rst rst' : DecodeState × List Mark} {v : Value}, Intact s rst.1.graph →
      recordValue element (recorders s level) rst = .ok v rst' →
      Reading s level (.value element v) rst rst')
    {count : Nat} :
    ∀ {rst rst' : DecodeState × List Mark} {items : List Value}, Intact s rst.1.graph →
    ((List.replicate count ()).mapM fun _ => recordValue element (recorders s level)) rst =
      .ok items rst' →
    items.length = count ∧
    Reading s level (.values (items.map fun v => (element, v))) rst rst' := by
  induction count with
  | zero =>
    intro rst rst' items _ h
    cases h
    exact ⟨rfl, [], [], rfl, (List.append_nil _).symm, .nil⟩
  | succ count ih =>
    intro rst rst' items hst h
    rw [List.replicate_succ, List.mapM_cons] at h
    obtain ⟨v, mid, hfirst, h⟩ := estate_bind_ok.mp h
    obtain ⟨rest, last, hothers, hdone⟩ := estate_bind_ok.mp h
    cases hdone
    have hbuilt := (recordValue_built hst hfirst).1
    have hbuilds :=
      builds_times (builds_decodeValue element (allBuild_nodeReaders s level)) count
        mid.1 hbuilt.intact
    obtain ⟨hbuilt', -⟩ := hbuilds.of_ok
      ((Records.mapM (fun _ => records_value element (allRecord s level)) _).run hothers)
    obtain ⟨hlength, hrest⟩ := ih hbuilt.intact hothers
    refine ⟨by rw [List.length_cons, hlength], ?_⟩
    exact (each hst hfirst).cons hrest rfl rfl rfl fun i _ hlt => hbuilt'.kept ⟨i⟩ hlt

/-- References at this level are read. -/
def ReadsRefs (s : Schema) (level : Nat) : Prop :=
  ∀ {rst rst' : DecodeState × List Mark} {target : Option NodeId}, Intact s rst.1.graph →
    recordRef s (recorders s level) rst = .ok target rst' → Reading s level (.ref target) rst rst'

private theorem reading_value (type : FieldType) :
    ∀ {level : Nat} {rst rst' : DecodeState × List Mark} {v : Value},
    (∀ m < level, ReadsRefs s m) → Intact s rst.1.graph →
    recordValue type (recorders s level) rst = .ok v rst' →
    Reading s level (.value type v) rst rst' := by
  induction type with
  | bool =>
    intro level rst rst' v _ _ h
    obtain ⟨b, mid, hread, h⟩ := estate_bind_ok.mp h
    obtain ⟨_, last, hnote, hdone⟩ := estate_bind_ok.mp h
    cases hnote
    cases hdone
    obtain ⟨hrun, hmarks⟩ := silent_ok hread
    obtain ⟨rest, hbyte, hmid⟩ := read_ok hrun
    refine ⟨[b], [.truth b], ?_, by rw [hmarks], ?_⟩
    · rw [hmid]
      exact getByte_ok hbyte
    · rw [hmid]
      exact .truth b
  | array element ih =>
    intro level rst rst' v hrefs hst h
    rw [recordValue] at h
    obtain ⟨begun, mid, hbegin, h⟩ := estate_bind_ok.mp h
    obtain ⟨hrun, hmarks⟩ := silent_ok hbegin
    obtain ⟨hgraph, hbytes⟩ := beginArray_ok hrun
    cases begun with
    | none =>
      cases h
      refine ⟨putInt (-1), [], hbytes, by rw [hmarks, List.append_nil], ?_⟩
      rw [hgraph]
      exact .plain .noArray
    | some count =>
      obtain ⟨items, last, hitems, hdone⟩ := estate_bind_ok.mp h
      cases hdone
      have hlevel : (recorders s level).tail = recorders s (level - 1) := by cases level <;> rfl
      rw [hlevel] at hitems
      rw [← hgraph] at hst
      obtain ⟨hroom, hinput⟩ := hbytes
      obtain ⟨rfl, bytes, marks, hread, hadded, hvalues⟩ :=
        reading_elements (fun hst h => ih (fun m hm => hrefs m (by omega)) hst h) hst hitems
      refine ⟨putCount items.length ++ bytes, marks, ?_, by rw [hadded, hmarks], ?_⟩
      · rw [hinput, hread, List.append_assoc]
      · rw [hgraph] at hvalues
        exact .array hroom hvalues
  | object typeName =>
    intro level rst rst' v hrefs hst h
    cases level with
    | zero => cases h
    | succ level =>
      obtain ⟨target, mid, href, hdone⟩ := estate_bind_ok.mp h
      cases hdone
      obtain ⟨bytes, marks, hinput, hmarks, hreads⟩ := hrefs level (Nat.lt_succ_self _) hst href
      exact ⟨bytes, marks, hinput, hmarks, .reference hreads⟩
  | _ => exact fun _ _ h => reading_plain (by decide) (fun _ => by simp) h

/-! ## Nodes -/

/-- The listed fields are read and filled in; what is filled in is what the node holds in the
end. -/
theorem reading_fields (hrefs : ∀ m < level, ReadsRefs s m) (ht : s.get? t.name = some t)
    {p : NodeId} (fs : List (FieldDef × Nat)) :
    ∀ (value : FieldDef × Nat → Value) {rst rst' : DecodeState × List Mark},
      Intact s rst.1.graph → rst.1.graph.get? p = some (.filled t value) →
      (∀ f ∈ t.fields.zipIdx, f.1.Admits rst.1.graph.size (value f)) →
      (∀ f ∈ fs, f ∈ t.persisted ∧ value f = .zero f.1.type) → fs.Nodup →
      recordFields p (recorders s level) fs rst = .ok () rst' →
      Filling s p rst.1.graph rst'.1.graph ∧
      ∃ value', rst'.1.graph.get? p = some (.filled t value') ∧
        (∀ f, f ∉ fs → value' f = value f) ∧
        Reading s level (.values (fs.map fun f => (f.1.type, value' f))) rst rst' := by
  induction fs with
  | nil =>
    intro value rst rst' hst hp _ _ _ h
    cases h
    exact ⟨.refl p hst, value, hp, fun _ _ => rfl, [], [], rfl, (List.append_nil _).symm, .nil⟩
  | cons f fs ih =>
    intro value rst rst' hst hp hvalue hfs hfresh h
    obtain ⟨hf, hzero⟩ := hfs f List.mem_cons_self
    obtain ⟨hnotin, hothers⟩ := List.nodup_cons.mp hfresh
    obtain ⟨_, mid', hfirst, hrest⟩ := estate_bind_ok.mp h
    obtain ⟨v, mid, hread, hset⟩ := estate_bind_ok.mp hfirst
    obtain ⟨hbuilt, hv⟩ := recordValue_built hst hread
    obtain ⟨hrun, hmarks⟩ := silent_ok hset
    obtain ⟨G, hrun', hsize, hfilling, hp₁, hvalue₁⟩ :=
      setField_built ht hp hvalue hf hzero hbuilt hv
    have hgraph : G = mid'.1.graph := by
      have hsame := hrun'.symm.trans hrun
      injection hsame with _ hstate
      rw [← hstate]
    rw [hgraph] at hsize hfilling hp₁ hvalue₁
    obtain ⟨node, hmid'⟩ := setField_ok hrun
    have hlater : ∀ f' ∈ fs, f' ∈ t.persisted ∧ Function.update value f v f' = .zero f'.1.type := by
      intro f' hf'
      have hne : f' ≠ f := fun he => hnotin (he ▸ hf')
      rw [Function.update_of_ne hne]
      exact hfs f' (List.mem_cons_of_mem _ hf')
    obtain ⟨hfilling', value', hp', hsame, hvalues⟩ :=
      ih _ hfilling.intact hp₁ hvalue₁ hlater hothers hrest
    refine ⟨hfilling.trans hfilling', value', hp', fun f' hf' => ?_, ?_⟩
    · have hne : f' ≠ f := fun he => hf' (he ▸ List.mem_cons_self)
      rw [hsame f' fun hm => hf' (List.mem_cons_of_mem _ hm), Function.update_of_ne hne]
    · have hvalue' : value' f = v := by rw [hsame f hnotin, Function.update_self]
      rw [List.map_cons, hvalue']
      refine (reading_value f.1.type hrefs hst hread).cons hvalues (by rw [hmid']) hmarks hsize
        fun i hi hlt => ?_
      -- Only the node itself is filled in, and it was there before the value.
      have hne : (⟨i⟩ : NodeId) ≠ p := fun he => by
        have hlt' : p.index < rst.1.graph.size := lt_of_get? hp
        rw [← he] at hlt'
        exact Nat.lt_irrefl i (Nat.lt_of_lt_of_le hlt' hi)
      rw [hfilling'.kept ⟨i⟩ (hsize ▸ hlt) hne, hmid', get?_put_of_ne hne]

private theorem reading_newNode (hrefs : ∀ m < level, ReadsRefs s m) (hst : Intact s rst.1.graph)
    {id : NodeId} (h : recordNewNode s (recorders s level) rst = .ok id rst') :
    ∃ bytes marks, rst.1.input = bytes ++ rst'.1.input ∧ rst'.2 = rst.2 ++ marks ∧
      Reads s rst'.1.graph level (.ref (some id)) rst.1.graph.size (present :: newNode :: bytes)
        rst'.1.graph.size marks := by
  rw [recordNewNode] at h
  obtain ⟨⟨t, id', fs⟩, mid, hbegin, h⟩ := estate_bind_ok.mp h
  obtain ⟨_, mid', hnote, h⟩ := estate_bind_ok.mp h
  obtain ⟨hsame, hnoted⟩ := note_ok hnote
  obtain ⟨_, last, hfields, hdone⟩ := estate_bind_ok.mp h
  cases hdone
  obtain ⟨hrun, hmarks⟩ := silent_ok hbegin
  rw [← hsame] at hrun
  obtain ⟨rfl, hgraph, ht, hdescribable, horder, name, layout, hname, hlayout, hinput⟩ :=
    beginNode_ok hrun
  have hsize : mid'.1.graph.size = rst.1.graph.size + 1 := by rw [hgraph, size_instantiate]
  have hzero :=
    (get?_instantiate_self rst.1.graph t).trans (congrArg some (Node.ofType_eq_filled t))
  rw [← hgraph] at hzero
  have hplaces : fs.Nodup := horder.nodup_iff.mpr (.of_map _ (TypeDef.nodup_places t))
  obtain ⟨-, value, hnode, -, bytes, marks, hread, hadded, hvalues⟩ :=
    reading_fields hrefs ht fs (fun f => .zero f.1.type) (hgraph ▸ intact_instantiate hst ht) hzero
      (fun f _ => f.1.admits_zero _) (fun f hf => ⟨horder.mem_iff.mp hf, rfl⟩) hplaces hfields
  rw [hsize] at hvalues
  refine ⟨_, .listing t fs :: marks, ?_, ?_,
    .first hnode ht hdescribable horder hname hlayout hvalues⟩
  · simp only [hinput, hread, List.append_assoc]
  · rw [hadded, hnoted, hmarks, List.append_assoc]
    rfl

/-- **What the recorder has taken is a reading**, at every level of nesting. -/
theorem readsRefs (s : Schema) (level : Nat) : ReadsRefs s level := by
  induction level using Nat.strongRecOn with
  | ind level hrefs =>
    intro rst rst' target hst h
    rw [recordRef] at h
    obtain ⟨begun, mid, hbegin, h⟩ := estate_bind_ok.mp h
    obtain ⟨hrun, hmarks⟩ := silent_ok hbegin
    obtain ⟨hgraph, hbytes⟩ := beginRef_ok hrun
    cases begun with
    | none =>
      obtain ⟨id, last, hnode, hdone⟩ := estate_bind_ok.mp h
      cases hdone
      rw [← hgraph] at hst
      obtain ⟨bytes, marks, hread, hadded, hreads⟩ := reading_newNode hrefs hst hnode
      refine ⟨present :: newNode :: bytes, marks, ?_, by rw [hadded, hmarks], hgraph ▸ hreads⟩
      rw [hbytes, hread]
      rfl
    | some found =>
      cases h
      cases target with
      | none =>
        refine ⟨[absent], [], hbytes, by rw [hmarks, List.append_nil], ?_⟩
        rw [hgraph]
        exact .absent
      | some id =>
        obtain ⟨hlt, hroom, hinput⟩ := hbytes
        refine ⟨present :: backReference :: putCount id.index, [], hinput, ?_, ?_⟩
        · rw [hmarks, List.append_nil]
        · rw [hgraph]
          exact .again hlt hroom

/-- What an accepted frame says, from its first byte to the trailer. -/
theorem reads_of_decode {frame : List UInt8} {decoded : Rooted} (h : decode s frame = .ok decoded) :
    ∃ body, frame = withTrailer body ∧
      Reads s decoded.graph nestingLimit (.ref decoded.root) 0 body decoded.graph.size
        (transcript s frame) := by
  obtain ⟨body, st, hframe, hrun, rfl⟩ := recordBody_of_decode h
  obtain ⟨bytes, marks, hinput, hmarks, hreads⟩ := readsRefs s nestingLimit (intact_empty s) hrun
  have hbody : body = bytes := hinput.trans (List.append_nil bytes)
  have htranscript : transcript s frame = marks := hmarks
  rw [hbody] at hframe
  exact ⟨bytes, hframe, htranscript ▸ hreads⟩

end DatagramRpc.Frame
