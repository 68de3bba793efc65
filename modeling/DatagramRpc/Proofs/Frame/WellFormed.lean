import DatagramRpc.Proofs.Frame.Outcome
import DatagramRpc.Proofs.Frame.RoundTrip
import DatagramRpc.Proofs.Graph.Building

/-!
# What comes out of a frame

Whatever bytes come in, the decoder gives a graph whose nodes have registered types and hold what
their types declare, or it fails because of the frame. No reference of the graph leads outside it,
the first node is the root, and every other node can be reached from there. Each step of the decoder
is shown to keep this of the graph it works on, whose nodes are filled in one by one.
-/

namespace DatagramRpc.Frame

open Wire ObjectGraph

variable {α : Type} {s : Schema} {below : List NodeReader} {st : DecodeState}

/-- From every intact graph, the decoder builds on to it or fails with a decode error. -/
def Builds (s : Schema) (d : Decoder α) (ids : α → List NodeId) (P : α → Prop) : Prop :=
  ∀ st : DecodeState, Intact s st.graph →
    Ends d st fun a st' => Built s st.graph st'.graph (ids a) ∧ P a

/-- Readers of references that build on to intact graphs. -/
def AllBuild (s : Schema) (below : List NodeReader) : Prop :=
  ∀ r ∈ below, Builds s r (·.toList) fun _ => True

/-! ## Values -/

private theorem builds_read {r : Reader α} (hr : Honest r) :
    Builds s (Decoder.read r) (fun _ => []) fun _ => True := by
  intro st hst
  refine (ends_read hr).mono fun a st' hgraph => ?_
  rw [hgraph]
  exact ⟨.refl hst (by simp), trivial⟩

/-- A value that is made from what has been read refers to nothing. -/
theorem builds_scalar {r : Reader α} (hr : Honest r) {t : FieldType} {value : α → Value}
    (htargets : ∀ a, (value a).targets = []) (hvalue : ∀ a, (value a).conformsTo t = true) :
    Builds s (Decoder.read r >>= fun a => pure (value a)) Value.targets fun v =>
      v.conformsTo t = true := by
  intro st hst
  refine (builds_read hr st hst).bind fun a st' hread => .pure ⟨?_, hvalue a⟩
  rw [htargets]
  exact hread.1

private theorem builds_text (below : List NodeReader) :
    Builds s (decodeValue .text below) Value.targets fun v => v.conformsTo .text = true := by
  intro st hst
  rw [decodeValue]
  refine (builds_read honest_getByte st hst).bind fun flag st' hread => ?_
  have hbuilt := hread.1
  split
  · refine .pure ⟨?_, rfl⟩
    simpa [Value.targets] using hbuilt
  · split
    · refine (builds_scalar (t := .text) honest_getText ?_ ?_ st' hbuilt.intact).mono
        fun v st'' hnext => ⟨hbuilt.trans hnext.1, hnext.2⟩
      · simp [Value.targets]
      · exact fun _ => rfl
    · exact .throw rfl

theorem builds_times {d : Decoder Value} {P : Value → Prop} (hd : Builds s d Value.targets P)
    (n : Nat) :
    Builds s (Decoder.times n d) (·.flatMap Value.targets) fun items => ∀ v ∈ items, P v := by
  induction n with
  | zero => exact fun st hst => .pure ⟨.refl hst (by simp), by simp⟩
  | succ n ih =>
    intro st hst
    rw [times_succ]
    refine (hd st hst).bind fun v st₁ hfirst => ?_
    refine (ih st₁ hfirst.1.intact).bind fun items st₂ hothers => .pure ⟨?_, ?_⟩
    · have htargets := hfirst.1.trans hothers.1
      rwa [← List.flatMap_cons] at htargets
    · exact List.forall_mem_cons.mpr ⟨hfirst.2, hothers.2⟩

private theorem builds_array {element : FieldType}
    (h : Builds s (decodeValue element below.tail) Value.targets fun v =>
      v.conformsTo element = true) : Builds s (decodeValue (.array element) below) Value.targets
      fun v => v.conformsTo (.array element) = true := by
  intro st hst
  rw [decodeValue]
  refine (builds_read honest_getInt st hst).bind fun n st₁ hbuilt => ?_
  have hread := hbuilt.1
  split
  · refine .pure ⟨?_, rfl⟩
    simpa [Value.targets] using hread
  · simp only
    split
    · exact .throw_bind rfl
    · refine (ends_demand _ _).bind fun _ st₂ hsame => ?_
      subst hsame
      refine (builds_times h _ st₂ hread.intact).bind fun items st₃ hitems => .pure ⟨?_, ?_⟩
      · rw [Value.targets]
        exact hread.trans hitems.1
      · exact List.all_eq_true.mpr hitems.2

/-- Every value has the type that it was read for. -/
theorem builds_decodeValue (t : FieldType) : ∀ {below : List NodeReader}, AllBuild s below →
    Builds s (decodeValue t below) Value.targets fun v => v.conformsTo t = true := by
  induction t with
  | array element ih =>
    intro below hbelow
    have htail : AllBuild s below.tail := fun r hr => hbelow r (List.mem_of_mem_tail hr)
    exact builds_array (ih htail)
  | text => exact fun _ => builds_text _
  | object typeName =>
    intro below hbelow
    cases below with
    | nil => exact fun st _ => .throw rfl
    | cons r others =>
      intro st hst
      have hr := hbelow r List.mem_cons_self st hst
      refine hr.bind fun target st' hbuilt => .pure ⟨?_, rfl⟩
      rw [Value.targets]
      exact hbuilt.1
  | bool => exact fun _ => builds_scalar honest_getByte (fun _ => by simp [Value.targets]) fun _ =>
    rfl
  | byte => exact fun _ => builds_scalar honest_getByte (fun _ => by simp [Value.targets]) fun _ =>
    rfl
  | int => exact fun _ => builds_scalar honest_getInt (fun _ => by simp [Value.targets]) fun _ =>
    rfl
  | long => exact fun _ => builds_scalar honest_getLong (fun _ => by simp [Value.targets]) fun _ =>
    rfl
  | double => exact fun _ =>
    builds_scalar honest_getDouble (fun _ => by simp [Value.targets]) fun _ => rfl

/-! ## Nodes -/

/-- The fields that a frame lists are declared and persisted, each one once. -/
theorem ends_decodeLayout (t : TypeDef) (n : Nat) : ∀ (seen : List Nat) (st : DecodeState),
    Ends (decodeLayout t n seen) st fun fs st' => st'.graph = st.graph ∧
      (∀ f ∈ fs, f ∈ t.persisted ∧ f.2 ∉ seen) ∧ (fs.map (·.2)).Nodup := by
  induction n with
  | zero => exact fun seen st => .pure ⟨rfl, by simp, List.nodup_nil⟩
  | succ n ih =>
    intro seen st
    rw [decodeLayout]
    refine (ends_read honest_getText).bind fun name st₁ hname => ?_
    refine (ends_read honest_getText).bind fun typeName st₂ htypeName => ?_
    refine (ends_lift fun _ => ofWireName_error).bind fun sent st₃ hsent => ?_
    refine (ends_lift fun _ => matchField_error).bind fun f st₄ hfield => ?_
    obtain ⟨-, rfl⟩ := hsent
    obtain ⟨hmatch, rfl⟩ := hfield
    refine (ih (f.2 :: seen) st₄).bind fun fs st₅ hothers => ?_
    obtain ⟨hgraph, hmem, hplaces⟩ := hothers
    refine .pure ⟨?_, ?_, ?_⟩
    · rw [hgraph, htypeName, hname]
    · intro f' hf'
      rcases List.mem_cons.mp hf' with rfl | hf'
      · exact matchField_mem hmatch
      · obtain ⟨hdeclared, hnew⟩ := hmem f' hf'
        exact ⟨hdeclared, fun hs => hnew (List.mem_cons_of_mem _ hs)⟩
    · refine List.nodup_cons.mpr ⟨fun hplace => ?_, hplaces⟩
      obtain ⟨f', hf', he⟩ := List.mem_map.mp hplace
      exact (hmem f' hf').2 (he ▸ List.mem_cons_self)

/-- Once its value has been read, a field that holds zero is filled in. -/
theorem setField_built {t : TypeDef} (ht : s.get? t.name = some t) {p : NodeId} {f : FieldDef × Nat}
    {value : FieldDef × Nat → Value} {v : Value} {G : ObjectGraph} {st : DecodeState}
    (hp : G.get? p = some (.filled t value))
    (hvalue : ∀ f ∈ t.fields.zipIdx, f.1.Admits G.size (value f)) (hf : f ∈ t.persisted)
    (hzero : value f = .zero f.1.type) (hbuilt : Built s G st.graph v.targets)
    (hv : v.conformsTo f.1.type = true) :
    ∃ G', Decoder.setField p f.1.name v st = .ok () ⟨st.input, G'⟩ ∧ G'.size = st.graph.size ∧
      Filling s p G G' ∧ G'.get? p = some (.filled t (Function.update value f v)) ∧
      ∀ f' ∈ t.fields.zipIdx, f'.1.Admits G'.size (Function.update value f v f') := by
  have hn : t.fieldNames.Nodup := s.distinct t (Schema.mem_of_get? ht)
  have hlt := lt_of_get? hp
  have hp₁ := (hbuilt.kept p hlt).trans hp
  have hsort : (value f).sort = v.sort := by
    rw [hzero, Value.sort_of_conformsTo hv]
  have hset := Node.set_filled hn (TypeDef.mem_persisted.mp hf).1 hsort
  have hadmits := TypeDef.admits_update hvalue hbuilt.size_le hf hv hbuilt.live
  refine ⟨_, setField_run hp₁ hset, size_put .., .field hbuilt ht hp hf hzero hadmits, ?_, ?_⟩
  · exact get?_put_self (Nat.lt_of_lt_of_le hlt hbuilt.size_le) _
  · rw [size_put]
    exact hadmits

/-- The fields of a node are read and filled in one after another. Those to come still hold zero. -/
theorem ends_fill {t : TypeDef} (ht : s.get? t.name = some t) (hbelow : AllBuild s below)
    {p : NodeId} (fs : List (FieldDef × Nat)) :
    ∀ (value : FieldDef × Nat → Value) (st : DecodeState),
      Intact s st.graph → st.graph.get? p = some (.filled t value) →
      (∀ f ∈ t.fields.zipIdx, f.1.Admits st.graph.size (value f)) →
      (∀ f ∈ fs, f ∈ t.persisted ∧ value f = .zero f.1.type) → fs.Nodup →
      Ends (fs.forM fun f => do Decoder.setField p f.1.name (← decodeValue f.1.type below)) st
        fun _ st' => Filling s p st.graph st'.graph := by
  induction fs with
  | nil => exact fun value st hst _ _ _ _ => .pure (.refl p hst)
  | cons f fs ih =>
    intro value st hst hp hvalue hfs hfresh
    obtain ⟨hf, hzero⟩ := hfs f List.mem_cons_self
    obtain ⟨hnotin, hothers⟩ := List.nodup_cons.mp hfresh
    have hfirst : Ends (do Decoder.setField p f.1.name (← decodeValue f.1.type below)) st
        fun _ st' => Filling s p st.graph st'.graph ∧ ∃ v,
          st'.graph.get? p = some (.filled t (Function.update value f v)) ∧
          ∀ f' ∈ t.fields.zipIdx, f'.1.Admits st'.graph.size (Function.update value f v f') := by
      refine (builds_decodeValue f.1.type hbelow st hst).bind fun v st₁ hvalueBuilt => ?_
      obtain ⟨hbuilt, hv⟩ := hvalueBuilt
      obtain ⟨G, hrun, -, hfilling, hp₁, hvalue₁⟩ := setField_built ht hp hvalue hf hzero hbuilt hv
      rw [Ends, hrun]
      exact ⟨hfilling, v, hp₁, hvalue₁⟩
    refine hfirst.bind fun _ st₁ hfilled => ?_
    obtain ⟨hfilled, v, hp₁, hvalue₁⟩ := hfilled
    refine (ih _ st₁ hfilled.intact hp₁ hvalue₁ (fun f' hf' => ?_) hothers).mono
      fun _ st₂ hrest => hfilled.trans hrest
    have hne : f' ≠ f := fun he => hnotin (he ▸ hf')
    rw [Function.update_of_ne hne]
    exact hfs f' (List.mem_cons_of_mem _ hf')

theorem resolve_get? {name : String} {t : TypeDef} (h : s.resolve name = .ok t) :
    s.get? t.name = some t := by
  have hget := resolve_ok h
  rw [Schema.name_of_get? hget]
  exact hget

/-- A new node takes the next place in the graph, and all that its fields bring in can be reached
from it. -/
theorem ends_decodeNewNode (hbelow : AllBuild s below) (hst : Intact s st.graph) :
    Ends (decodeNewNode s below) st fun id st' =>
      Built s st.graph st'.graph [id] ∧ id.index = st.graph.size := by
  rw [decodeNewNode]
  refine (ends_read honest_getText).bind fun name st₀ hname => ?_
  refine (ends_lift fun _ => resolve_error).bind fun t st₁ hresolved => ?_
  obtain ⟨hresolve, rfl⟩ := hresolved
  have ht := resolve_get? hresolve
  rw [← hname] at hst ⊢
  have hnew : Ends (Decoder.instantiate t) st₁ fun id st' =>
      id = ⟨st₁.graph.size⟩ ∧ st'.graph = (st₁.graph.instantiate t).1 := ⟨rfl, rfl⟩
  refine hnew.bind fun id st₂ hinstance => ?_
  obtain ⟨rfl, hgraph⟩ := hinstance
  refine (ends_read (honest_getLength _)).bind fun count st₃ hcount => ?_
  simp only
  split
  · exact .throw_bind rfl
  · refine (ends_decodeLayout t count [] st₃).bind fun fs st₄ hlisted => ?_
    obtain ⟨hlayout, hfs, hplaces⟩ := hlisted
    have hstart : st₄.graph = (st₁.graph.instantiate t).1 := by rw [hlayout, hcount, hgraph]
    have hzero :=
      (get?_instantiate_self st₁.graph t).trans (congrArg some (Node.ofType_eq_filled t))
    have hfill := ends_fill ht hbelow (p := ⟨st₁.graph.size⟩) fs (fun f => .zero f.1.type) st₄
      (hstart ▸ intact_instantiate hst ht) (hstart ▸ hzero) (fun f _ => f.1.admits_zero _)
      (fun f hf => ⟨(hfs f hf).1, rfl⟩) (.of_map _ hplaces)
    refine hfill.bind fun _ st₅ hfilled => .pure ⟨?_, rfl⟩
    rw [hstart] at hfilled
    exact .node hfilled

/-! ## References -/

private theorem ends_decodeRef (hbelow : AllBuild s below) (hst : Intact s st.graph) :
    Ends (decodeRef s below) st fun target st' =>
      Built s st.graph st'.graph target.toList ∧ ∀ id ∈ target, id.index ≤ st.graph.size := by
  rw [decodeRef]
  refine (ends_read honest_getByte).bind fun flag st₁ hflag => ?_
  rw [← hflag] at hst ⊢
  split
  · exact .pure ⟨.refl hst (by simp), by simp⟩
  · simp only
    split
    · exact .throw_bind rfl
    · refine (ends_read honest_getByte).bind fun flag st₂ hflag => ?_
      rw [← hflag] at hst ⊢
      split
      · refine (ends_read honest_getInt).bind fun handle st₃ hhandle => ?_
        rw [← hhandle] at hst ⊢
        refine (ends_ofHandle handle).bind fun id st₄ hknown => ?_
        obtain ⟨hsame, hlt⟩ := hknown
        subst hsame
        refine .pure ⟨.refl hst ?_, ?_⟩
        · simpa using hlt
        · simpa using Nat.le_of_lt hlt
      · split
        · exact .throw_bind rfl
        · refine (ends_decodeNewNode hbelow hst).bind fun id st₃ hnode => .pure ⟨hnode.1, ?_⟩
          simpa using Nat.le_of_eq hnode.2

theorem allBuild_nodeReaders (s : Schema) (level : Nat) : AllBuild s (nodeReaders s level) := by
  induction level with
  | zero => exact fun r hr => nomatch hr
  | succ level ih =>
    intro r hr
    rcases List.mem_cons.mp hr with rfl | hr
    · exact fun st hst => (ends_decodeRef ih hst).mono fun target st' hbuilt => ⟨hbuilt.1, trivial⟩
    · exact ih r hr

/-! ## Frames -/

/-- A graph that stands by itself, with its root. -/
structure Rooted.WellFormed (s : Schema) (decoded : Rooted) : Prop where
  /-- Every node has the fields of a registered type, in order, each with a value of the declared
  type. Transient fields are zero. -/
  typed : ∀ id n, decoded.graph.get? id = some n → ∃ t, s.get? n.typeName = some t ∧
    n.fields.map (·.1) = t.fieldNames ∧ ∀ (i : Nat) (f : FieldDef), t.fields[i]? = some f →
      ∃ v, n.fields[i]? = some (f.name, v) ∧ v.conformsTo f.type = true ∧
        (f.transient = true → v = .zero f.type)
  /-- Every reference, also those in arrays, points at a node of the graph. -/
  live : ∀ id n, decoded.graph.get? id = some n → ∀ field ∈ n.fields, ∀ target ∈ field.2.targets,
    target.index < decoded.graph.size
  rooted : (decoded.root = none ∧ decoded.graph.size = 0) ∨
    (decoded.root = some ⟨0⟩ ∧ 0 < decoded.graph.size)
  reachable : ∀ id, id.index < decoded.graph.size → decoded.graph.Reachable s decoded.root id

private theorem wellFormed_of_built {decoded : Rooted}
    (h : Built s .empty decoded.graph decoded.root.toList)
    (hroot : ∀ id ∈ decoded.root, id.index ≤ 0) : decoded.WellFormed s where
  typed id n hn := by
    obtain ⟨t, value, ht, rfl, hvalue⟩ := h.intact id n hn
    refine ⟨t, ht, ?_, fun i f hf => ?_⟩
    · have hfst : t.fields.zipIdx.map (fun f => f.1) = t.fields := List.zipIdx_map_fst 0 t.fields
      rw [TypeDef.fieldNames, ← hfst, Node.filled, List.map_map, List.map_map]
      rfl
    · have hadmits := hvalue (f, i) (List.mem_zipIdx_iff_getElem?.mpr hf)
      refine ⟨value (f, i), ?_, hadmits.conforms, hadmits.transient⟩
      rw [Node.getElem?_filled, hf, Option.map_some]
  live id n hn field hfield := by
    obtain ⟨t, value, ht, rfl, hvalue⟩ := h.intact id n hn
    obtain ⟨f, hf, rfl⟩ := List.mem_map.mp hfield
    exact (hvalue f hf).live
  rooted := by
    cases hr : decoded.root with
    | none =>
      refine .inl ⟨rfl, Nat.eq_zero_of_not_pos fun hpos => ?_⟩
      obtain ⟨start, hstart, -⟩ := h.reached ⟨0⟩ (Nat.le_refl 0) hpos
      rw [hr] at hstart
      cases hstart
    | some id =>
      have hzero : id.index = 0 := Nat.le_zero.mp (hroot id hr)
      have hid : id = ⟨0⟩ := by cases id; exact congrArg NodeId.mk hzero
      have hlt := h.live id (by simp [hr])
      exact .inr ⟨congrArg some hid, by omega⟩
  reachable id hlt := by
    obtain ⟨start, hstart, hreach⟩ := h.reached id (Nat.zero_le _) hlt
    rwa [Option.mem_toList.mp hstart]

private theorem checkTrailer_error {frame : List UInt8} {fault : Fault}
    (h : checkTrailer frame = .error fault) : fault.isDecodeError = true := by
  unfold checkTrailer at h
  split at h
  · cases h
    rfl
  · simp only at h
    split at h
    · cases h
    · cases h
      rfl

/-- A frame gives a well-formed graph, or it is refused with a decode error. -/
theorem decode_ends (s : Schema) (frame : List UInt8) :
    match decode s frame with
    | .ok decoded => decoded.WellFormed s
    | .error fault => fault.isDecodeError = true := by
  cases hbody : checkTrailer frame with
  | error fault =>
    have hdecode : decode s frame = .error fault := by
      rw [decode, hbody]
      rfl
    rw [hdecode]
    exact checkTrailer_error hbody
  | ok body =>
    have hdecode : decode s frame = decodeBody s body := by
      rw [decode, hbody]
      rfl
    have hstart : Intact s (DecodeState.mk body .empty).graph := intact_empty s
    have hend := ends_decodeRef (allBuild_nodeReaders s nestingLimit) hstart
    rw [hdecode, decodeBody]
    cases hrun : decodeRef s (nodeReaders s nestingLimit) ⟨body, .empty⟩ with
    | error fault st => exact hend.of_error hrun
    | ok root st =>
      obtain ⟨hbuilt, hroot⟩ := hend.of_ok hrun
      simp only
      by_cases hrest : st.input.isEmpty = true
      · rw [if_pos hrest]
        exact wellFormed_of_built hbuilt hroot
      · rw [if_neg hrest]
        rfl

/-- **Decoded graphs are well formed**, whatever the bytes are. -/
theorem decode_wellFormed {frame : List UInt8} {decoded : Rooted}
    (h : decode s frame = .ok decoded) : decoded.WellFormed s := by
  have hend := decode_ends s frame
  rw [h] at hend
  exact hend

/-- A frame with the fields in another order than declared. Its first node refers to itself, and to
a node that the frame has only begun to describe. -/
def shuffledFrame : List UInt8 :=
  let text : String → List UInt8 := fun name => (putText name).toOption.getD []
  let start :=
    [present, newNode] ++ text "Sample" ++ putCount 3 ++ text "links" ++ text "[LSample;" ++
    text "label" ++ text "java.lang.String" ++ text "next" ++ text "Sample"
  let second := start ++ putInt (-1) ++ [absent] ++ [present, backReference] ++ putCount 0
  withTrailer (start ++ putCount 3 ++ ([present, backReference] ++ putCount 0) ++
    [absent] ++ second ++ [absent] ++ ([present, backReference] ++ putCount 1))

theorem decode_wellFormed_shuffled : ∃ decoded, decode sampleSchema shuffledFrame = .ok decoded ∧
    decoded.graph.size = 2 ∧ decoded.WellFormed sampleSchema := by
  have hsize : (decode sampleSchema shuffledFrame).toOption.map (·.graph.size) = some 2 := by
    decide +kernel
  obtain ⟨decoded, hdecoded, hgraph⟩ := Option.map_eq_some_iff.mp hsize
  have hdecode := ok_of_toOption hdecoded
  exact ⟨decoded, hdecode, hgraph, decode_wellFormed hdecode⟩

end DatagramRpc.Frame
