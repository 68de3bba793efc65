import DatagramRpc.Frame.Decode
import DatagramRpc.Proofs.Frame.ReadsBack

/-!
# No frame begins another

What has been read stays the same when more bytes come behind it. So a frame with anything added is
no frame: its body would describe the same graph, and have bytes left over. `Steady` is that a
computation which succeeds does so with any such addition too.
-/

namespace DatagramRpc

open Wire

variable {σ α β : Type}

/-- What succeeds in a state has the same result in the larger state, and goes on to the larger of
its end. -/
def Steady (grow : σ → σ) (m : EStateM Fault σ α) : Prop :=
  ∀ s a s', m s = .ok a s' → m (grow s) = .ok a (grow s')

namespace Steady

variable {grow : σ → σ} {m : EStateM Fault σ α} {f : α → EStateM Fault σ β}

private theorem pure (a : α) : Steady grow (Pure.pure a : EStateM Fault σ α) := by
  intro s a' s' h
  cases h
  rfl

private theorem throw (fault : Fault) : Steady grow (MonadExcept.throw fault : EStateM Fault σ α) :=
  fun _ _ _ h => nomatch h

private theorem bind (hm : Steady grow m) (hf : ∀ a, Steady grow (f a)) :
    Steady grow (m >>= f) := by
  intro s b s' h
  replace h : EStateM.bind m f s = .ok b s' := h
  show EStateM.bind m f (grow s) = .ok b (grow s')
  unfold EStateM.bind at h ⊢
  split at h
  · next a mid hfirst =>
    rw [hm s a mid hfirst]
    exact hf a mid b s' h
  · cases h

end Steady

/-! ## Readers -/

namespace Wire

variable (more : List UInt8)

private theorem steady_take (n : Nat) (what : String) : Steady (· ++ more) (take n what) := by
  intro input body rest h
  unfold take at h ⊢
  simp only [List.splitAt_eq] at h ⊢
  split at h
  · cases h
  · next hlong =>
    cases h
    have hle : n ≤ input.length := by
      rw [List.length_take] at hlong
      omega
    rw [List.take_append_of_le_length hle, List.drop_append_of_le_length hle, if_neg hlong]

private theorem steady_getByte : Steady (· ++ more) getByte := by
  intro input b rest h
  cases input with
  | nil => cases h
  | cons first others =>
    cases h
    rfl

private theorem steady_getInt : Steady (· ++ more) getInt :=
  (steady_take more 4 _).bind fun _ => .pure _

private theorem steady_getLong : Steady (· ++ more) getLong :=
  (steady_take more 8 _).bind fun _ => .pure _

private theorem steady_getDouble : Steady (· ++ more) getDouble :=
  (steady_take more 8 _).bind fun _ => .pure _

private theorem steady_getLength (fault : Int32 → FramingCause) :
    Steady (· ++ more) (getLength fault) := by
  refine (steady_getInt more).bind fun n => ?_
  simp only
  split
  · exact (Steady.throw _).bind fun _ => .pure _
  · exact .pure _

private theorem steady_getText : Steady (· ++ more) getText := by
  refine (steady_getLength more _).bind fun n => (steady_take more n _).bind fun body => ?_
  split
  · exact .pure _
  · exact .throw _

end Wire

/-! ## The decoder -/

namespace Frame

/-- The same graph, with more bytes to come. -/
def DecodeState.followedBy (more : List UInt8) (st : DecodeState) : DecodeState :=
  { st with input := st.input ++ more }

variable {more : List UInt8} {s : Schema} {below : List NodeReader}

private theorem steady_read {r : Reader α} (hr : Steady (· ++ more) r) :
    Steady (DecodeState.followedBy more) (Decoder.read r) := by
  intro st a st' h
  unfold Decoder.read at h ⊢
  split at h
  · next rest hrun =>
    cases h
    have hmore := hr _ _ _ hrun
    simp only [DecodeState.followedBy, hmore]
  · cases h

private theorem steady_lift (x : Except Fault α) :
    Steady (DecodeState.followedBy more) (Decoder.lift x) := by
  intro st a st' h
  cases x with
  | ok a' =>
    cases h
    rfl
  | error fault => cases h

private theorem steady_times {d : Decoder α} (hd : Steady (DecodeState.followedBy more) d)
    (n : Nat) : Steady (DecodeState.followedBy more) (Decoder.times n d) := by
  induction n with
  | zero => exact .pure []
  | succ n ih =>
    rw [times_succ]
    exact hd.bind fun _ => ih.bind fun _ => .pure _

/-- Enough bytes are enough, whatever comes behind them. -/
theorem steady_demand (n : Nat) (short : Nat → FramingCause) :
    Steady (DecodeState.followedBy more) (Decoder.demand n short) := by
  intro st a st' h
  unfold Decoder.demand at h ⊢
  split at h
  · cases h
  · next henough =>
    cases h
    have hmore : ¬ ((st.followedBy more).input.take n).length < n := by
      rw [List.length_take] at henough ⊢
      rw [DecodeState.followedBy, List.length_append]
      omega
    rw [if_neg hmore]

private theorem steady_instantiate (t : TypeDef) :
    Steady (DecodeState.followedBy more) (Decoder.instantiate t) := by
  intro st id st' h
  cases h
  rfl

private theorem steady_setField (id : NodeId) (name : String) (v : Value) :
    Steady (DecodeState.followedBy more) (Decoder.setField id name v) := by
  intro st a st' h
  unfold Decoder.setField at h ⊢
  have hgraph : (st.followedBy more).graph = st.graph := rfl
  rw [hgraph]
  split at h
  · next n hn =>
    cases h
    rfl
  · cases h

private theorem steady_ofHandle (handle : Int32) :
    Steady (DecodeState.followedBy more) (Decoder.ofHandle handle) := by
  intro st id st' h
  unfold Decoder.ofHandle at h ⊢
  have hgraph : (st.followedBy more).graph = st.graph := rfl
  rw [hgraph]
  split at h
  · next hknown =>
    cases h
    rw [if_pos hknown]
  · cases h

private theorem steady_decodeValue (t : FieldType) : ∀ {below : List NodeReader},
    (∀ r ∈ below, Steady (DecodeState.followedBy more) r) →
    Steady (DecodeState.followedBy more) (decodeValue t below) := by
  induction t with
  | bool => exact fun _ => (steady_read (steady_getByte more)).bind fun _ => .pure _
  | byte => exact fun _ => (steady_read (steady_getByte more)).bind fun _ => .pure _
  | int => exact fun _ => (steady_read (steady_getInt more)).bind fun _ => .pure _
  | long => exact fun _ => (steady_read (steady_getLong more)).bind fun _ => .pure _
  | double => exact fun _ => (steady_read (steady_getDouble more)).bind fun _ => .pure _
  | text =>
    intro below hbelow
    rw [decodeValue]
    refine (steady_read (steady_getByte more)).bind fun flag => ?_
    split
    · exact .pure _
    · split
      · exact (steady_read (steady_getText more)).bind fun _ => .pure _
      · exact .throw _
  | array element ih =>
    intro below hbelow
    have htail : ∀ r ∈ below.tail, Steady (DecodeState.followedBy more) r :=
      fun r hr => hbelow r (List.mem_of_mem_tail hr)
    rw [decodeValue]
    refine (steady_read (steady_getInt more)).bind fun n => ?_
    split
    · exact .pure _
    · simp only
      split
      · exact (Steady.throw _).bind fun _ =>
          (steady_demand _ _).bind fun _ => (steady_times (ih htail) _).bind fun _ => .pure _
      · exact (steady_demand _ _).bind fun _ => (steady_times (ih htail) _).bind fun _ => .pure _
  | object typeName =>
    intro below hbelow
    cases below with
    | nil => exact .throw _
    | cons r others => exact (hbelow r List.mem_cons_self).bind fun _ => .pure _

private theorem steady_decodeLayout (t : TypeDef) (n : Nat) (seen : List Nat) :
    Steady (DecodeState.followedBy more) (decodeLayout t n seen) := by
  induction n generalizing seen with
  | zero => exact .pure []
  | succ n ih =>
    refine (steady_read (steady_getText more)).bind fun name => ?_
    refine (steady_read (steady_getText more)).bind fun type => ?_
    refine (steady_lift _).bind fun sent => (steady_lift _).bind fun f => ?_
    exact (ih _).bind fun _ => .pure _

private theorem steady_fill (hbelow : ∀ r ∈ below, Steady (DecodeState.followedBy more) r)
    (id : NodeId) (layout : List (FieldDef × Nat)) :
    Steady (DecodeState.followedBy more) (layout.forM fun f => do
      Decoder.setField id f.1.name (← decodeValue f.1.type below)) := by
  induction layout with
  | nil => exact .pure ()
  | cons f layout ih =>
    rw [List.forM]
    refine Steady.bind ?_ fun _ => ih
    exact (steady_decodeValue _ hbelow).bind fun v => steady_setField id f.1.name v

private theorem steady_decodeNewNode
    (hbelow : ∀ r ∈ below, Steady (DecodeState.followedBy more) r) :
    Steady (DecodeState.followedBy more) (decodeNewNode s below) := by
  refine (steady_read (steady_getText more)).bind fun name => (steady_lift _).bind fun t => ?_
  refine (steady_instantiate t).bind fun id => ?_
  refine (steady_read (steady_getLength more _)).bind fun count => ?_
  have hrest : Steady (DecodeState.followedBy more) (decodeLayout t count [] >>= fun layout =>
      layout.forM (fun f => do
        Decoder.setField id f.1.name (← decodeValue f.1.type below)) >>= fun _ => pure id) :=
    (steady_decodeLayout t count []).bind fun layout =>
      (steady_fill hbelow id layout).bind fun _ => .pure id
  simp only
  split
  · exact (Steady.throw _).bind fun _ => hrest
  · exact hrest

private theorem steady_decodeRef (hbelow : ∀ r ∈ below, Steady (DecodeState.followedBy more) r) :
    Steady (DecodeState.followedBy more) (decodeRef s below) := by
  have hnew : Steady (DecodeState.followedBy more)
      (decodeNewNode s below >>= fun id => pure (some id)) :=
    (steady_decodeNewNode hbelow).bind fun _ => .pure _
  have hreference : Steady (DecodeState.followedBy more) (Decoder.read getByte >>= fun flag =>
      if flag = backReference then
        Decoder.read getInt >>= fun n => Decoder.ofHandle n >>= fun id => pure (some id)
      else if flag ≠ newNode then
        throw (.framing (.backReferenceFlag flag)) >>= fun _ : PUnit =>
          decodeNewNode s below >>= fun id => pure (some id)
      else decodeNewNode s below >>= fun id => pure (some id)) := by
    refine (steady_read (steady_getByte more)).bind fun flag => ?_
    split
    · exact (steady_read (steady_getInt more)).bind fun n =>
        (steady_ofHandle n).bind fun _ => .pure _
    · split
      · exact (Steady.throw _).bind fun _ => hnew
      · exact hnew
  refine (steady_read (steady_getByte more)).bind fun flag => ?_
  split
  · exact .pure none
  · simp only
    split
    · exact (Steady.throw _).bind fun _ => hreference
    · exact hreference

private theorem steady_nodeReaders (s : Schema) (level : Nat) :
    ∀ r ∈ nodeReaders s level, Steady (DecodeState.followedBy more) r := by
  induction level with
  | zero => exact fun r hr => nomatch hr
  | succ level ih =>
    rw [nodeReaders]
    exact List.forall_mem_cons.mpr ⟨steady_decodeRef ih, ih⟩

/-! ## Frames -/

/-- A body with more behind it is refused for what it has too much. -/
theorem decodeBody_append {body : List UInt8} {decoded : Rooted}
    (h : decodeBody s body = .ok decoded) (hmore : more ≠ []) :
    decodeBody s (body ++ more) = .error (.framing (.trailingBytes more.length)) := by
  unfold decodeBody at h
  split at h
  · cases h
  · next root st hrun =>
    split at h
    · next hempty =>
      have hinput : st.input = [] := List.isEmpty_iff.mp hempty
      have hsteady : Steady (DecodeState.followedBy more)
          (decodeRef s (nodeReaders s nestingLimit)) :=
        steady_decodeRef (steady_nodeReaders s nestingLimit)
      have hmoreRun := hsteady _ _ _ hrun
      have hstart : DecodeState.followedBy more ⟨body, .empty⟩ = ⟨body ++ more, .empty⟩ := rfl
      have hleft : (st.followedBy more).input = more := by
        rw [DecodeState.followedBy, hinput, List.nil_append]
      rw [hstart] at hmoreRun
      rw [decodeBody, hmoreRun]
      simp only [hleft]
      rw [if_neg (by simpa using hmore)]
    · cases h

private theorem decode_ok {frame : List UInt8} {decoded : Rooted}
    (h : decode s frame = .ok decoded) :
    ∃ body last, frame = body ++ [last] ∧ decodeBody s body = .ok decoded := by
  obtain ⟨body, htrailer, hbody⟩ := bind_eq_ok.mp h
  unfold checkTrailer at htrailer
  split at htrailer
  · cases htrailer
  · next last hlast =>
    simp only at htrailer
    split at htrailer
    · cases htrailer
      exact ⟨_, last, (List.dropLast_append_getLast? last hlast).symm, hbody⟩
    · cases htrailer

/-- **Frames are prefix-free**: what begins with a frame is a frame only if that is all. -/
theorem eq_nil_of_decode_append {frame : List UInt8} {decoded decoded' : Rooted}
    (h : decode s frame = .ok decoded) (h' : decode s (frame ++ more) = .ok decoded') :
    more = [] := by
  obtain ⟨body, last, rfl, hbody⟩ := decode_ok h
  obtain ⟨body', last', heq, hbody'⟩ := decode_ok h'
  by_contra hmore
  -- The body of the longer frame is that of the shorter one, its trailer, and all that was added
  -- but one byte.
  have hbodies : body' = body ++ last :: more.dropLast := by
    have hdrop := congrArg List.dropLast heq
    rw [List.dropLast_concat, List.dropLast_append_of_ne_nil hmore] at hdrop
    rw [← hdrop, List.append_assoc, List.singleton_append]
  rw [hbodies, decodeBody_append hbody (List.cons_ne_nil _ _)] at hbody'
  cases hbody'

end Frame

end DatagramRpc
