import DatagramRpc.Proofs.Frame.WellFormed
import DatagramRpc.Server.Dispatch

/-!
# Bytes that are no envelope

Whatever bytes arrive, they are an envelope or they are refused with a fault of the frame. What a
frame describes in the schema of datagrams is an envelope as soon as there is a root, so nothing can
go wrong after decoding.
-/

namespace DatagramRpc

open DatagramRpc.Frame

private theorem Value.exists_int {v : Value} (h : v.conformsTo .int = true) : ∃ i, v = .int i := by
  cases v with
  | int i => exact ⟨i, rfl⟩
  | _ => cases h

private theorem Value.exists_text {v : Value} (h : v.conformsTo .text = true) :
    ∃ text, v = .text text := by
  cases v with
  | text text => exact ⟨text, rfl⟩
  | _ => cases h

namespace Envelope

/-- The fields of an envelope as a node. -/
def slots (code id : Int32) (payload : Option String) : List (String × Value) :=
  [(codeField, .int code), (idField, .int id), (payloadField, .text payload)]

theorem eq_slots {fields : List (String × Value)} {code id : Int32} {payload : Option String}
    (hlength : fields.length = 3) (hcode : fields[0]? = some (codeField, .int code))
    (hid : fields[1]? = some (idField, .int id))
    (hpayload : fields[2]? = some (payloadField, .text payload)) :
    fields = slots code id payload := by
  refine List.ext_getElem? fun i => ?_
  rcases i with _ | _ | _ | i
  · exact hcode
  · exact hid
  · exact hpayload
  · have hpast : fields.length ≤ i + 3 := by omega
    rw [List.getElem?_eq_none hpast]
    rfl

/-- Every node that can stand in a datagram holds an envelope. -/
theorem slots_of_wellFormed {decoded : Rooted} (h : decoded.WellFormed schema) {id : NodeId}
    {n : Node} (hn : decoded.graph.get? id = some n) :
    ∃ code number payload, n.fields = slots code number payload := by
  obtain ⟨t, ht, hnames, hfields⟩ := h.typed id n hn
  have htype : t = typeDef := List.mem_singleton.mp (Schema.mem_of_get? ht)
  subst htype
  have hlength : n.fields.length = 3 := by
    have hcount := congrArg List.length hnames
    rwa [List.length_map] at hcount
  obtain ⟨v₀, hget₀, hv₀, -⟩ := hfields 0 _ rfl
  obtain ⟨v₁, hget₁, hv₁, -⟩ := hfields 1 _ rfl
  obtain ⟨v₂, hget₂, hv₂, -⟩ := hfields 2 _ rfl
  obtain ⟨code, rfl⟩ := Value.exists_int hv₀
  obtain ⟨number, rfl⟩ := Value.exists_int hv₁
  obtain ⟨payload, rfl⟩ := Value.exists_text hv₂
  exact ⟨code, number, payload, eq_slots hlength hget₀ hget₁ hget₂⟩

private theorem field_of_get? {g : ObjectGraph} {id : NodeId} {n : Node} {name : String} {v : Value}
    (hn : g.get? id = some n) (hv : n.get? name = some v) : g.field id name = .ok v := by
  have hnode : g.node id = .ok n := by
    rw [ObjectGraph.node, hn]
  rw [ObjectGraph.field]
  refine bind_eq_ok.mpr ⟨n, hnode, ?_⟩
  rw [hv]
  rfl

theorem text_slots {g : ObjectGraph} {id : NodeId} {n : Node} {code number : Int32}
    {payload : Option String} (hn : g.get? id = some n)
    (hfields : n.fields = slots code number payload) : g.text id payloadField = .ok payload := by
  have hpayload : n.get? payloadField = some (.text payload) := by
    simp [Node.get?, hfields, slots, codeField, idField, payloadField]
  exact bind_eq_ok.mpr ⟨_, field_of_get? hn hpayload, rfl⟩

theorem load_slots {g : ObjectGraph} {id : NodeId} {n : Node} {code number : Int32}
    {payload : Option String} (hn : g.get? id = some n)
    (hfields : n.fields = slots code number payload) :
    load g id = .ok ⟨code, number, payload.getD ""⟩ := by
  have hcode : n.get? codeField = some (.int code) := by
    simp [Node.get?, hfields, slots, codeField]
  have hnumber : n.get? idField = some (.int number) := by
    simp [Node.get?, hfields, slots, codeField, idField]
  have hint : ∀ name i, n.get? name = some (.int i) → g.int id name = .ok i := fun name i hv =>
    bind_eq_ok.mpr ⟨_, field_of_get? hn hv, rfl⟩
  exact bind_eq_ok.mpr ⟨code, hint _ _ hcode, bind_eq_ok.mpr ⟨number, hint _ _ hnumber,
    bind_eq_ok.mpr ⟨payload, text_slots hn hfields, rfl⟩⟩⟩

theorem slots_of_root {decoded : Rooted} (h : decoded.WellFormed schema) {id : NodeId}
    (hroot : decoded.root = some id) :
    ∃ n code number payload, decoded.graph.get? id = some n ∧
      n.fields = slots code number payload := by
  rcases h.rooted with ⟨hnone, -⟩ | ⟨hfirst, hpos⟩
  · rw [hroot] at hnone
    cases hnone
  · have hid : id = ⟨0⟩ := Option.some.inj (hroot.symm.trans hfirst)
    subst hid
    have hn : decoded.graph.get? ⟨0⟩ = some decoded.graph.nodes[0] := Array.getElem?_eq_getElem hpos
    obtain ⟨code, number, payload, hfields⟩ := slots_of_wellFormed h hn
    exact ⟨_, code, number, payload, hn, hfields⟩

private theorem load_of_root {decoded : Rooted} (h : decoded.WellFormed schema) {id : NodeId}
    (hroot : decoded.root = some id) : ∃ e, load decoded.graph id = .ok e := by
  obtain ⟨n, code, number, payload, hn, hfields⟩ := slots_of_root h hroot
  exact ⟨_, load_slots hn hfields⟩

theorem ofFrame_of_root {frame : List UInt8} {decoded : Rooted} {id : NodeId} {e : Envelope}
    (hdecoded : decode schema frame = .ok decoded) (hroot : decoded.root = some id)
    (he : load decoded.graph id = .ok e) : ofFrame frame = .ok e := by
  refine bind_eq_ok.mpr ⟨decoded, hdecoded, ?_⟩
  simp only [hroot]
  exact he

/-- Bytes are an envelope, or they are refused with a decode error. -/
theorem ofFrame_cases (frame : List UInt8) :
    (∃ e, ofFrame frame = .ok e) ∨
      ∃ fault, ofFrame frame = .error fault ∧ fault.isDecodeError = true := by
  have hend := decode_ends schema frame
  cases hdecode : decode schema frame with
  | error fault =>
    rw [hdecode] at hend
    refine .inr ⟨fault, ?_, hend⟩
    rw [ofFrame, hdecode]
    rfl
  | ok decoded =>
    rw [hdecode] at hend
    cases hroot : decoded.root with
    | none =>
      refine .inr ⟨.schema (.absentRoot typeDef.name), ?_, rfl⟩
      rw [ofFrame, hdecode]
      simp only [bind, Except.bind, hroot]
      rfl
    | some id =>
      obtain ⟨e, he⟩ := load_of_root hend hroot
      exact .inl ⟨e, ofFrame_of_root hdecode hroot he⟩

end Envelope

private theorem Fault.kind_of_isDecodeError {fault : Fault} (h : fault.isDecodeError = true) :
    fault.kind ∈ [FaultKind.framing, .integrity, .schema] := by
  unfold isDecodeError at h
  split at h
  · next hkind => simp [hkind]
  · next hkind => simp [hkind]
  · next hkind => simp [hkind]
  all_goals cases h

/-- Only bytes that are no envelope are rejected, and nothing but a count is kept of them. -/
theorem Server.dispatch_rejected {σ : Type} {s : Server σ} {h : Handler σ} {sink : Sink}
    {t : Readings} {client : Address} {frame : List UInt8}
    (hd : (s.dispatch h sink t client frame).2.disposition = .rejected) :
    ∃ fault, Envelope.ofFrame frame = .error fault ∧
      s.dispatch h sink t client frame =
        (s.countRejected fault, ⟨rejection fault, .rejected, .none⟩) := by
  unfold dispatch at hd ⊢
  cases hframe : Envelope.ofFrame frame with
  | error fault => exact ⟨fault, rfl, rfl⟩
  | ok request =>
    simp only [hframe] at hd
    unfold answer at hd
    simp only at hd
    split at hd
    · cases hd
    · split at hd <;> cases hd

namespace Envelope

/-- **Hostile bytes are refused as such**: with a fault of framing, integrity or schema, and by a
server with a decode error. -/
theorem refused_as_decode_error (frame : List UInt8) :
    (∀ s : Schema, (∃ decoded, decode s frame = .ok decoded) ∨
      ∃ fault, decode s frame = .error fault ∧
        fault.kind ∈ [FaultKind.framing, .integrity, .schema]) ∧
    ((∃ e, ofFrame frame = .ok e) ∨
      ∃ fault, ofFrame frame = .error fault ∧ fault.isDecodeError = true) ∧
    (∀ decoded id, decode schema frame = .ok decoded → decoded.root = some id →
      ∃ e, load decoded.graph id = .ok e ∧ ofFrame frame = .ok e) ∧
    (∀ (σ : Type) (s : Server σ) (h : Handler σ) (sink : Sink) (t : Readings) (client : Address),
      (s.dispatch h sink t client frame).2.disposition = .rejected →
      ∃ fault, fault.isDecodeError = true ∧ s.dispatch h sink t client frame =
        (s.countRejected fault, ⟨Server.rejection fault, .rejected, .none⟩)) := by
  refine ⟨fun s => ?_, ofFrame_cases frame, fun decoded id hdecoded hroot => ?_, ?_⟩
  · have hend := decode_ends s frame
    cases hdecode : decode s frame with
    | ok decoded => exact .inl ⟨decoded, rfl⟩
    | error fault =>
      rw [hdecode] at hend
      exact .inr ⟨fault, rfl, Fault.kind_of_isDecodeError hend⟩
  · have hend := decode_ends schema frame
    rw [hdecoded] at hend
    obtain ⟨e, he⟩ := load_of_root hend hroot
    exact ⟨e, he, ofFrame_of_root hdecoded hroot he⟩
  · intro σ s h sink t client hd
    obtain ⟨fault, hfault, hdispatch⟩ := Server.dispatch_rejected hd
    refine ⟨fault, ?_, hdispatch⟩
    rcases ofFrame_cases frame with ⟨e, he⟩ | ⟨fault', hfault', hkind⟩
    · rw [hfault] at he
      cases he
    · rw [hfault] at hfault'
      cases hfault'
      exact hkind

/-- An envelope that lists its payload first and has none. -/
def blankFrame : List UInt8 :=
  let text : String → List UInt8 := fun name => (Wire.putText name).toOption.getD []
  Wire.withTrailer ([present, newNode] ++ text typeDef.name ++ Wire.putCount 3 ++
    text payloadField ++ text "java.lang.String" ++ text codeField ++ text "int" ++ text idField ++
    text "int" ++ [absent] ++ Wire.putInt 1 ++ Wire.putInt 7)

/-- A reference to a node that the frame does not have. -/
def danglingFrame : List UInt8 :=
  Wire.withTrailer ([present, backReference] ++ Wire.putCount 0)

theorem refused_as_decode_error_samples :
    (∃ decoded id, decode schema blankFrame = .ok decoded ∧ decoded.root = some id ∧
      ∃ e, load decoded.graph id = .ok e ∧ ofFrame blankFrame = .ok e) ∧
    ∀ (h : Handler Unit) (t : Readings) (client : Address), ∃ fault, fault.isDecodeError = true ∧
      (Server.start .atMostOnce 0 ()).dispatch h (fun _ _ => true) t client danglingFrame =
        ((Server.start .atMostOnce 0 ()).countRejected fault,
          ⟨Server.rejection fault, .rejected, .none⟩) := by
  constructor
  · have hroot : (decode schema blankFrame).toOption.bind (·.root) = some ⟨0⟩ := by decide +kernel
    obtain ⟨decoded, hdecoded, hroot⟩ := Option.bind_eq_some_iff.mp hroot
    have hdecode := ok_of_toOption hdecoded
    obtain ⟨-, -, hload, -⟩ := refused_as_decode_error blankFrame
    exact ⟨decoded, ⟨0⟩, hdecode, hroot, hload decoded ⟨0⟩ hdecode hroot⟩
  · intro h t client
    obtain ⟨-, -, -, hrejected⟩ := refused_as_decode_error danglingFrame
    exact hrejected Unit _ h _ t client rfl

end Envelope

end DatagramRpc
