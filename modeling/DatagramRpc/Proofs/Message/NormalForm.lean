import DatagramRpc.Proofs.Frame.Relay
import DatagramRpc.Proofs.Message.RoundTrip

/-!
# The normal form of an envelope

Frames that differ may hold the same envelope: the fields can be listed in any order, and a payload
that is absent reads as the empty text. Whatever was accepted can be written again, and is the same
envelope then. A frame that lists its fields as they are declared, with a payload, is the one that
is written.
-/

namespace DatagramRpc.Envelope

open Wire DatagramRpc.Frame

variable {e : Envelope} {frame bytes : List UInt8} {decoded : Rooted} {payload : Option String}
  {s : Schema} {g : ObjectGraph} {level n after : Nat} {marks : List Mark}

/-- The frame lists the fields as they are declared, and its payload is present. -/
structure InNormalForm (frame : List UInt8) : Prop where
  listed : ∀ mark ∈ transcript schema frame, mark.InOrder
  present : ∃ decoded id text, decode schema frame = .ok decoded ∧ decoded.root = some id ∧
    decoded.graph.text id payloadField = .ok (some text)

/-- What an accepted frame describes: the envelope, with a payload or without one. -/
structure Carries (frame : List UInt8) (e : Envelope) (decoded : Rooted) (payload : Option String) :
    Prop where
  accepted : decode schema frame = .ok decoded
  node : ∃ id n, decoded.root = some id ∧ decoded.graph.get? id = some n ∧
    n.fields = slots e.code e.id payload
  payload : payload.getD "" = e.payload

private theorem carries_of_ofFrame (h : ofFrame frame = .ok e) :
    ∃ decoded payload, Carries frame e decoded payload := by
  obtain ⟨decoded, hdecode, hload⟩ := bind_eq_ok.mp h
  have hwell : decoded.WellFormed schema := by
    have hends := decode_ends schema frame
    rwa [hdecode] at hends
  cases hroot : decoded.root with
  | none =>
    simp only [hroot] at hload
    cases hload
  | some id =>
    simp only [hroot] at hload
    obtain ⟨n, code, number, payload, hn, hfields⟩ := slots_of_root hwell hroot
    cases (load_slots hn hfields).symm.trans hload
    exact ⟨decoded, payload, hdecode, ⟨id, n, hroot, hn, hfields⟩, rfl⟩

/-- The three values as they are declared. -/
theorem persisted_slots {code number : Int32} {value : FieldDef × Nat → Value}
    (h : (Node.filled typeDef value).fields = slots code number payload) :
    typeDef.persisted.map (fun f => (f.1.type, value f)) =
      [(.int, .int code), (.int, .int number), (.text, .text payload)] := by
  simp only [Node.filled, typeDef, slots, List.zipIdx_cons, List.zipIdx_nil,
    List.map_cons, List.map_nil, List.cons.injEq, Prod.mk.injEq, true_and, and_true] at h
  obtain ⟨hcode, hnumber, hpayload⟩ := h
  simp [TypeDef.persisted, typeDef, hcode, hnumber, hpayload]

/-- What came with a length can be written with one. -/
theorem Carries.length_le (h : Carries frame e decoded payload) :
    (Text.encodeUtf8 e.payload).length ≤ greatestLength := by
  obtain ⟨id, n, -, hn, hfields⟩ := h.node
  obtain ⟨body, -, hreads⟩ := reads_of_decode h.accepted
  obtain ⟨t, value, hstored⟩ :=
    hreads.stored (Nat.le_refl _) id.index (Nat.zero_le _) (ObjectGraph.lt_of_get? hn)
  obtain rfl : t = typeDef := List.mem_singleton.mp (Schema.mem_of_get? hstored.type)
  cases hstored.node.symm.trans hn
  have hmem : (FieldType.text, Value.text payload) ∈ typeDef.persisted.map fun f =>
      (f.1.type, value f) := by
    rw [persisted_slots hfields]
    simp
  obtain ⟨f, hf, hslot⟩ := List.mem_map.mp hmem
  obtain ⟨htype, hvalue⟩ := Prod.mk.inj hslot
  have hstorable := hstored.values f hf
  rw [htype, hvalue] at hstorable
  rw [← h.payload]
  cases hstorable with
  | plain body =>
    cases body with
    | noText => decide
    | text hput => exact (putText_eq_ok.mp hput).1

/-- The payload of a frame in normal form is what is read from its root. -/
theorem Carries.present (h : Carries frame e decoded payload) (hnormal : InNormalForm frame) :
    ∃ text, payload = some text := by
  obtain ⟨id, n, hroot, hn, hfields⟩ := h.node
  obtain ⟨decoded', id', text, hdecode, hroot', htext⟩ := hnormal.present
  cases h.accepted.symm.trans hdecode
  cases hroot.symm.trans hroot'
  have hpayload : decoded.graph.text id payloadField = .ok payload := text_slots hn hfields
  exact ⟨text, Except.ok.inj (hpayload.symm.trans htext)⟩

private theorem reads_int {i : Int32}
    (h : Reads s g level (.value .int (.int i)) n bytes after marks) : bytes = putInt i := by
  cases h with
  | plain body =>
    cases body
    rfl

private theorem reads_text {text : String}
    (h : Reads s g level (.value .text (.text (some text))) n bytes after marks) :
    ∃ body, putText text = .ok body ∧ bytes = present :: body := by
  cases h with
  | plain body =>
    cases body with
    | text hput => exact ⟨_, hput, rfl⟩

/-- **A frame in normal form is the one that is written.** -/
theorem Carries.toFrame_eq {text : String} (h : Carries frame e decoded (some text))
    (hlisted : ∀ mark ∈ transcript schema frame, mark.InOrder) : e.toFrame = .ok frame := by
  obtain ⟨id, n, hroot, hn, hfields⟩ := h.node
  obtain ⟨body, rfl, hreads⟩ := reads_of_decode h.accepted
  obtain rfl : text = e.payload := h.payload
  generalize transcript schema (withTrailer body) = marks at hreads hlisted
  generalize decoded.graph.size = size at hreads
  rw [hroot] at hreads
  cases hreads with
  | again old => exact absurd old (Nat.not_lt_zero _)
  | @first _ _ _ t value fs name body layout marks node type _ _ putName putLayout fields =>
    obtain ⟨horder, -⟩ := List.forall_mem_cons.mp hlisted
    obtain rfl : fs = t.persisted := horder
    obtain rfl : t = typeDef := List.mem_singleton.mp (Schema.mem_of_get? type)
    cases node.symm.trans hn
    rw [persisted_slots hfields] at fields
    cases fields with
    | cons code others =>
      cases others with
      | cons number others =>
        cases others with
        | cons payload others =>
          cases others
          obtain rfl := reads_int code
          obtain rfl := reads_int number
          obtain ⟨body, hput, rfl⟩ := reads_text payload
          exact Envelope.toFrame_eq putName putLayout hput

/-- **Envelopes come back**, known code or not, unless the payload is too long, and accepted frames
in normal form byte for byte. -/
theorem written_and_read (e : Envelope) (frame : List UInt8) :
    ((Text.encodeUtf8 e.payload).length ≤ greatestLength →
        ∃ frame', e.toFrame = .ok frame' ∧ ofFrame frame' = .ok e) ∧
      (ofFrame frame = .ok e →
        ∃ frame', e.toFrame = .ok frame' ∧ ofFrame frame' = .ok e ∧
          (InNormalForm frame → frame' = frame)) := by
  constructor
  · intro hlength
    obtain ⟨frame', hframe'⟩ := exists_toFrame hlength
    exact ⟨frame', hframe', ofFrame_toFrame hframe'⟩
  · intro haccepted
    obtain ⟨decoded, payload, hcarries⟩ := carries_of_ofFrame haccepted
    obtain ⟨frame', hframe'⟩ := exists_toFrame hcarries.length_le
    refine ⟨frame', hframe', ofFrame_toFrame hframe', fun hnormal => ?_⟩
    obtain ⟨text, rfl⟩ := hcarries.present hnormal
    exact Except.ok.inj (hframe'.symm.trans (hcarries.toFrame_eq hnormal.listed))

/-- An envelope with an unknown code. -/
def strangeEnvelope : Envelope := ⟨42, -7, "x"⟩

def strangeFrame : List UInt8 := strangeEnvelope.toFrame.toOption.getD []

private theorem inNormalForm_strangeFrame : InNormalForm strangeFrame where
  listed := by decide +kernel
  present := by
    have htext : (decode schema strangeFrame).toOption.bind (fun decoded =>
        decoded.root.bind fun id =>
          (decoded.graph.text id payloadField).toOption.bind fun text => text) = some "x" := by
      decide +kernel
    obtain ⟨decoded, hdecoded, htext⟩ := Option.bind_eq_some_iff.mp htext
    obtain ⟨id, hroot, htext⟩ := Option.bind_eq_some_iff.mp htext
    obtain ⟨text, hpayload, rfl⟩ := Option.bind_eq_some_iff.mp htext
    exact ⟨decoded, id, "x", ok_of_toOption hdecoded, hroot, ok_of_toOption hpayload⟩

/-- A frame in normal form, and one whose payload comes first and is absent. -/
theorem written_and_read_samples :
    (ofFrame strangeFrame = .ok strangeEnvelope ∧ InNormalForm strangeFrame ∧
        strangeEnvelope.toFrame = .ok strangeFrame) ∧
      ofFrame blankFrame = .ok ⟨1, 7, ""⟩ ∧
      ∃ frame', toFrame ⟨1, 7, ""⟩ = .ok frame' ∧ ofFrame frame' = .ok ⟨1, 7, ""⟩ := by
  have hstrange : ofFrame strangeFrame = .ok strangeEnvelope := ok_of_toOption (by decide +kernel)
  have hblank : ofFrame blankFrame = .ok ⟨1, 7, ""⟩ := ok_of_toOption (by decide +kernel)
  obtain ⟨frame', hframe', -, hsame⟩ := (written_and_read strangeEnvelope strangeFrame).2 hstrange
  rw [hsame inNormalForm_strangeFrame] at hframe'
  exact ⟨⟨hstrange, inNormalForm_strangeFrame, hframe'⟩, hblank,
    (written_and_read _ []).1 (by decide)⟩

end DatagramRpc.Envelope
