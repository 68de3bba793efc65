import DatagramRpc.Proofs.Frame.Foreign

/-!
# Frames that their own writer cannot read

The encoder writes the type of a field by its name and does not look whether the name can be read
back. A schema may declare a reference to a type with the name of a primitive, say, and the null in
such a field is written like any other. The decoder takes the name for the primitive and refuses the
frame. This happens exactly if a type among those of the reachable nodes has such a field, and it is
always reported as a fault of the schema.
-/

namespace DatagramRpc.Frame

open Wire ObjectGraph

variable {s : Schema} {g : ObjectGraph} {root : Option NodeId}

private theorem agreesOn_self {typeName : String} {t : TypeDef} (ht : s.get? typeName = some t) :
    s.AgreesOn s typeName := ⟨t, t, ht, ht, fun _ => Iff.rfl⟩

/-- **What the encoder emits decodes** exactly if the types of the persisted fields of all reachable
nodes are read from their names. -/
theorem decode_own_frame (hfew : ∀ name t, s.get? name = some t → t.fields.length < Nat.pow 2 31)
    {frame : List UInt8} (h : encode s g root = .ok frame) :
    ((∃ decoded, decode s frame = .ok decoded) ↔
        ∀ id n t, g.Reachable s root id → g.get? id = some n → s.get? n.typeName = some t →
          ReadableType t) ∧
      ((∃ decoded, decode s frame = .ok decoded) ∨
        ∃ cause, decode s frame = .error (.schema cause)) := by
  have hcounted : FewFields s := fun name t ht => persistedCount_le (hfew name t ht)
  have hP : ∀ id n t, g.get? id = some n → s.get? n.typeName = some t →
      ((∀ m u, g.get? id = some m → s.get? m.typeName = some u → ReadableType u) ↔
        ReadableType t ∧ s.AgreesOn s n.typeName) := by
    intro id n t hn ht
    refine ⟨fun h => ⟨h n t hn ht, agreesOn_self ht⟩, fun h m u hm hu => ?_⟩
    cases hn.symm.trans hm
    cases ht.symm.trans hu
    exact h.1
  rcases decode_settled_nodes hcounted (fun _ _ _ => .inr rfl) hP h with
    ⟨hok, hall⟩ | ⟨⟨cause, herror⟩, id, hreach, hunreadable⟩
  · exact ⟨⟨fun _ id n t hid => hall id hid n t, fun _ => hok⟩, .inl hok⟩
  · refine ⟨⟨fun ⟨decoded, hok⟩ => ?_, fun hall => ?_⟩, .inr ⟨cause, herror⟩⟩
    · rw [herror] at hok
      cases hok
    · exact absurd (fun n t => hall id n t hreach) hunreadable

theorem decode_own_frame_sample : encode sampleSchema sampleGraph (some ⟨0⟩) = .ok sampleFrame ∧
    ∃ decoded, decode sampleSchema sampleFrame = .ok decoded := by
  have hencode : encode sampleSchema sampleGraph (some ⟨0⟩) = .ok sampleFrame :=
    ok_of_toOption (by decide +kernel)
  have hs := describable_sampleSchema
  refine ⟨hencode, (decode_own_frame hs.fewFields hencode).1.mpr fun _ _ _ _ _ ht => ?_⟩
  exact (hs.type ht).readable

/-- A type with a reference to a type that has the name of a primitive. -/
def meterType : TypeDef where
  name := "Meter"
  fields := [⟨"reading", .object "int", false⟩]

def meterSchema : Schema where
  types := [meterType]
  distinct := by decide +kernel

theorem own_frame_refused : ∃ frame cause,
    encode meterSchema (ObjectGraph.empty.instantiate meterType).1 (some ⟨0⟩) = .ok frame ∧
      decode meterSchema frame = .error (.schema cause) := by
  let frame :=
    (encode meterSchema (ObjectGraph.empty.instantiate meterType).1 (some ⟨0⟩)).toOption.getD []
  have hencode : encode meterSchema (ObjectGraph.empty.instantiate meterType).1
      (some ⟨0⟩) = .ok frame :=
    ok_of_toOption (by decide +kernel)
  have hrefused : (match decode meterSchema frame with
      | .error (.schema _) => true
      | _ => false) = true := by decide +kernel
  split at hrefused
  · next cause hdecode => exact ⟨frame, cause, hencode, hdecode⟩
  · cases hrefused

end DatagramRpc.Frame
