import DatagramRpc.Proofs.Frame.Derivations
import DatagramRpc.Proofs.Frame.PrefixFree
import DatagramRpc.Proofs.Message.Refusal

/-!
# The round trip of an envelope

The frame of an envelope is read as that envelope, and so is whatever a receiver's buffer holds of
it, if it is read at all. Every envelope has a frame unless its payload is too long.
-/

namespace DatagramRpc

open Wire DatagramRpc.Frame

private theorem Frame.describable_envelopes : Describable Envelope.schema :=
  .of_single rfl (by decide) (by decide +kernel)

/-- The root of what the encoder wrote is read back as a copy. -/
theorem Frame.exists_copy_of_encode {s : Schema} (hs : Describable s) {g : ObjectGraph}
    {root : NodeId} {frame : List UInt8} (h : encode s g (some root) = .ok frame) :
    ∃ G φ, decode s frame = .ok ⟨G, some (φ root)⟩ ∧ g.CopiedTo s G φ root := by
  obtain ⟨body, order, rfl, hwrites⟩ := encode_ok h
  have hvisits : g.Visits s [] [root] order := hwrites.visits
  have hφ := numbers_numberIn (hvisits.nodup List.nodup_nil)
  obtain ⟨G, hrun, hgrown⟩ := hwrites.readsBack hs (Nat.zero_le _) hφ [] .empty rfl
  rw [List.append_nil] at hrun
  have hroot : root ∈ order :=
    hvisits.mem_iff_reachable.mpr (.root rfl)
  refine ⟨G, numberIn order, ?_, hgrown.new root hroot List.not_mem_nil⟩
  rw [decode, checkTrailer_withTrailer]
  show decodeBody s body = _
  rw [decodeBody, hrun]
  rfl

namespace Envelope

variable {e e' : Envelope} {frame : List UInt8}

private theorem store_empty (e : Envelope) : e.store .empty =
    .ok (⟨#[⟨typeDef.name, slots e.code e.id (some e.payload)⟩]⟩, ⟨0⟩) := rfl

theorem ofFrame_toFrame (h : e.toFrame = .ok frame) : ofFrame frame = .ok e := by
  obtain ⟨⟨g, root⟩, hstore, hencode⟩ := bind_eq_ok.mp h
  cases (store_empty e).symm.trans hstore
  obtain ⟨G, φ, hdecode, n, t, n', hn, ht, hn', hcopied⟩ :=
    exists_copy_of_encode describable_envelopes hencode
  cases hn
  obtain rfl : t = typeDef := List.mem_singleton.mp (Schema.mem_of_get? ht)
  have hint : ∀ i, Value.rename φ (.int i) = .int i := fun i => by simp [Value.rename]
  have htext : ∀ text, Value.rename φ (.text text) = .text text :=
    fun text => by simp [Value.rename]
  obtain ⟨v₀, hv₀, hcode⟩ := hcopied.persisted 0 _ rfl rfl
  obtain ⟨v₁, hv₁, hid⟩ := hcopied.persisted 1 _ rfl rfl
  obtain ⟨v₂, hv₂, hpayload⟩ := hcopied.persisted 2 _ rfl rfl
  cases hv₀
  cases hv₁
  cases hv₂
  rw [hint] at hcode hid
  rw [htext] at hpayload
  have hfields : n'.fields = slots e.code e.id (some e.payload) :=
    eq_slots hcopied.length hcode hid hpayload
  exact ofFrame_of_root hdecode rfl (load_slots hn' hfields)

/-- The one way in which an envelope is written: name and fields as they are declared, and then the
values. -/
theorem toFrame_eq {name body : List UInt8} {layout : List (List UInt8)}
    (hname : putText typeDef.name = .ok name)
    (hlayout : typeDef.persisted.mapM (fun f => encodeFieldMeta f.1) = .ok layout)
    (hput : putText e.payload = .ok body) :
    e.toFrame =
      .ok (withTrailer
        (present :: newNode :: (name ++ putCount typeDef.persistedCount ++ layout.flatten ++
      (putInt e.code ++ (putInt e.id ++ (present :: body ++ [])))))) := by
  have hfits : Fits typeDef ⟨typeDef.name, slots e.code e.id (some e.payload)⟩
      [(.int, .int e.code), (.int, .int e.id), (.text, .text (some e.payload))] :=
    ⟨rfl, .cons ⟨rfl, rfl, rfl⟩ (.cons ⟨rfl, rfl, rfl⟩ (.cons ⟨rfl, rfl, rfl⟩ .nil))⟩
  have hwrites : Writes schema ⟨#[⟨typeDef.name, slots e.code e.id (some e.payload)⟩]⟩ nestingLimit
      (.ref (some ⟨0⟩)) [] _ [⟨0⟩] :=
    .first List.not_mem_nil (Nat.zero_le _) rfl rfl hfits hname hlayout
      (.cons (.plain (.int _)) (.cons (.plain (.int _)) (.cons (.plain (.text hput)) .nil)))
  exact bind_eq_ok.mpr ⟨_, store_empty e, encode_of_writes hwrites⟩

/-- Only the length of its payload can keep an envelope from being written. -/
theorem exists_toFrame (h : (Text.encodeUtf8 e.payload).length ≤ greatestLength) :
    ∃ frame, e.toFrame = .ok frame := by
  have hname : (putText typeDef.name).toOption.isSome = true := by decide +kernel
  have hlayout : (typeDef.persisted.mapM fun f => encodeFieldMeta f.1).toOption.isSome = true := by
    decide +kernel
  obtain ⟨name, hname⟩ := Option.isSome_iff_exists.mp hname
  obtain ⟨layout, hlayout⟩ := Option.isSome_iff_exists.mp hlayout
  obtain ⟨body, hput⟩ := exists_putText h
  exact ⟨_, toFrame_eq (ok_of_toOption hname) (ok_of_toOption hlayout) hput⟩

private theorem decode_of_ofFrame (h : ofFrame frame = .ok e) :
    ∃ decoded, decode schema frame = .ok decoded := by
  obtain ⟨decoded, hdecode, -⟩ := bind_eq_ok.mp h
  exact ⟨decoded, hdecode⟩

/-- **A cut datagram is no other message**: what is left of a frame is the same envelope or none. -/
theorem eq_of_ofFrame_take (h : e.toFrame = .ok frame) {n : Nat}
    (h' : ofFrame (frame.take n) = .ok e') : e' = e := by
  have hwhole := ofFrame_toFrame h
  obtain ⟨decoded, hdecode⟩ := decode_of_ofFrame hwhole
  obtain ⟨decoded', hdecode'⟩ := decode_of_ofFrame h'
  have happend := List.take_append_drop n frame
  have hlost : frame.drop n = [] := by
    rw [← happend] at hdecode
    exact eq_nil_of_decode_append hdecode' hdecode
  have htake : frame.take n = frame := by
    rwa [hlost, List.append_nil] at happend
  rw [htake, hwhole] at h'
  exact (Except.ok.inj h').symm

end Envelope

end DatagramRpc
