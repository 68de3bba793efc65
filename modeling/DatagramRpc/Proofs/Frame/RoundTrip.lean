import DatagramRpc.Proofs.Frame.ReadsBack
import Mathlib.Data.Set.Function

/-!
# The round trip of a graph

Whatever graph the encoder accepts, cyclic or not, the decoder gives back what can be reached from
the root through persisted fields, and nothing else.
-/

namespace DatagramRpc.Frame

open Wire ObjectGraph

variable {s : Schema} {g : ObjectGraph} {root : Option NodeId}

/-- What a frame gives back of a graph: the reachable nodes under new names. -/
structure Restores (s : Schema) (g : ObjectGraph) (root : Option NodeId) (decoded : Rooted)
    (φ : NodeId → NodeId) : Prop where
  rooted : decoded.root = root.map φ
  /-- Every node of the new graph stands for one reachable node. -/
  bijective : Set.BijOn φ {id | g.Reachable s root id} {id | id.index < decoded.graph.size}
  /-- The nodes are numbered in the order in which a walk comes upon them. -/
  order : ∃ order, g.Visits s [] root.toList order ∧ ∀ k id, order[k]? = some id → φ id = ⟨k⟩
  /-- Types and persisted fields are the same up to the names of nodes, transient fields are
  zero. -/
  nodes : ∀ id, g.Reachable s root id → g.CopiedTo s decoded.graph φ id

/-- The names that nodes get by their first places in a list. -/
def numberIn (order : List NodeId) (id : NodeId) : NodeId := ⟨order.idxOf id⟩

theorem numbers_numberIn {order : List NodeId} (h : order.Nodup) :
    Numbers (numberIn order) order := by
  intro k id hk
  obtain ⟨hlt, rfl⟩ := List.getElem?_eq_some_iff.mp hk
  rw [numberIn, h.idxOf_getElem]

private theorem bijOn_numberIn {order : List NodeId} (h : order.Nodup) :
    Set.BijOn (numberIn order) {id | id ∈ order} {id | id.index < order.length} := by
  refine ⟨fun id hid => List.idxOf_lt_length_of_mem hid, fun a ha b hb he => ?_, fun id hid => ?_⟩
  · have hidx : order.idxOf a = order.idxOf b := congrArg NodeId.index he
    exact (List.idxOf_inj ha).mp hidx
  · exact ⟨order[id.index], List.getElem_mem hid,
      numbers_numberIn h _ _ (List.getElem?_eq_getElem hid)⟩

theorem encode_ok {frame : List UInt8} (h : encode s g root = .ok frame) :
    ∃ body order, frame = withTrailer body ∧
      Writes s g nestingLimit (.ref root) [] body order := by
  obtain ⟨body, hbody, hdone⟩ := bind_eq_ok.mp h
  cases hdone
  obtain ⟨⟨bytes, order⟩, hrun, hfst⟩ := bind_eq_ok.mp hbody
  cases hfst
  exact ⟨bytes, order, rfl, writes_of_encodeRef nestingLimit root [] bytes order hrun⟩

theorem decode_encode_nodes (hd : DescribableNodes s g) {frame : List UInt8}
    (h : encode s g root = .ok frame) :
    ∃ decoded φ, decode s frame = .ok decoded ∧ Restores s g root decoded φ := by
  obtain ⟨body, order, rfl, hwrites⟩ := encode_ok h
  have hvisits : g.Visits s [] root.toList order := hwrites.visits
  have hnodup := hvisits.nodup List.nodup_nil
  have hφ := numbers_numberIn hnodup
  obtain ⟨G, hrun, hgrown⟩ := hwrites.copied hd (Nat.zero_le _) hφ [] .empty rfl
  rw [List.append_nil] at hrun
  refine ⟨⟨G, root.map (numberIn order)⟩, numberIn order, ?_, rfl, ?_, ⟨order, hvisits, hφ⟩,
    fun id hid => ?_⟩
  · rw [decode, checkTrailer_withTrailer]
    show decodeBody s body = _
    rw [decodeBody, hrun]
    rfl
  · have hbij := bijOn_numberIn hnodup
    rw [← hgrown.size] at hbij
    simpa only [hvisits.mem_iff_reachable] using hbij
  · exact hgrown.new id (hvisits.mem_iff_reachable.mpr hid) List.not_mem_nil

/-- **The round trip**: what the encoder accepts, the decoder accepts and restores. -/
theorem decode_encode (hs : Describable s) {frame : List UInt8} (h : encode s g root = .ok frame) :
    ∃ decoded φ, decode s frame = .ok decoded ∧ Restores s g root decoded φ :=
  decode_encode_nodes (fun _ _ _ _ ht => hs.type ht) h

/-- A type with a reference, an array of references and a transient field. -/
def sampleType : TypeDef where
  name := "Sample"
  fields := [⟨"label", .text, false⟩, ⟨"next", .object "Sample", false⟩,
    ⟨"links", .array (.object "Sample"), false⟩, ⟨"cache", .object "Sample", true⟩]

def sampleSchema : Schema where
  types := [sampleType]
  distinct := by decide +kernel

/-- Two nodes on a cycle that share each other, and one that only a transient field refers to. -/
def sampleGraph : ObjectGraph where
  nodes := #[
    ⟨"Sample", [("label", .text (some "root")), ("next", .ref (some ⟨2⟩)),
      ("links", .array [.ref (some ⟨2⟩), .ref none, .ref (some ⟨0⟩)]), ("cache", .ref (some ⟨1⟩))]⟩,
    ⟨"Sample", [("label", .text none), ("next", .ref none), ("links", .absentArray),
      ("cache", .ref none)]⟩,
    ⟨"Sample", [("label", .text none), ("next", .ref (some ⟨0⟩)), ("links", .absentArray),
      ("cache", .ref none)]⟩]

def sampleFrame : List UInt8 := (encode sampleSchema sampleGraph (some ⟨0⟩)).toOption.getD []

theorem describable_sampleSchema : Describable sampleSchema :=
  .of_single rfl (by decide) (by decide +kernel)

theorem decode_encode_sample :
    encode sampleSchema sampleGraph (some ⟨0⟩) = .ok sampleFrame ∧
      ∃ decoded φ, decode sampleSchema sampleFrame = .ok decoded ∧
        Restores sampleSchema sampleGraph (some ⟨0⟩) decoded φ := by
  have hencode : encode sampleSchema sampleGraph (some ⟨0⟩) = .ok sampleFrame :=
    ok_of_toOption (by decide +kernel)
  exact ⟨hencode, decode_encode describable_sampleSchema hencode⟩

end DatagramRpc.Frame
