import DatagramRpc.Proofs.Frame.Readings
import DatagramRpc.Proofs.Frame.WellFormed
import Mathlib.Algebra.BigOperators.Intervals
import Mathlib.Algebra.Order.BigOperators.Group.List

/-!
# What a frame can grow to

A short frame cannot stand for a huge graph. Every node, every element of an array, however deep,
and every byte of a text is paid for with a byte of the frame that stands for nothing else.
-/

namespace DatagramRpc

open Finset

namespace Value

/-- The elements of all arrays in a value, however deep. -/
def elements : Value → Nat
  | .array items => items.length + (items.map elements).sum
  | _ => 0

/-- The bytes of all texts in a value, however deep. -/
def textBytes : Value → Nat
  | .text (some v) => (Text.encodeUtf8 v).length
  | .array items => (items.map textBytes).sum
  | _ => 0

/-- What a value takes beyond its first byte, at least. -/
def extent (v : Value) : Nat := v.elements + v.textBytes

private theorem extent_array (items : List Value) :
    (array items).extent = (items.map fun v => 1 + v.extent).sum := by
  have hlength : (items.map fun _ => 1).sum = items.length := by
    rw [List.map_const', List.sum_replicate_nat, Nat.mul_one]
  rw [extent, elements, textBytes, ← hlength, ← List.sum_map_add, ← List.sum_map_add]
  simp only [extent, Nat.add_assoc]

private theorem extent_zero (t : FieldType) : (zero t).extent = 0 := by
  cases t <;> simp [zero, extent, elements, textBytes]

end Value

/-- Of all fields together, the transient ones included. -/
def Node.total (measure : Value → Nat) (n : Node) : Nat :=
  (n.fields.map fun field => measure field.2).sum

namespace ObjectGraph

/-- Of all nodes together. -/
def total (measure : Value → Nat) (g : ObjectGraph) : Nat :=
  (g.nodes.toList.map (Node.total measure)).sum

private theorem total_extent (g : ObjectGraph) :
    g.total Value.extent = g.total Value.elements + g.total Value.textBytes := by
  rw [total, total, total, ← List.sum_map_add]
  refine congrArg List.sum (List.map_congr_left fun n _ => ?_)
  rw [Node.total, Node.total, Node.total, ← List.sum_map_add]
  rfl

/-- The extent of all fields of the node in some place. -/
def extentAt (g : ObjectGraph) (i : Nat) : Nat :=
  ((g.get? ⟨i⟩).map (Node.total Value.extent)).getD 0

private theorem sum_range_getElem? {α : Type} (f : α → Nat) (l : List α) :
    (l.map f).sum = ∑ i ∈ range l.length, (l[i]?.map f).getD 0 := by
  induction l with
  | nil => rfl
  | cons a l ih =>
    rw [List.map_cons, List.sum_cons, ih, List.length_cons, sum_range_succ', Nat.add_comm]; rfl

private theorem total_eq_sum (g : ObjectGraph) :
    g.total Value.extent = ∑ i ∈ Ico 0 g.size, g.extentAt i := by
  rw [total, sum_range_getElem?, Nat.Ico_zero_eq_range, Array.length_toList]
  refine sum_congr rfl fun i _ => ?_
  rw [extentAt, get?, Array.getElem?_toList]

end ObjectGraph

namespace Frame

open Wire ObjectGraph

variable {s : Schema} {g : ObjectGraph} {level n after : Nat} {bytes : List UInt8}
  {marks : List Mark} {t : TypeDef}

/-- The bytes that a task takes, at least, apart from the nodes that begin there. -/
def Task.extent : Task → Nat
  | .ref _ => 1
  | .value _ v => 1 + v.extent
  | .values slots => (slots.map fun slot => 1 + slot.2.extent).sum

private theorem Plain.extent_lt {type : FieldType} {v : Value} (h : Plain type v bytes) :
    v.extent < bytes.length := by
  cases h with
  | text body =>
    obtain ⟨-, rfl⟩ := putText_eq_ok.mp body
    simp only [Value.extent, Value.elements, Value.textBytes, List.length_cons, List.length_append]
    omega
  | _ =>
    simp [Value.extent, Value.elements, Value.textBytes, putInt, putLong, putDouble,
      length_bigEndian]

/-- Where transient fields are zero, nothing but the persisted fields of a node adds to its
extent. -/
theorem total_filled {value : FieldDef × Nat → Value}
    (hzero : ∀ f ∈ t.fields.zipIdx, f.1.transient = true → value f = .zero f.1.type) :
    (Node.filled t value).total Value.extent = (t.persisted.map fun f => (value f).extent).sum := by
  rw [Node.total, Node.filled, List.map_map, TypeDef.persisted]
  generalize t.fields.zipIdx = fields at hzero
  induction fields with
  | nil => rfl
  | cons f fields ih =>
    obtain ⟨hfirst, hothers⟩ := List.forall_mem_cons.mp hzero
    rw [List.map_cons, List.sum_cons, ih hothers, List.filter_cons]
    cases htransient : f.1.transient with
    | false => rfl
    | true =>
      have hnone : (value f).extent = 0 := by rw [hfirst htransient, Value.extent_zero]
      show (value f).extent + _ = _
      rw [hnone, Nat.zero_add]
      rfl

/-- **Each byte is paid once**: what has been read of a task, with all nodes that began there, takes
no more than the bytes it was read from. -/
theorem Reads.extent_le {task : Task} (h : Reads s g level task n bytes after marks)
    (hzero : ∀ id t value, g.get? id = some (.filled t value) → s.get? t.name = some t →
      ∀ f ∈ t.fields.zipIdx, f.1.transient = true → value f = .zero f.1.type) :
    task.extent + ∑ i ∈ Ico n after, (1 + g.extentAt i) ≤ bytes.length := by
  induction h with
  | absent => simp [Task.extent]
  | again => simp [Task.extent]
  | @first level n after t value fs name body layout marks node type _ order _ _ fields ih =>
    have hnode : g.extentAt n = (t.persisted.map fun f => (value f).extent).sum := by
      rw [extentAt, node, Option.map_some, Option.getD_some,
        total_filled (hzero _ t value node type)]
    have hfields : (t.persisted.map fun f => (value f).extent).sum ≤
        (Task.values (fs.map fun f => (f.1.type, value f))).extent := by
      rw [Task.extent, List.map_map, ← (order.map _).sum_eq]
      exact List.sum_le_sum fun f _ => Nat.le_add_left ..
    -- Of the two flags, one is for the reference and one for the node. The values are paid for by
    -- the rest.
    rw [sum_eq_sum_Ico_succ_bot fields.le, hnode, Task.extent]
    simp only [List.length_cons, List.length_append]
    omega
  | nil => simp [Task.extent]
  | @cons level type v rest n mid after bytes bytes' marks marks' first others ihFirst ih =>
    rw [Task.extent] at ihFirst
    rw [Task.extent] at ih
    rw [Task.extent, List.map_cons, List.sum_cons, ← sum_Ico_consecutive _ first.le others.le,
      List.length_append]
    simp only
    omega
  | plain body =>
    have hlt := body.extent_lt
    rw [Task.extent, Ico_self, sum_empty]
    omega
  | truth => simp [Task.extent, Value.extent, Value.elements, Value.textBytes]
  | @array level n after element items bytes marks room body ih =>
    rw [Task.extent, List.map_map] at ih
    rw [Task.extent, Value.extent_array, List.length_append, putCount, length_bigEndian]
    simp only [Function.comp_def] at ih
    omega
  | reference _ ih =>
    rw [Task.extent] at ih
    simpa only [Task.extent, Value.extent, Value.elements, Value.textBytes] using ih

/-- **No frame grows**: the nodes, the array elements and the bytes of texts are together fewer than
the bytes of the frame. -/
theorem decoded_fits {frame : List UInt8} {decoded : Rooted} (h : decode s frame = .ok decoded) :
    decoded.graph.size + decoded.graph.total Value.elements +
      decoded.graph.total Value.textBytes < frame.length := by
  have hwell : decoded.WellFormed s := by
    have hends := decode_ends s frame
    rwa [h] at hends
  obtain ⟨body, rfl, hreads⟩ := reads_of_decode h
  have hbytes := hreads.extent_le fun id t value hnode ht f hf htransient => by
    obtain ⟨t', ht', -, hfields⟩ := hwell.typed id _ hnode
    have hsame : t' = t := Option.some.inj (ht'.symm.trans ht)
    subst hsame
    have hplace := List.mem_zipIdx_iff_getElem?.mp hf
    obtain ⟨v, hv, -, hzero⟩ := hfields f.2 f.1 hplace
    rw [Node.getElem?_filled, hplace] at hv
    cases hv
    exact hzero htransient
  have hnodes : ∑ i ∈ Ico 0 decoded.graph.size, (1 + decoded.graph.extentAt i) =
      decoded.graph.size + decoded.graph.total Value.extent := by
    rw [sum_add_distrib, ← total_eq_sum, ← card_eq_sum_ones, Nat.card_Ico, Nat.sub_zero]
  rw [hnodes, total_extent, Task.extent] at hbytes
  rw [withTrailer, List.length_append, List.length_singleton]
  omega

theorem decoded_fits_shuffled :
    ∃ decoded, decode sampleSchema shuffledFrame = .ok decoded ∧ decoded.graph.size = 2 ∧
    decoded.graph.size + decoded.graph.total Value.elements + decoded.graph.total Value.textBytes <
      shuffledFrame.length := by
  have hsize : (decode sampleSchema shuffledFrame).toOption.map (·.graph.size) = some 2 := by
    decide +kernel
  obtain ⟨decoded, hdecoded, hgraph⟩ := Option.map_eq_some_iff.mp hsize
  have hdecode := ok_of_toOption hdecoded
  exact ⟨decoded, hdecode, hgraph, decoded_fits hdecode⟩

end Frame

end DatagramRpc
