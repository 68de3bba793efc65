import DatagramRpc.Proofs.Frame.Derivations
import DatagramRpc.Proofs.Frame.Readings

/-!
# Frames that are written again

A graph that has come out of a frame can be written as a frame once more. If the first frame lists
the fields of every node in the order in which they are declared, the encoder meets the nodes in the
order in which the decoder has numbered them, and at the same depths. So it gives back the frame,
but for the bytes that stand for true. If there are none but 0 and 1, it gives back the frame byte
for byte.

Only the handles can run out, and since a node takes ten bytes this needs a frame of more than
twenty gibibytes.
-/

namespace DatagramRpc.Frame

open Wire ObjectGraph

variable {s : Schema} {g : ObjectGraph} {level n after : Nat} {bytes : List UInt8}
  {marks : List Mark} {t : TypeDef}

/-- The nodes that the encoder has seen when the decoder has as many. -/
def firstNodes (n : Nat) : List NodeId := (List.range n).map NodeId.mk

private theorem firstNodes_succ (n : Nat) : firstNodes (n + 1) = firstNodes n ++ [⟨n⟩] := by
  rw [firstNodes, List.range_succ, List.map_append]
  rfl

theorem length_firstNodes (n : Nat) : (firstNodes n).length = n := by
  rw [firstNodes, List.length_map, List.length_range]

private theorem not_mem_firstNodes (n : Nat) : (⟨n⟩ : NodeId) ∉ firstNodes n := by
  intro h
  obtain ⟨i, hi, he⟩ := List.mem_map.mp h
  cases he
  exact Nat.lt_irrefl n (List.mem_range.mp hi)

private theorem idxOf?_firstNodes {handle : Nat} (h : handle < n) :
    (firstNodes n).idxOf? ⟨handle⟩ = some handle := by
  apply List.idxOf?_eq_some_iff.mpr
  refine ⟨by rw [length_firstNodes]; exact h, by simp [firstNodes], fun j hj => ?_⟩
  simp only [firstNodes, List.getElem_map, List.getElem_range, NodeId.mk.injEq]
  omega

/-! ## Values that were read -/

/-- The values of a task have the types that they stand for. -/
def Task.Conforms : Task → Prop
  | .ref _ => True
  | .value type v => v.conformsTo type = true
  | .values slots => ∀ slot ∈ slots, slot.2.conformsTo slot.1 = true

theorem Plain.conforms {type : FieldType} {v : Value} (h : Plain type v bytes) :
    v.conformsTo type = true := by
  cases h <;> rfl

private theorem Reads.conforms {task : Task} (h : Reads s g level task n bytes after marks) :
    task.Conforms := by
  induction h with
  | nil => exact fun slot hslot => nomatch hslot
  | cons _ _ ihFirst ih => exact List.forall_mem_cons.mpr ⟨ihFirst, ih⟩
  | plain body => exact body.conforms
  | truth => exact rfl
  | array _ _ ih => exact List.all_eq_true.mpr fun v hv => ih _ (List.mem_map_of_mem hv)
  | reference => exact rfl
  | _ => trivial

/-- A node holds in its persisted fields what was filled in. -/
theorem fits_filled (value : FieldDef × Nat → Value)
    (h : ∀ f ∈ t.persisted, (value f).conformsTo f.1.type = true) :
    Fits t (.filled t value) (t.persisted.map fun f => (f.1.type, value f)) where
  length := by simp [Node.filled]
  slots := by
    refine List.forall₂_map_right_iff.mpr (List.forall₂_same.mpr fun f hf => ⟨rfl, ?_, h f hf⟩)
    rw [Node.getElem?_filled, (TypeDef.mem_persisted.mp hf).1, Option.map_some]

/-! ## In the order of declaration -/

/-- **The encoder writes what the decoder has read**, when the fields are listed in order. -/
theorem Reads.writes {task : Task} (h : Reads s g level task n bytes after marks)
    (horder : ∀ mark ∈ marks, mark.InOrder) (hroom : after ≤ greatestLength + 1) :
    ∃ bytes', Writes s g level task (firstNodes n) bytes' (firstNodes after) ∧
      ((∀ mark ∈ marks, mark.Canonical) → bytes' = bytes) := by
  -- The two keep in step: the encoder has seen as many nodes as the decoder has, and in the same
  -- order.
  induction h with
  | absent => exact ⟨_, .absent, fun _ => rfl⟩
  | again old => exact ⟨_, .again (idxOf?_firstNodes old), fun _ => rfl⟩
  | @first level n after t value fs name body layout marks node type _ _ putName
      putLayout fields ih =>
    obtain ⟨hfs, hlater⟩ := List.forall_mem_cons.mp horder
    obtain rfl : fs = t.persisted := hfs
    obtain ⟨body', hwrites, hsame⟩ := ih hlater hroom
    have hle := fields.le
    have hfits := fits_filled value fun f hf => fields.conforms _ (List.mem_map_of_mem hf)
    rw [firstNodes_succ] at hwrites
    refine ⟨_, .first (not_mem_firstNodes n) ?_ node type hfits putName putLayout hwrites,
      fun hcanonical => ?_⟩
    · rw [length_firstNodes]
      omega
    · rw [hsame (List.forall_mem_cons.mp hcanonical).2]
  | nil => exact ⟨_, .nil, fun _ => rfl⟩
  | cons first others ihFirst ih =>
    obtain ⟨hmarks, hmarks'⟩ := List.forall_mem_append.mp horder
    obtain ⟨bytes, hfirst, hsame⟩ := ihFirst hmarks (Nat.le_trans others.le hroom)
    obtain ⟨bytes', hothers, hsame'⟩ := ih hmarks' hroom
    refine ⟨bytes ++ bytes', .cons hfirst hothers, fun hcanonical => ?_⟩
    obtain ⟨hcanonical, hcanonical'⟩ := List.forall_mem_append.mp hcanonical
    rw [hsame hcanonical, hsame' hcanonical']
  | plain body => exact ⟨_, .plain body, fun _ => rfl⟩
  | truth byte =>
    refine ⟨_, .plain (.bool _), fun hcanonical => ?_⟩
    rcases hcanonical _ (List.mem_singleton_self _) with rfl | rfl
    · rfl
    · rfl
  | array room _ ih =>
    obtain ⟨bytes', hwrites, hsame⟩ := ih horder hroom
    exact ⟨_, .array room hwrites, fun hcanonical => by rw [hsame hcanonical]⟩
  | reference _ ih =>
    obtain ⟨bytes', hwrites, hsame⟩ := ih horder hroom
    exact ⟨bytes', .reference hwrites, hsame⟩

/-- The encoder fails in a task. -/
def Fails (s : Schema) (g : ObjectGraph) (level : Nat) (seen : List NodeId) (fault : Fault) :
    Task → Prop
  | .ref target => encodeRef s g (nodeWriters s g level) target seen = .error fault
  | .value type v => encodeValue type (nodeWriters s g level) v seen = .error fault
  | .values slots =>
    slots.mapM (fun slot => encodeValue slot.1 (nodeWriters s g level) slot.2) seen = .error fault

/-- The handles may run out, and this is all that can go wrong. -/
theorem Reads.overruns {task : Task} (h : Reads s g level task n bytes after marks)
    (horder : ∀ mark ∈ marks, mark.InOrder) (hroom : n ≤ greatestLength + 1)
    (hmany : greatestLength + 1 < after) :
    Fails s g level (firstNodes n) (.framing .tooManyNodes) task := by
  induction h with
  | @first level n after t value fs name body layout marks node type _ _ putName
      putLayout fields ih =>
    obtain ⟨hfs, hlater⟩ := List.forall_mem_cons.mp horder
    obtain rfl : fs = t.persisted := hfs
    by_cases hfull : greatestLength < n
    · exact encodeRef_full (not_mem_firstNodes n) (by rw [length_firstNodes]; exact hfull)
    · have hfits := fits_filled value fun f hf => fields.conforms _ (List.mem_map_of_mem hf)
      have hvalues := ih hlater (by omega) hmany
      rw [firstNodes_succ] at hvalues
      rw [Fails, encodeRef_first (not_mem_firstNodes n) (by rw [length_firstNodes]; omega) node]
      apply state_bind_error
      rw [encodeNewNode_run type hfits putName putLayout]
      exact state_bind_error hvalues
  | @cons level type v rest n mid after bytes bytes' marks marks' first others ihFirst ih =>
    obtain ⟨hmarks, hmarks'⟩ := List.forall_mem_append.mp horder
    rw [Fails, List.mapM_cons]
    by_cases hmid : greatestLength + 1 < mid
    · exact state_bind_error (ihFirst hmarks hroom hmid)
    · obtain ⟨bytes, hwrites, -⟩ := first.writes hmarks (by omega)
      have hencodes : encodeValue type (nodeWriters s g level) v (firstNodes n) = .ok _ :=
        hwrites.encodes
      rw [state_bind_run hencodes]
      exact state_bind_error (ih hmarks' (by omega) hmany)
  | @array level n after element items bytes marks room _ ih =>
    have hitems := ih horder hroom hmany
    rw [Fails, List.mapM_map] at hitems
    rw [Fails, encodeValue_array room]
    exact state_bind_error hitems
  | reference _ ih => exact ih horder hroom hmany
  | _ => omega

/-- Two flags, the length of a type name and a number of fields: no node takes less. -/
theorem Reads.ten_bytes {task : Task} (h : Reads s g level task n bytes after marks) :
    10 * after ≤ 10 * n + bytes.length := by
  induction h with
  | @first level n after t value fs name body layout marks _ _ _ _ putName _ _ ih =>
    obtain ⟨-, rfl⟩ := putText_eq_ok.mp putName
    simp only [List.length_cons, List.length_append, putCount, length_bigEndian]
    omega
  | cons _ _ ihFirst ih =>
    rw [List.length_append]
    omega
  | array _ _ ih =>
    rw [List.length_append]
    omega
  | reference _ ih => exact ih
  | _ => omega

/-- The nodes that come out of a frame of this length take at least ten bytes each. -/
theorem ten_bytes_of_decode {frame : List UInt8} {decoded : Rooted}
    (h : decode s frame = .ok decoded) : 10 * decoded.graph.size < frame.length := by
  obtain ⟨body, rfl, hreads⟩ := reads_of_decode h
  have hbytes := hreads.ten_bytes
  rw [withTrailer, List.length_append, List.length_singleton]
  omega

/-- While the handles suffice, the encoder gives back the frame. -/
theorem encode_of_room {frame : List UInt8} {decoded : Rooted} (h : decode s frame = .ok decoded)
    (hcanonical : ∀ mark ∈ transcript s frame, mark.Canonical)
    (hroom : decoded.graph.size ≤ greatestLength + 1) :
    encode s decoded.graph decoded.root = .ok frame := by
  obtain ⟨body, rfl, hreads⟩ := reads_of_decode h
  obtain ⟨body', hwrites, hsame⟩ :=
    hreads.writes (fun mark hmark => (hcanonical mark hmark).inOrder) hroom
  rw [hsame hcanonical] at hwrites
  exact encode_of_writes hwrites

/-- Otherwise it fails. -/
theorem encode_of_no_room {frame : List UInt8} {decoded : Rooted} (h : decode s frame = .ok decoded)
    (hcanonical : ∀ mark ∈ transcript s frame, mark.Canonical)
    (hroom : greatestLength + 1 < decoded.graph.size) :
    encode s decoded.graph decoded.root = .error (.framing .tooManyNodes) := by
  obtain ⟨body, rfl, hreads⟩ := reads_of_decode h
  have hfails : encodeRef s decoded.graph
      (nodeWriters s decoded.graph nestingLimit) decoded.root [] =
      .error (.framing .tooManyNodes) :=
    hreads.overruns (fun mark hmark => (hcanonical mark hmark).inOrder) (Nat.zero_le _) hroom
  rw [encode_eq, hfails]
  rfl

/-- **Writing undoes reading**, byte for byte, unless the handles run out. -/
theorem encode_decode {frame : List UInt8} {decoded : Rooted} (h : decode s frame = .ok decoded)
    (hcanonical : ∀ mark ∈ transcript s frame, mark.Canonical) :
    encode s decoded.graph decoded.root =
        (if decoded.graph.size ≤ greatestLength + 1 then .ok frame
          else .error (.framing .tooManyNodes)) ∧
      10 * decoded.graph.size < frame.length := by
  refine ⟨?_, ten_bytes_of_decode h⟩
  by_cases hroom : decoded.graph.size ≤ greatestLength + 1
  · rw [if_pos hroom]
    exact encode_of_room h hcanonical hroom
  · rw [if_neg hroom]
    exact encode_of_no_room h hcanonical (Nat.lt_of_not_le hroom)

/-- The handles suffice for every frame of at most twenty gibibytes. -/
theorem encode_decode_of_length_le {frame : List UInt8} {decoded : Rooted}
    (h : decode s frame = .ok decoded) (hcanonical : ∀ mark ∈ transcript s frame, mark.Canonical)
    (hlength : frame.length ≤ 10 * Nat.pow 2 31) :
    encode s decoded.graph decoded.root = .ok frame := by
  have hbytes := ten_bytes_of_decode h
  refine encode_of_room h hcanonical ?_
  show _ ≤ Nat.pow 2 31 - 1 + 1
  omega

def switchType : TypeDef where
  name := "Switch"
  fields := [⟨"on", .bool, false⟩, ⟨"next", .object "Switch", false⟩, ⟨"uses", .int, true⟩]

def switchSchema : Schema where
  types := [switchType]
  distinct := by decide +kernel

/-- Two switches that refer to each other, one on and one off. -/
def switchFrame : List UInt8 :=
  let text : String → List UInt8 := fun name => (putText name).toOption.getD []
  let start := [present, newNode] ++ text "Switch" ++ putCount 2 ++ text "on" ++ text "boolean" ++
    text "next" ++ text "Switch"
  withTrailer (start ++ [1] ++ (start ++ [0] ++ ([present, backReference] ++ putCount 0)))

theorem exists_decoded_switches : ∃ decoded, decode switchSchema switchFrame = .ok decoded ∧
    decoded.graph.size ≤ greatestLength + 1 := by
  have hsize : (decode switchSchema switchFrame).toOption.map (·.graph.size) = some 2 := by
    decide +kernel
  obtain ⟨decoded, hdecoded, hgraph⟩ := Option.map_eq_some_iff.mp hsize
  refine ⟨decoded, ok_of_toOption hdecoded, ?_⟩
  rw [hgraph]
  decide

theorem canonical_switchFrame : ∀ mark ∈ transcript switchSchema switchFrame, mark.Canonical := by
  decide +kernel

theorem encode_decode_switches : ∃ decoded, decode switchSchema switchFrame = .ok decoded ∧
    (∀ mark ∈ transcript switchSchema switchFrame, mark.Canonical) ∧
    encode switchSchema decoded.graph decoded.root = .ok switchFrame := by
  obtain ⟨decoded, hdecode, hroom⟩ := exists_decoded_switches
  have hencode := (encode_decode hdecode canonical_switchFrame).1
  rw [if_pos hroom] at hencode
  exact ⟨decoded, hdecode, canonical_switchFrame, hencode⟩

end DatagramRpc.Frame
