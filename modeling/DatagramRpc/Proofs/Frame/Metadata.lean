import DatagramRpc.Message.Envelope
import DatagramRpc.Proofs.Frame.Readings

/-!
# The fields that a frame lists for a node

Before its values, every node in a frame names its type and lists fields with their declared types.
The encoder lists the persisted fields in the order in which they are declared. The decoder looks
each field up by its name and refuses one that comes twice, so an accepted frame lists the same
fields, every one of them once, but in any order.
-/

namespace DatagramRpc.Frame

open Wire

variable {s : Schema} {g : ObjectGraph} {level n after : Nat} {bytes bytes' : List UInt8}
  {marks : List Mark} {t : TypeDef} {fs : List (FieldDef × Nat)}

/-- The type and the fields of a node as a frame lists them. -/
abbrev Listing := TypeDef × List (FieldDef × Nat)

def Mark.listing? : Mark → Option Listing
  | listing t fs => some (t, fs)
  | truth _ => none

/-- The listings of a transcript, in the order in which nodes begin. -/
def listings (marks : List Mark) : List Listing := marks.filterMap Mark.listing?

private theorem mem_listings : (t, fs) ∈ listings marks ↔ .listing t fs ∈ marks := by
  unfold listings
  rw [List.mem_filterMap]
  constructor
  · rintro ⟨mark, hmark, he⟩
    cases mark with
    | listing => cases he; exact hmark
    | truth => cases he
  · exact fun h => ⟨_, h, rfl⟩

/-- How a node begins in a frame: with these bytes it is new, of this type, and has the listed
fields, which are all persisted fields of the type. -/
structure Lists (s : Schema) (g : ObjectGraph) (id : NodeId) (t : TypeDef)
    (fs : List (FieldDef × Nat)) (bytes : List UInt8) : Prop where
  node : ∃ node, g.get? id = some node ∧ node.typeName = t.name
  type : s.get? t.name = some t
  complete : fs.Perm t.persisted
  header : ∃ name layout written, putText t.name = .ok name ∧
    fs.mapM (fun f => encodeFieldMeta f.1) = .ok layout ∧
    t.persisted.mapM (fun f => encodeFieldMeta f.1) = .ok written ∧ layout.Perm written ∧
    bytes = present :: newNode :: (name ++ putCount t.persistedCount ++ layout.flatten)

/-- In these bytes, one after another, the nodes begin that have these listings, the first of them
node `n`. -/
inductive Headers (s : Schema) (g : ObjectGraph) : Nat → List Listing → List UInt8 → Prop
  | none {n : Nat} {bytes : List UInt8} : Headers s g n [] bytes
  | next {n : Nat} {t : TypeDef} {fs : List (FieldDef × Nat)} {listings : List Listing}
      {head rest : List UInt8}
      (gap : List UInt8) (lists : Lists s g ⟨n⟩ t fs head)
      (others : Headers s g (n + 1) listings rest) :
      Headers s g n ((t, fs) :: listings) (gap ++ head ++ rest)

namespace Headers

variable {before after' : List Listing}

private theorem skip (h : Headers s g n before bytes) (gap : List UInt8) :
    Headers s g n before (gap ++ bytes) := by
  cases h with
  | none => exact .none
  | next gap' lists others =>
    rw [← List.append_assoc, ← List.append_assoc]
    exact .next (gap ++ gap') lists others

private theorem append (h : Headers s g n before bytes)
    (h' : Headers s g (n + before.length) after' bytes') :
    Headers s g n (before ++ after') (bytes ++ bytes') := by
  induction h with
  | none => exact h'.skip _
  | next gap lists others ih =>
    rw [List.append_assoc]
    refine .next gap lists (ih ?_)
    rwa [List.length_cons, Nat.add_comm _ 1, ← Nat.add_assoc] at h'

/-- Every listing is that of a node. -/
theorem lists_of_mem (h : Headers s g n before bytes) (hmem : (t, fs) ∈ before) :
    ∃ id head, Lists s g id t fs head := by
  induction h with
  | none => cases hmem
  | next gap lists others ih =>
    rcases List.mem_cons.mp hmem with he | hmem
    · cases he
      exact ⟨_, _, lists⟩
    · exact ih hmem

end Headers

/-- Reading goes by one header for each node that begins. -/
theorem Reads.headers {task : Task} (h : Reads s g level task n bytes after marks) :
    Headers s g n (listings marks) bytes ∧ n + (listings marks).length = after := by
  induction h with
  | @first level n after t value fs name body layout marks node type describable order putName
      putLayout fields ih =>
    obtain ⟨hheaders, hlength⟩ := ih
    obtain ⟨written, hwritten, hblocks⟩ := mapM_perm order putLayout
    have hlists : Lists s g
        ⟨n⟩ t fs (present :: newNode :: (name ++ putCount t.persistedCount ++ layout.flatten)) :=
      ⟨⟨_, node, rfl⟩, type, order, name, layout, written, putName, putLayout,
        hwritten, hblocks, rfl⟩
    refine ⟨.next [] hlists hheaders, ?_⟩
    rw [← hlength]
    exact (Nat.add_assoc n _ 1).symm.trans (Nat.add_right_comm n _ 1)
  | cons first others ihFirst ih =>
    obtain ⟨hheaders, hlength⟩ := ihFirst
    obtain ⟨hheaders', hlength'⟩ := ih
    rw [listings, List.filterMap_append]
    refine ⟨hheaders.append (hlength ▸ hheaders'), ?_⟩
    rw [List.length_append, ← Nat.add_assoc]
    exact (congrArg (· + _) hlength).trans hlength'
  | array _ _ ih => exact ⟨ih.1.skip _, ih.2⟩
  | reference _ ih => exact ih
  | _ => exact ⟨.none, rfl⟩

/-- **Every node lists each of its fields once**, with the blocks that the encoder writes for its
type, in some order. -/
theorem fields_listed_once {frame : List UInt8} {decoded : Rooted}
    (h : decode s frame = .ok decoded) :
    (∃ body, frame = withTrailer body ∧
      Headers s decoded.graph 0 (listings (transcript s frame)) body) ∧
      (listings (transcript s frame)).length = decoded.graph.size ∧
      ∀ t fs, .listing t fs ∈ transcript s frame → s.get? t.name = some t ∧ fs.Perm t.persisted ∧
        ∃ layout written, fs.mapM (fun f => encodeFieldMeta f.1) = .ok layout ∧
          t.persisted.mapM (fun f => encodeFieldMeta f.1) = .ok written ∧ layout.Perm written := by
  obtain ⟨body, hframe, hreads⟩ := reads_of_decode h
  obtain ⟨hheaders, hlength⟩ := hreads.headers
  refine ⟨⟨body, hframe, hheaders⟩, (Nat.zero_add _).symm.trans hlength, fun t fs hmark => ?_⟩
  obtain ⟨id, head, hlists⟩ := hheaders.lists_of_mem (mem_listings.mpr hmark)
  obtain ⟨name, layout, written, -, hlayout, hwritten, hblocks, -⟩ := hlists.header
  exact ⟨hlists.type, hlists.complete, layout, written, hlayout, hwritten, hblocks⟩

/-! ## An order of its own -/

/-- An envelope whose fields are listed from the last to the first. -/
def reversedFrame : List UInt8 :=
  let text : String → List UInt8 := fun name => (putText name).toOption.getD []
  withTrailer ([present, newNode] ++ text "Server.RequestMessage" ++ putCount 3 ++ text "data" ++
    text "java.lang.String" ++ text "requestID" ++ text "int" ++ text "requestType" ++ text "int" ++
    [present] ++ text "facility,ALL" ++ putInt 7 ++ putInt 0)

theorem fields_listed_once_reversed :
    ∃ decoded, decode Envelope.schema reversedFrame = .ok decoded ∧
    ∀ t fs, .listing t fs ∈ transcript Envelope.schema reversedFrame → fs.Perm t.persisted := by
  have hsize : (decode Envelope.schema reversedFrame).toOption.map (·.graph.size) = some 1 := by
    decide +kernel
  obtain ⟨decoded, hdecoded, -⟩ := Option.map_eq_some_iff.mp hsize
  have hdecode := ok_of_toOption hdecoded
  obtain ⟨-, -, hlisted⟩ := fields_listed_once hdecode
  exact ⟨decoded, hdecode, fun t fs hmark => (hlisted t fs hmark).2.1⟩

/-- The receiver reads the envelope, though its metadata is not what the encoder writes. -/
theorem reversed_fields_accepted : (∃ decoded, decode Envelope.schema reversedFrame = .ok decoded) ∧
    Envelope.ofFrame reversedFrame = .ok (.of .read 7 "facility,ALL") ∧
    ∃ t fs layout written, .listing t fs ∈ transcript Envelope.schema reversedFrame ∧
      fs ≠ t.persisted ∧ fs.mapM (fun f => encodeFieldMeta f.1) = .ok layout ∧
      t.persisted.mapM (fun f => encodeFieldMeta f.1) = .ok written ∧ layout ≠ written := by
  have hlistings : listings (transcript Envelope.schema reversedFrame) =
      [(Envelope.typeDef, Envelope.typeDef.persisted.reverse)] := by decide +kernel
  have henvelope : (Envelope.ofFrame reversedFrame).toOption =
      some (.of .read 7 "facility,ALL") := by
    decide +kernel
  have hsome : ∀ fs ∈ [Envelope.typeDef.persisted.reverse, Envelope.typeDef.persisted],
      (fs.mapM fun f => encodeFieldMeta f.1).toOption.isSome := by decide +kernel
  have hblocks : (Envelope.typeDef.persisted.reverse.mapM fun f => encodeFieldMeta f.1).toOption ≠
      (Envelope.typeDef.persisted.mapM fun f => encodeFieldMeta f.1).toOption := by decide +kernel
  have hofFrame := ok_of_toOption henvelope
  obtain ⟨decoded, hdecode, -⟩ := bind_eq_ok.mp hofFrame
  obtain ⟨layout, hlayout⟩ :=
    Option.isSome_iff_exists.mp (hsome Envelope.typeDef.persisted.reverse (by simp))
  obtain ⟨written, hwritten⟩ :=
    Option.isSome_iff_exists.mp (hsome Envelope.typeDef.persisted (by simp))
  refine ⟨⟨decoded, hdecode⟩, hofFrame, _, _, layout, written, ?_, ?_, ok_of_toOption hlayout,
    ok_of_toOption hwritten, fun he => hblocks ?_⟩
  · exact mem_listings.mp (hlistings ▸ List.mem_singleton_self _)
  · decide +kernel
  · rw [hlayout, hwritten, he]

end DatagramRpc.Frame
