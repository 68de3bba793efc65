import DatagramRpc.Frame.Decode
import DatagramRpc.Proofs.Wire.Canonical
import Mathlib.Data.List.Forall2

/-!
# What a frame shows of how it was written

Two frames may describe the same graph: the fields of a node may be listed in any order, and every
byte but zero stands for true. The transcript of a frame keeps what the decoder forgets of this. It
is written by a decoder that notes down each list of fields and each such byte as it comes by, and
does the same as the decoder otherwise.
-/

namespace DatagramRpc.Frame

open Wire Decoder

variable {α β : Type}

/-! ## The decoder in steps -/

/-- How a reference begins: all of it, or nothing yet of a new node. -/
def beginRef : Decoder (Option (Option NodeId)) := do
  let flag ← read getByte
  if flag = absent then return some none
  if flag ≠ present then throw (.framing (.presenceFlag flag))
  let flag ← read getByte
  if flag = backReference then return some (some (← ofHandle (← read getInt)))
  if flag ≠ newNode then throw (.framing (.backReferenceFlag flag))
  return none

/-- How a new node begins: its type, its place in the graph, and its fields as the frame lists
them. -/
def beginNode (s : Schema) : Decoder (TypeDef × NodeId × List (FieldDef × Nat)) := do
  let t ← lift (s.resolve (← read getText))
  let id ← instantiate t
  let count ← read (getLength .negativeFieldCount)
  if count ≠ t.persistedCount then
    throw (.schema (.frameFieldCount t.name count t.persistedCount))
  return (t, id, ← decodeLayout t count [])

/-- How an array begins: the number of its elements, if it is there. -/
def beginArray : Decoder (Option Nat) := do
  let n ← read getInt
  if n = -1 then return none
  if n < 0 then throw (.framing (.arrayLength n))
  let count := n.toInt.toNat
  demand count (.arrayBeyondFrame count)
  return some count

private theorem bind_ite (c : Prop) [Decidable c] (d d' : Decoder α) (f : α → Decoder β) :
    (if c then d else d') >>= f = if c then d >>= f else d' >>= f := by
  split <;> rfl

theorem bind_throw (fault : Fault) (f : α → Decoder β) :
    (throw fault : Decoder α) >>= f = throw fault := rfl

private theorem decodeRef_steps (s : Schema) (below : List NodeReader) : decodeRef s below = (do
    match ← beginRef with
    | some target => return target
    | none => return some (← decodeNewNode s below)) := by
  rw [decodeRef, beginRef]
  simp only [bind_assoc, pure_bind, bind_ite, bind_throw]

private theorem decodeNewNode_steps (s : Schema) (below : List NodeReader) :
    decodeNewNode s below = (do
      let (_, id, layout) ← beginNode s
      layout.forM fun f => do
        setField id f.1.name (← decodeValue f.1.type below)
      return id) := by
  rw [decodeNewNode, beginNode]
  simp only [bind_assoc, pure_bind, bind_ite, bind_throw]

private theorem decodeValue_array (element : FieldType) (below : List NodeReader) :
    decodeValue (.array element) below = (do
      match ← beginArray with
      | none => return .absentArray
      | some count => return .array (← times count (decodeValue element below.tail))) := by
  rw [decodeValue, beginArray]
  simp only [bind_assoc, pure_bind, bind_ite, bind_throw]

/-! ## The decoder with a record -/

/-- What a frame shows beside what it describes. -/
inductive Mark where
  /-- A node, and its fields in the order in which they are listed. -/
  | listing (type : TypeDef) (fields : List (FieldDef × Nat))
  /-- A byte that stands for a truth value. -/
  | truth (byte : UInt8)

namespace Mark

/-- Fields are listed in the order in which the receiver declares them. -/
def InOrder : Mark → Prop
  | listing t fields => fields = t.persisted
  | truth _ => True

/-- Fields are listed in that order, and truth values are 0 or 1. -/
def Canonical : Mark → Prop
  | listing t fields => fields = t.persisted
  | truth byte => byte = 0 ∨ byte = 1

instance : DecidablePred InOrder := fun m => by
  cases m <;> simp only [InOrder] <;> infer_instance

instance : DecidablePred Canonical := fun m => by
  cases m <;> simp only [Canonical] <;> infer_instance

theorem Canonical.inOrder {m : Mark} (h : m.Canonical) : m.InOrder := by
  cases m with
  | listing => exact h
  | truth => exact trivial

end Mark

/-- Decoding that keeps the marks it has come by. -/
abbrev Recorder := EStateM Fault (DecodeState × List Mark)

namespace Recorder

/-- Does what leaves no mark. -/
def silent (d : Decoder α) : Recorder α := fun st =>
  match d st.1 with
  | .ok a st' => .ok a (st', st.2)
  | .error fault st' => .error fault (st', st.2)

def note (m : Mark) : Recorder Unit := fun st => .ok () (st.1, st.2 ++ [m])

end Recorder

open Recorder

/-- Reads a value, with the readers for references inside it. -/
def recordValue : FieldType → List (Recorder (Option NodeId)) → Recorder Value
  | .bool, _ => do
    let b ← silent (read getByte)
    note (.truth b)
    return .bool (b != 0)
  | .array element, below => do
    match ← silent beginArray with
    | none => return .absentArray
    | some count =>
      return .array (← (List.replicate count ()).mapM fun _ => recordValue element below.tail)
  | .object _, readRef :: _ => return .ref (← readRef)
  | t, _ => silent (decodeValue t [])

/-- Reads the values of the listed fields. -/
def recordFields (id : NodeId) (below : List (Recorder (Option NodeId)))
    (layout : List (FieldDef × Nat)) : Recorder Unit :=
  layout.forM fun f => do
    let v ← recordValue f.1.type below
    silent (setField id f.1.name v)

def recordNewNode (s : Schema) (below : List (Recorder (Option NodeId))) : Recorder NodeId := do
  let (t, id, layout) ← silent (beginNode s)
  note (.listing t layout)
  recordFields id below layout
  return id

def recordRef (s : Schema) (below : List (Recorder (Option NodeId))) :
    Recorder (Option NodeId) := do
  match ← silent beginRef with
  | some target => return target
  | none => return some (← recordNewNode s below)

def recorders (s : Schema) : Nat → List (Recorder (Option NodeId))
  | 0 => []
  | n + 1 => recordRef s (recorders s n) :: recorders s n

/-- The state in which the reading of a body ends, with all marks. -/
def recordBody (s : Schema) (body : List UInt8) :
    EStateM.Result Fault (DecodeState × List Mark) (Option NodeId) :=
  recordRef s (recorders s nestingLimit) (⟨body, .empty⟩, [])

/-- The marks of a frame, in the order in which the decoder comes by them. -/
def transcript (s : Schema) (frame : List UInt8) : List Mark :=
  match checkTrailer frame with
  | .error _ => []
  | .ok body =>
    match recordBody s body with
    | .ok _ st => st.2
    | .error _ st => st.2

/-! ## Nothing else is changed -/

/-- A result without the marks. -/
def forget : EStateM.Result Fault (DecodeState × List Mark) α → EStateM.Result Fault DecodeState α
  | .ok a st => .ok a st.1
  | .error fault st => .error fault st.1

/-- Apart from its marks, the one does what the other does. -/
def Records (r : Recorder α) (d : Decoder α) : Prop := ∀ st, forget (r st) = d st.1

namespace Records

variable {r : Recorder α} {d : Decoder α} {f : α → Recorder β} {f' : α → Decoder β}

private theorem silent (d : Decoder α) : Records (Recorder.silent d) d := by
  intro st
  rw [Recorder.silent]
  cases d st.1 <;> rfl

private theorem pure (a : α) : Records (Pure.pure a) (Pure.pure a) := fun _ => rfl

private theorem bind (h : Records r d) (h' : ∀ a, Records (f a) (f' a)) :
    Records (r >>= f) (d >>= f') := by
  intro st
  show forget (EStateM.bind r f st) = EStateM.bind d f' st.1
  rw [EStateM.bind, EStateM.bind, ← h st]
  cases r st with
  | ok a mid => exact h' a mid
  | error fault mid => rfl

/-- A note is nothing to the decoder. -/
theorem note (m : Mark) (h : Records r d) : Records (Recorder.note m >>= fun _ => r) d :=
  fun st => h (st.1, st.2 ++ [m])

theorem mapM {γ : Type} {g : γ → Recorder α} {g' : γ → Decoder α} (h : ∀ c, Records (g c) (g' c))
    (l : List γ) : Records (l.mapM g) (l.mapM g') := by
  induction l with
  | nil => exact pure []
  | cons c l ih =>
    rw [List.mapM_cons, List.mapM_cons]
    exact (h c).bind fun _ => ih.bind fun _ => pure _

end Records

/-- The readers of references at the same levels. -/
def AllRecord (below : List (Recorder (Option NodeId))) (below' : List NodeReader) : Prop :=
  List.Forall₂ Records below below'

theorem records_value (t : FieldType) :
    ∀ {below : List (Recorder (Option NodeId))} {below' : List NodeReader},
    AllRecord below below' → Records (recordValue t below) (decodeValue t below') := by
  induction t with
  | bool => exact fun _ => (Records.silent _).bind fun b => .note _ (.pure _)
  | array element ih =>
    intro below below' h
    rw [recordValue, decodeValue_array]
    refine (Records.silent _).bind fun count => ?_
    have htail : AllRecord below.tail below'.tail := by
      cases h with
      | nil => exact .nil
      | cons _ others => exact others
    cases count with
    | none => exact .pure _
    | some count => exact (Records.mapM (fun _ => ih htail) _).bind fun _ => .pure _
  | object typeName =>
    intro below below' h
    cases h with
    | nil => exact .silent _
    | cons first _ => exact first.bind fun _ => .pure _
  | _ => exact fun _ => .silent _

private theorem records_fields {below : List (Recorder (Option NodeId))} {below' : List NodeReader}
    (h : AllRecord below below') (id : NodeId) (layout : List (FieldDef × Nat)) :
    Records (recordFields id below layout) (layout.forM fun f => do
      setField id f.1.name (← decodeValue f.1.type below')) := by
  induction layout with
  | nil => exact .pure ()
  | cons f layout ih =>
    have hfirst := (records_value f.1.type h).bind fun v => Records.silent (setField id f.1.name v)
    exact hfirst.bind fun _ => ih

private theorem records_newNode {below : List (Recorder (Option NodeId))} {below' : List NodeReader}
    (h : AllRecord below below') (s : Schema) :
    Records (recordNewNode s below) (decodeNewNode s below') := by
  rw [recordNewNode, decodeNewNode_steps]
  refine (Records.silent _).bind fun begun => ?_
  exact .note _ ((records_fields h begun.2.1 begun.2.2).bind fun _ => .pure _)

private theorem records_ref {below : List (Recorder (Option NodeId))} {below' : List NodeReader}
    (h : AllRecord below below') (s : Schema) :
    Records (recordRef s below) (decodeRef s below') := by
  rw [recordRef, decodeRef_steps]
  refine (Records.silent _).bind fun begun => ?_
  cases begun with
  | some target => exact .pure target
  | none => exact (records_newNode h s).bind fun _ => .pure _

theorem allRecord (s : Schema) (level : Nat) :
    AllRecord (recorders s level) (nodeReaders s level) := by
  induction level with
  | zero => exact .nil
  | succ level ih => exact .cons (records_ref ih s) ih

/-- Behind every frame that is accepted there is a run of the recorder that ends with its
transcript. -/
theorem recordBody_of_decode {s : Schema} {frame : List UInt8} {decoded : Rooted}
    (h : decode s frame = .ok decoded) :
    ∃ body st, frame = withTrailer body ∧
      recordBody s body = .ok decoded.root (st, transcript s frame) ∧ st = ⟨[], decoded.graph⟩ := by
  obtain ⟨body, htrailer, hbody⟩ := bind_eq_ok.mp h
  have hsame := records_ref (allRecord s nestingLimit) s (⟨body, .empty⟩, [])
  rw [decodeBody] at hbody
  have hmarks : transcript s frame = match recordBody s body with
      | .ok _ st => st.2
      | .error _ st => st.2 := by
    rw [transcript, htrailer]
  rw [hmarks]
  cases hrun : recordRef s (recorders s nestingLimit) (⟨body, .empty⟩, []) with
  | error fault st =>
    rw [hrun, forget] at hsame
    rw [← hsame] at hbody
    cases hbody
  | ok root st =>
    rw [hrun, forget] at hsame
    rw [← hsame] at hbody
    simp only at hbody
    split at hbody
    · next hrest =>
      cases hbody
      refine ⟨body, st.1, checkTrailer_ok htrailer, ?_, ?_⟩
      · rw [recordBody, hrun]
      · rw [← List.isEmpty_iff.mp hrest]
    · cases hbody

end DatagramRpc.Frame
