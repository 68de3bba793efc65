import DatagramRpc.Proofs.Frame.Transcript
import DatagramRpc.Proofs.Frame.WellFormed
import DatagramRpc.Proofs.Graph.TypeNames
import Mathlib.Data.List.Perm.Subperm

/-!
# Steps of the decoder that succeed

What a step has taken from the front of the input, by what it has come to: it is what the encoder
puts there for the same thing. So the bytes of a frame can be told from what was read, but for the
order of fields and the truth values.
-/

namespace DatagramRpc.Frame

open Wire ObjectGraph Decoder

variable {α : Type} {s : Schema} {t : TypeDef} {st st' : DecodeState} {fs : List (FieldDef × Nat)}

theorem read_ok {r : Reader α} {a : α} (h : Decoder.read r st = .ok a st') :
    ∃ rest, r st.input = .ok a rest ∧ st' = ⟨rest, st.graph⟩ := by
  rw [Decoder.read] at h
  split at h
  · next hr =>
    cases h
    exact ⟨_, hr, rfl⟩
  · cases h

private theorem lift_ok {x : Except Fault α} {a : α} (h : Decoder.lift x st = .ok a st') :
    x = .ok a ∧ st' = st := by
  cases x with
  | error fault => cases h
  | ok b =>
    cases h
    exact ⟨rfl, rfl⟩

private theorem demand_ok {count : Nat} {short : Nat → FramingCause} {u : Unit}
    (h : demand count short st = .ok u st') : st' = st := by
  rw [demand] at h
  split at h
  · cases h
  · cases h
    rfl

private theorem ofHandle_ok {handle : Int32} {id : NodeId} (h : ofHandle handle st = .ok id st') :
    st' = st ∧ 0 ≤ handle.toInt ∧ handle.toInt.toNat < st.graph.size ∧
    id = ⟨handle.toInt.toNat⟩ := by
  rw [ofHandle] at h
  split at h
  · next hin =>
    cases h
    exact ⟨rfl, hin.1, by omega, rfl⟩
  · cases h

theorem setField_ok {p : NodeId} {name : String} {v : Value} {u : Unit}
    (h : setField p name v st = .ok u st') : ∃ node, st' = ⟨st.input, st.graph.put p node⟩ := by
  rw [setField] at h
  split at h
  · cases h
    exact ⟨_, rfl⟩
  · cases h

/-! ## Beginnings -/

/-- The three ways in which a reference begins. -/
theorem beginRef_ok {begun : Option (Option NodeId)} (h : beginRef st = .ok begun st') :
    st'.graph = st.graph ∧
      match begun with
      | some none => st.input = absent :: st'.input
      | some (some id) => id.index < st.graph.size ∧ id.index ≤ greatestLength ∧
          st.input = present :: backReference :: (putCount id.index ++ st'.input)
      | none => st.input = present :: newNode :: st'.input := by
  rw [beginRef] at h
  obtain ⟨flag, st₁, hflag, h⟩ := estate_bind_ok.mp h
  obtain ⟨rest, hbyte, rfl⟩ := read_ok hflag
  have hinput := getByte_ok hbyte
  simp only at h
  split at h
  · next he =>
    cases h
    exact ⟨rfl, by rw [hinput, he]⟩
  split at h
  · cases h
  next hpresent =>
  obtain ⟨flag', st₂, hflag', h⟩ := estate_bind_ok.mp h
  obtain ⟨rest', hbyte', rfl⟩ := read_ok hflag'
  have hinput' := getByte_ok hbyte'
  simp only at h hinput'
  rw [hinput, hinput', Decidable.not_not.mp hpresent]
  split at h
  · next he =>
    obtain ⟨handle, st₃, hhandle, h⟩ := estate_bind_ok.mp h
    obtain ⟨rest'', hint, rfl⟩ := read_ok hhandle
    obtain ⟨id, st₄, hid, h⟩ := estate_bind_ok.mp h
    obtain ⟨rfl, hpos, hlt, rfl⟩ := ofHandle_ok hid
    cases h
    obtain ⟨hput, hroom⟩ := putInt_eq_putCount hpos
    have hrest : rest' = putInt handle ++ rest'' := getInt_ok hint
    refine ⟨rfl, hlt, hroom, ?_⟩
    rw [he, hrest, hput]
  split at h
  · cases h
  next hnew =>
  cases h
  rw [Decidable.not_not.mp hnew]
  exact ⟨rfl, rfl⟩

theorem beginArray_ok {begun : Option Nat} (h : beginArray st = .ok begun st') :
    st'.graph = st.graph ∧
      match begun with
      | none => st.input = putInt (-1) ++ st'.input
      | some count => count ≤ greatestLength ∧ st.input = putCount count ++ st'.input := by
  rw [beginArray] at h
  obtain ⟨announced, st₁, hread, h⟩ := estate_bind_ok.mp h
  obtain ⟨rest, hint, rfl⟩ := read_ok hread
  have hinput := getInt_ok hint
  split at h
  · next he =>
    cases h
    exact ⟨rfl, by rw [hinput, he]⟩
  split at h
  · cases h
  next hneg =>
  obtain ⟨_, st₂, hdemand, h⟩ := estate_bind_ok.mp h
  obtain rfl := demand_ok hdemand
  cases h
  rw [Int32.lt_iff_toInt_lt, Int32.toInt_zero] at hneg
  obtain ⟨hput, hroom⟩ := putInt_eq_putCount (Int.not_lt.mp hneg)
  exact ⟨rfl, hroom, by rw [hinput, hput]⟩

private theorem matchField_eq {places : List Nat} {name : String} {sent : FieldType}
    {f : FieldDef × Nat} (h : matchField t places name sent = .ok f) :
    f.1.name = name ∧ f.1.type = sent := by
  rw [matchField] at h
  split at h
  · cases h
  next found hfound =>
  split at h
  · cases h
  split at h
  · cases h
  next htype =>
  cases h
  exact ⟨by simpa using List.find?_some hfound, (Decidable.not_not.mp htype).symm⟩

/-- The fields that are listed are named as they would be written. -/
theorem decodeLayout_ok {count : Nat} : ∀ {places : List Nat} {st st' : DecodeState}
    {fs : List (FieldDef × Nat)}, decodeLayout t count places st = .ok fs st' →
    fs.length = count ∧ (∀ f ∈ fs, FieldType.ofWireName f.1.type.wireName = .ok f.1.type) ∧
      ∃ layout, fs.mapM (fun f => encodeFieldMeta f.1) = .ok layout ∧
        st.input = layout.flatten ++ st'.input := by
  induction count with
  | zero =>
    intro places st st' fs h
    cases h
    exact ⟨rfl, fun f hf => (nomatch hf), [], rfl, rfl⟩
  | succ count ih =>
    intro places st st' fs h
    rw [decodeLayout] at h
    obtain ⟨name, st₁, hname, h⟩ := estate_bind_ok.mp h
    obtain ⟨rest₁, htext, rfl⟩ := read_ok hname
    obtain ⟨typeName, st₂, htypeName, h⟩ := estate_bind_ok.mp h
    obtain ⟨rest₂, htext', rfl⟩ := read_ok htypeName
    obtain ⟨sent, st₃, hsent, h⟩ := estate_bind_ok.mp h
    obtain ⟨htype, rfl⟩ := lift_ok hsent
    obtain ⟨f, st₄, hf, h⟩ := estate_bind_ok.mp h
    obtain ⟨hmatch, rfl⟩ := lift_ok hf
    obtain ⟨others, st₅, hothers, h⟩ := estate_bind_ok.mp h
    cases h
    obtain ⟨rfl, rfl⟩ := matchField_eq hmatch
    obtain ⟨hlength, hreadable, layout, hlayout, hrest⟩ := ih hothers
    obtain ⟨nameBytes, hputName, hinput⟩ := getText_ok htext
    obtain ⟨typeBytes, hputType, hinput'⟩ := getText_ok htext'
    have hwire := FieldType.wireName_of_ofWireName htype
    rw [← hwire] at hputType htype
    refine ⟨by rw [List.length_cons, hlength], List.forall_mem_cons.mpr ⟨htype, hreadable⟩,
      (nameBytes ++ typeBytes) :: layout, ?_, ?_⟩
    · have hmeta : encodeFieldMeta f.1 = .ok (nameBytes ++ typeBytes) := by
        rw [encodeFieldMeta, hputName, hputType]
        rfl
      rw [List.mapM_cons, hmeta, hlayout]
      rfl
    · rw [hinput, List.flatten_cons, List.append_assoc, List.append_assoc, ← hrest]
      exact congrArg _ hinput'

/-- What is known of a new node once its fields have been listed. -/
structure Begun (s : Schema) (t : TypeDef) (fs : List (FieldDef × Nat)) (id : NodeId)
    (st st' : DecodeState) : Prop where
  place : id = ⟨st.graph.size⟩
  graph : st'.graph = (st.graph.instantiate t).1
  type : s.get? t.name = some t
  describable : DescribableType t
  /-- The frame lists the persisted fields, in some order. -/
  order : fs.Perm t.persisted
  bytes : ∃ name layout, putText t.name = .ok name ∧
    fs.mapM (fun f => encodeFieldMeta f.1) = .ok layout ∧
    st.input = name ++ putCount t.persistedCount ++ layout.flatten ++ st'.input

theorem beginNode_ok {id : NodeId} (h : beginNode s st = .ok (t, id, fs) st') :
    Begun s t fs id st st' := by
  rw [beginNode] at h
  obtain ⟨typeName, st₁, hread, h⟩ := estate_bind_ok.mp h
  obtain ⟨rest₁, htext, rfl⟩ := read_ok hread
  obtain ⟨t', st₂, hlift, h⟩ := estate_bind_ok.mp h
  obtain ⟨hresolve, rfl⟩ := lift_ok hlift
  obtain ⟨id', st₃, hinstance, h⟩ := estate_bind_ok.mp h
  cases hinstance
  obtain ⟨count, st₄, hcount, h⟩ := estate_bind_ok.mp h
  obtain ⟨rest₂, hlength, rfl⟩ := read_ok hcount
  split at h
  · cases h
  next hsame =>
  obtain ⟨fs', st₅, hlisted, hdone⟩ := estate_bind_ok.mp h
  cases hdone
  obtain rfl := Decidable.not_not.mp hsame
  have hends := ends_decodeLayout t t.persistedCount [] ⟨rest₂, (st.graph.instantiate t).1⟩
  obtain ⟨hgraph, hmem, hplaces⟩ := hends.of_ok hlisted
  obtain ⟨hcounted, hreadable, layout, hlayout, hrest⟩ := decodeLayout_ok hlisted
  obtain ⟨hbytes, hfew⟩ := getLength_ok hlength
  obtain ⟨name, hname, hinput⟩ := getText_ok htext
  rw [← Schema.name_of_get? (resolve_ok hresolve)] at hname
  -- As many different fields as there are persisted ones.
  have horder : fs.Perm t.persisted := by
    have hsub := (List.Nodup.of_map _ hplaces).subperm fun f hf => (hmem f hf).1
    apply hsub.perm_of_length_le
    rw [hcounted, TypeDef.length_persisted]
  have hdescribable : DescribableType t := ⟨hfew, fun f hf => hreadable f (horder.mem_iff.mpr hf)⟩
  refine ⟨rfl, hgraph, resolve_get? hresolve, hdescribable, horder, name, layout,
    hname, hlayout, ?_⟩
  have hmid : rest₁ = putCount t.persistedCount ++ rest₂ := hbytes
  have hlast : rest₂ = layout.flatten ++ st'.input := hrest
  simp only [hinput, hmid, hlast, List.append_assoc]

/-! ## Values -/

/-- A value without references. -/
theorem decodeValue_plain {type : FieldType} {v : Value} (hbool : type ≠ .bool)
    (harray : ∀ element, type ≠ .array element) (h : decodeValue type [] st = .ok v st') :
    st'.graph = st.graph ∧ ∃ bytes, Plain type v bytes ∧ st.input = bytes ++ st'.input := by
  cases type with
  | bool => exact absurd rfl hbool
  | array element => exact absurd rfl (harray element)
  | object typeName => cases h
  | text =>
    rw [decodeValue] at h
    obtain ⟨flag, st₁, hread, h⟩ := estate_bind_ok.mp h
    obtain ⟨rest, hbyte, rfl⟩ := read_ok hread
    rw [getByte_ok hbyte]
    split at h
    · next he =>
      cases h
      exact ⟨rfl, [absent], .noText, by rw [he]; rfl⟩
    split at h
    · next he =>
      obtain ⟨text, st₂, hread, h⟩ := estate_bind_ok.mp h
      obtain ⟨rest', htext, rfl⟩ := read_ok hread
      obtain ⟨body, hput, hinput⟩ := getText_ok htext
      cases h
      refine ⟨rfl, _, .text hput, ?_⟩
      rw [he, List.cons_append]
      exact congrArg _ hinput
    · cases h
  | byte =>
    obtain ⟨b, st₁, hread, h⟩ := estate_bind_ok.mp h
    obtain ⟨rest, hbyte, rfl⟩ := read_ok hread
    cases h
    refine ⟨rfl, _, .byte _, ?_⟩
    rw [getByte_ok hbyte, Int8.toUInt8, UInt8.toInt8]
    rfl
  | int =>
    obtain ⟨v, st₁, hread, h⟩ := estate_bind_ok.mp h
    obtain ⟨rest, hint, rfl⟩ := read_ok hread
    cases h
    exact ⟨rfl, _, .int v, getInt_ok hint⟩
  | long =>
    obtain ⟨v, st₁, hread, h⟩ := estate_bind_ok.mp h
    obtain ⟨rest, hlong, rfl⟩ := read_ok hread
    cases h
    exact ⟨rfl, _, .long v, getLong_ok hlong⟩
  | double =>
    obtain ⟨bits, st₁, hread, h⟩ := estate_bind_ok.mp h
    obtain ⟨rest, hdouble, rfl⟩ := read_ok hread
    cases h
    exact ⟨rfl, _, .double bits, getDouble_ok hdouble⟩

end DatagramRpc.Frame
