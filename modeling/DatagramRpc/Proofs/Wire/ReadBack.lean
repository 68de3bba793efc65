import DatagramRpc.Proofs.Failure
import DatagramRpc.Wire.Reader

/-!
# Reading back what was written

Every reader takes from the input exactly the bytes that the writer of the same sort has put there,
whatever follows them, and gives the value back.
-/

namespace DatagramRpc.Wire

variable {α β : Type}

/-- A reader takes these bytes from the front of any input, for this value. -/
def Takes (r : Reader α) (bytes : List UInt8) (a : α) : Prop :=
  ∀ rest, r (bytes ++ rest) = .ok a rest

namespace Takes

variable {r : Reader α} {f : α → Reader β} {bytes bytes' : List UInt8} {a : α} {b : β}

theorem pure (a : α) : Takes (Pure.pure a : Reader α) [] a := fun _ => rfl

/-- Two readers, one after the other. -/
theorem bind (h : Takes r bytes a) (h' : Takes (f a) bytes' b) :
    Takes (r >>= f) (bytes ++ bytes') b := by
  intro rest
  have hr := h (bytes' ++ rest)
  rw [← List.append_assoc] at hr
  show EStateM.bind r f _ = _
  rw [EStateM.bind, hr]
  exact h' rest

/-- A reader and a step that takes nothing more. -/
theorem bind_done (h : Takes r bytes a) (h' : Takes (f a) [] b) : Takes (r >>= f) bytes b :=
  List.append_nil bytes ▸ h.bind h'

end Takes

private theorem take_takes {n : Nat} {what : String} {bytes : List UInt8} (h : bytes.length = n) :
    Takes (take n what) bytes bytes := by
  intro rest
  subst h
  simp [take]

theorem getByte_takes (b : UInt8) : Takes getByte [b] b := fun _ => rfl

private theorem getInt_takes (n : Nat) :
    Takes getInt (bigEndian 4 n) (UInt32.ofNat (n % Nat.pow 256 4)).toInt32 := by
  rw [← ofBigEndian_bigEndian]
  exact (take_takes (length_bigEndian 4 n)).bind_done (.pure _)

theorem getInt_putInt (v : Int32) : Takes getInt (putInt v) v := by
  have hlt : v.toUInt32.toNat < Nat.pow 256 4 := v.toUInt32.toNat_lt
  have h := getInt_takes v.toUInt32.toNat
  rw [Nat.mod_eq_of_lt hlt, UInt32.ofNat_toNat, Int32.toInt32_toUInt32] at h
  exact h

theorem getLong_putLong (v : Int64) : Takes getLong (putLong v) v := by
  have hlt : v.toUInt64.toNat < Nat.pow 256 8 := v.toUInt64.toNat_lt
  have h : Takes getLong (putLong v)
      (UInt64.ofNat (ofBigEndian (bigEndian 8 v.toUInt64.toNat))).toInt64 :=
    (take_takes (length_bigEndian 8 _)).bind_done (.pure _)
  rw [ofBigEndian_bigEndian, Nat.mod_eq_of_lt hlt, UInt64.ofNat_toNat, Int64.toInt64_toUInt64] at h
  exact h

theorem getDouble_putDouble (bits : UInt64) : Takes getDouble (putDouble bits) bits := by
  have hlt : bits.toNat < Nat.pow 256 8 := bits.toNat_lt
  have h : Takes getDouble (putDouble bits) (UInt64.ofNat (ofBigEndian (bigEndian 8 bits.toNat))) :=
    (take_takes (length_bigEndian 8 _)).bind_done (.pure _)
  rw [ofBigEndian_bigEndian, Nat.mod_eq_of_lt hlt, UInt64.ofNat_toNat] at h
  exact h

theorem toInt_ofNat {n : Nat} (h : n ≤ greatestLength) : (Int32.ofNat n).toInt = n :=
  Int32.toInt_ofNat_of_lt (Nat.lt_of_le_of_lt h (by decide))

theorem getInt_putCount {n : Nat} (h : n ≤ greatestLength) :
    Takes getInt (putCount n) (Int32.ofNat n) := by
  have hlt : n < Nat.pow 256 4 := Nat.lt_of_le_of_lt h (by decide)
  have h := getInt_takes n
  rw [Nat.mod_eq_of_lt hlt] at h
  exact h

theorem not_ofNat_lt_zero {n : Nat} (h : n ≤ greatestLength) : ¬ Int32.ofNat n < 0 := by
  rw [Int32.lt_iff_toInt_lt, toInt_ofNat h, Int32.toInt_zero]
  omega

theorem getLength_putCount {n : Nat} (h : n ≤ greatestLength) (fault : Int32 → FramingCause) :
    Takes (getLength fault) (putCount n) n := by
  refine (getInt_putCount h).bind_done ?_
  simp only [if_neg (not_ofNat_lt_zero h), toInt_ofNat h]
  exact .pure n

/-- A text is written with its length, if that is not too great. -/
theorem putText_eq_ok {s : String} {bytes : List UInt8} : putText s = .ok bytes ↔
    (Text.encodeUtf8 s).length ≤ greatestLength ∧
      bytes = putCount (Text.encodeUtf8 s).length ++ Text.encodeUtf8 s := by
  rw [putText]
  split
  · next hroom => exact ⟨fun h => ⟨hroom, (Except.ok.inj h).symm⟩,
      fun ⟨_, h⟩ => congrArg Except.ok h.symm⟩
  · next hlong => exact ⟨fun h => (nomatch h), fun ⟨hroom, _⟩ => absurd hroom hlong⟩

theorem exists_putText {s : String} (h : (Text.encodeUtf8 s).length ≤ greatestLength) :
    ∃ bytes, putText s = .ok bytes := ⟨_, putText_eq_ok.mpr ⟨h, rfl⟩⟩

theorem getText_putText {s : String} {bytes : List UInt8} (h : putText s = .ok bytes) :
    Takes getText bytes s := by
  obtain ⟨hroom, rfl⟩ := putText_eq_ok.mp h
  refine (getLength_putCount hroom _).bind ?_
  refine (take_takes rfl).bind_done ?_
  rw [Text.decodeUtf8_encodeUtf8]
  exact .pure s

end DatagramRpc.Wire
