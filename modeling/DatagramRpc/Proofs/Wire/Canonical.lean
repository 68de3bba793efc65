import DatagramRpc.Proofs.Wire.ReadBack
import DatagramRpc.Wire.Parity
import Mathlib.Data.List.Basic

/-!
# Every value has one form

What a reader has taken from the front of the input is what the writer of the same sort puts there
for the value that was read. So no two byte strings stand for the same value, and whatever was read
can be written again.
-/

namespace DatagramRpc.Wire

variable {input rest body : List UInt8}

private theorem take_ok {n : Nat} {what : String} (h : take n what input = .ok body rest) :
    input = body ++ rest ∧ body.length = n := by
  rw [take] at h
  simp only [List.splitAt_eq] at h
  split at h
  · cases h
  · next hlong =>
    cases h
    rw [List.length_take] at hlong ⊢
    exact ⟨(List.take_append_drop n input).symm, by omega⟩

theorem getByte_ok {b : UInt8} (h : getByte input = .ok b rest) : input = b :: rest := by
  cases input with
  | nil => cases h
  | cons first others =>
    cases h
    rfl

/-- The bytes that spell a number of their width are those of the number. -/
theorem bigEndian_of_length {width n : Nat} {bytes : List UInt8} (h : bytes.length = width)
    (hn : n = ofBigEndian bytes % Nat.pow 256 width) : bigEndian width n = bytes := by
  subst h
  rw [Nat.mod_eq_of_lt (ofBigEndian_lt bytes)] at hn
  rw [hn, bigEndian_ofBigEndian]

theorem getInt_ok {v : Int32} (h : getInt input = .ok v rest) : input = putInt v ++ rest := by
  obtain ⟨bytes, mid, htake, hdone⟩ := estate_bind_ok.mp h
  obtain ⟨rfl, hlength⟩ := take_ok htake
  cases hdone
  rw [putInt, bigEndian_of_length hlength]
  rw [UInt32.toUInt32_toInt32, UInt32.toNat_ofNat']

theorem getLong_ok {v : Int64} (h : getLong input = .ok v rest) : input = putLong v ++ rest := by
  obtain ⟨bytes, mid, htake, hdone⟩ := estate_bind_ok.mp h
  obtain ⟨rfl, hlength⟩ := take_ok htake
  cases hdone
  rw [putLong, bigEndian_of_length hlength]
  rw [UInt64.toUInt64_toInt64, UInt64.toNat_ofNat']

theorem getDouble_ok {bits : UInt64} (h : getDouble input = .ok bits rest) :
    input = putDouble bits ++ rest := by
  obtain ⟨bytes, mid, htake, hdone⟩ := estate_bind_ok.mp h
  obtain ⟨rfl, hlength⟩ := take_ok htake
  cases hdone
  rw [putDouble, bigEndian_of_length hlength]
  rw [UInt64.toNat_ofNat']

/-- A number that is not negative is written as a count is. -/
theorem putInt_eq_putCount {v : Int32} (h : 0 ≤ v.toInt) :
    putInt v = putCount v.toInt.toNat ∧ v.toInt.toNat ≤ greatestLength := by
  have hlt : v.toInt < 2 ^ 31 := Int32.toInt_lt v
  have hle : v.toInt.toNat ≤ greatestLength := by
    show _ ≤ 2 ^ 31 - 1
    omega
  refine ⟨?_, hle⟩
  have hv : v = Int32.ofNat v.toInt.toNat := by
    apply Int32.toInt_inj.mp
    rw [toInt_ofNat hle]
    omega
  have hnat : v.toUInt32.toNat = v.toInt.toNat := by
    have hlow : v.toInt.toNat < 2 ^ 32 := by omega
    rw [congrArg Int32.toUInt32 hv, Int32.toUInt32_ofNat', UInt32.toNat_ofNat',
      Nat.mod_eq_of_lt hlow]
  rw [putInt, putCount, hnat]

theorem getLength_ok {fault : Int32 → FramingCause} {n : Nat}
    (h : getLength fault input = .ok n rest) : input = putCount n ++ rest ∧ n ≤ greatestLength := by
  obtain ⟨v, mid, hv, hdone⟩ := estate_bind_ok.mp h
  obtain rfl := getInt_ok hv
  simp only at hdone
  split at hdone
  · cases hdone
  · next hneg =>
    cases hdone
    rw [Int32.lt_iff_toInt_lt, Int32.toInt_zero] at hneg
    obtain ⟨hput, hle⟩ := putInt_eq_putCount (by omega : 0 ≤ v.toInt)
    rw [hput]
    exact ⟨rfl, hle⟩

private theorem encodeUtf8_of_decodeUtf8 {s : String} (h : Text.decodeUtf8 body = .ok s) :
    Text.encodeUtf8 s = body := by
  rw [Text.decodeUtf8] at h
  split at h
  · next found =>
    cases h
    rw [String.fromUTF8?] at found
    split at found
    · cases found
      rw [Text.encodeUtf8]
      rfl
    · cases found
  · cases h

theorem getText_ok {s : String} (h : getText input = .ok s rest) :
    ∃ bytes, putText s = .ok bytes ∧ input = bytes ++ rest := by
  obtain ⟨n, mid, hlength, hbodyOn⟩ := estate_bind_ok.mp h
  obtain ⟨rfl, hle⟩ := getLength_ok hlength
  obtain ⟨body, mid, htake, hdone⟩ := estate_bind_ok.mp hbodyOn
  obtain ⟨rfl, rfl⟩ := take_ok htake
  cases htext : Text.decodeUtf8 body with
  | error fault =>
    rw [htext] at hdone
    cases hdone
  | ok s' =>
    rw [htext] at hdone
    cases hdone
    refine ⟨putCount body.length ++ body, ?_, (List.append_assoc ..).symm⟩
    rw [putText, encodeUtf8_of_decodeUtf8 htext]
    simp only [if_pos hle]

theorem checkTrailer_ok {frame : List UInt8} (h : checkTrailer frame = .ok body) :
    frame = withTrailer body := by
  rw [checkTrailer] at h
  split at h
  · cases h
  · next received hlast =>
    simp only at h
    split at h
    · next hparity =>
      cases h
      rw [withTrailer, hparity]
      exact (List.dropLast_append_getLast? received hlast).symm
    · cases h

end DatagramRpc.Wire
