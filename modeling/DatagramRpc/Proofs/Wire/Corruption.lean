import DatagramRpc.Wire.Parity
import Mathlib.Data.Nat.Bitwise

/-!
# What the parity trailer catches

Bits of a frame that are turned over are a pattern of the same length, and the frame with them is
the exclusive or of the two. The number of set bits of an exclusive or is, up to an even number, the
sum of both numbers. So whether the trailer is still right does not depend on the frame: it is right
exactly if the pattern would itself be a frame, with its last byte as the parity of the bytes
before.

A frame that is refused is refused with the parity that was computed and the trailer that was
received. An odd number of errors in the body beside a sound trailer is detected, and so is every
single bit that is turned over and every wrong trailer behind a sound body. The parity is that of
any counter of set bits with 32 bits.
-/

namespace DatagramRpc.Wire

variable {body errors frame pattern : List UInt8} {last : UInt8}

/-- A frame in which the bits of a pattern are turned over. -/
def corrupt (frame pattern : List UInt8) : List UInt8 := List.zipWith (· ^^^ ·) frame pattern

/-- A frame is refused for its trailer. The fault tells the parity of what has come in as the body,
and the trailer that has come in. -/
def Detected (frame : List UInt8) : Prop :=
  ∃ body received, frame = body ++ [received] ∧
    checkTrailer frame = .error (.integrity (parity body) received)

/-! ## Counting bits -/

/-- A bit is set in an exclusive or if it is set in one of the two, and a common bit counts
twice. -/
theorem lowSetBits_xor (width m n : Nat) :
    lowSetBits width (m ^^^ n) % 2 = (lowSetBits width m + lowSetBits width n) % 2 := by
  induction width generalizing m n with
  | zero => rfl
  | succ width ih =>
    have hlow : (m ^^^ n) % 2 = (m + n) % 2 := Nat.xor_mod_two_eq
    have hhigh := ih (m / 2) (n / 2)
    simp only [lowSetBits, Nat.xor_div_two]
    omega

private theorem setBits_xor (a b : UInt8) :
    setBits (a ^^^ b) % 2 = (setBits a + setBits b) % 2 := by
  rw [setBits, UInt8.toNat_xor]
  exact lowSetBits_xor 8 a.toNat b.toNat

private theorem totalSetBits_eq_sum (bs : List UInt8) : totalSetBits bs = (bs.map setBits).sum := by
  suffices h : ∀ start, bs.foldl (fun acc b => acc + setBits b) start =
    start + (bs.map setBits).sum by
    rw [totalSetBits, h, Nat.zero_add]
  induction bs with
  | nil => exact fun start => rfl
  | cons b bs ih =>
    intro start
    rw [List.foldl_cons, ih, List.map_cons, List.sum_cons, Nat.add_assoc]

private theorem totalSetBits_cons (b : UInt8) (bs : List UInt8) :
    totalSetBits (b :: bs) = setBits b + totalSetBits bs := by
  simp only [totalSetBits_eq_sum, List.map_cons, List.sum_cons]

private theorem totalSetBits_append (bs bs' : List UInt8) :
    totalSetBits (bs ++ bs') = totalSetBits bs + totalSetBits bs' := by
  simp only [totalSetBits_eq_sum, List.map_append, List.sum_append]

private theorem totalSetBits_zeros (n : Nat) : totalSetBits (List.replicate n 0) = 0 := by
  have hzero : setBits 0 = 0 := by decide
  rw [totalSetBits_eq_sum, List.map_replicate, hzero, List.sum_replicate_nat, Nat.mul_zero]

private theorem totalSetBits_corrupt (h : pattern.length = frame.length) :
    totalSetBits (corrupt frame pattern) % 2 = (totalSetBits frame + totalSetBits pattern) % 2 := by
  induction frame generalizing pattern with
  | nil =>
    obtain rfl := List.eq_nil_of_length_eq_zero h
    rfl
  | cons b frame ih =>
    obtain ⟨e, pattern, rfl⟩ := List.exists_cons_of_length_eq_add_one h
    have hrest := ih (Nat.succ.inj h)
    have hfirst := setBits_xor b e
    rw [corrupt] at hrest ⊢
    simp only [List.zipWith_cons_cons, totalSetBits_cons]
    omega

/-! ## Parity -/

/-- Equal parity is an equal remainder of the number of set bits. -/
theorem parity_eq_parity {bs bs' : List UInt8} :
    parity bs = parity bs' ↔ totalSetBits bs % 2 = totalSetBits bs' % 2 := by
  constructor
  · intro h
    have hlow : ∀ n, n % 2 % 256 = n % 2 := fun n => by omega
    have hnat := congrArg UInt8.toNat h
    rwa [parity, parity, UInt8.toNat_ofNat', UInt8.toNat_ofNat', hlow, hlow] at hnat
  · intro h
    rw [parity, h, parity]

private theorem parity_cases (bs : List UInt8) :
    (totalSetBits bs % 2 = 0 ∧ parity bs = 0) ∨ (totalSetBits bs % 2 = 1 ∧ parity bs = 1) := by
  rcases Nat.mod_two_eq_zero_or_one (totalSetBits bs) with h | h
  · left
    rw [parity, h]
    exact ⟨rfl, rfl⟩
  · right
    rw [parity, h]
    exact ⟨rfl, rfl⟩

private theorem parity_corrupt (h : pattern.length = frame.length) :
    parity (corrupt frame pattern) = parity frame ^^^ parity pattern := by
  have hsum : ∀ m n : Nat, UInt8.ofNat ((m + n) % 2) =
      UInt8.ofNat (m % 2) ^^^ UInt8.ofNat (n % 2) := by
    intro m n
    rw [Nat.add_mod]
    rcases Nat.mod_two_eq_zero_or_one m with hm | hm <;>
      rcases Nat.mod_two_eq_zero_or_one n with hn | hn <;> rw [hm, hn] <;> rfl
  rw [parity, totalSetBits_corrupt h, hsum, parity, parity]

/-- The number of set bits in 32 bits, which starts again at zero after the last number. -/
def countedSetBits (bs : List UInt8) : UInt32 :=
  bs.foldl (fun acc b => acc + UInt32.ofNat (setBits b)) 0

private theorem toNat_countedSetBits (bs : List UInt8) :
    (countedSetBits bs).toNat = totalSetBits bs % 2 ^ 32 := by
  suffices h : ∀ start : UInt32,
      (bs.foldl (fun acc b => acc + UInt32.ofNat (setBits b)) start).toNat =
      (start.toNat + totalSetBits bs) % 2 ^ 32 by
    rw [countedSetBits, h, UInt32.toNat_zero, Nat.zero_add]
  induction bs with
  | nil => exact fun start => (Nat.mod_eq_of_lt start.toNat_lt).symm
  | cons b bs ih =>
    intro start
    rw [List.foldl_cons, ih, UInt32.toNat_add, UInt32.toNat_ofNat', totalSetBits_cons]
    omega

/-- Starting again leaves the parity as it is. -/
theorem parity_eq_counted (bs : List UInt8) : parity bs = (countedSetBits bs &&& 1).toUInt8 := by
  apply UInt8.toNat_inj.mp
  rw [UInt32.toNat_toUInt8, UInt32.toNat_and, toNat_countedSetBits, UInt32.toNat_one,
    Nat.and_one_is_mod, parity, UInt8.toNat_ofNat']
  omega

/-! ## Frames with errors -/

private theorem checkTrailer_concat (bs : List UInt8) (received : UInt8) :
    checkTrailer (bs ++ [received]) =
      if parity bs = received then .ok bs else .error (.integrity (parity bs) received) := by
  rw [checkTrailer, List.getLast?_concat]
  simp only [List.dropLast_concat]

private theorem detected_of_ne {bs : List UInt8} {received : UInt8} (h : parity bs ≠ received) :
    Detected (bs ++ [received]) :=
  ⟨bs, received, rfl, by rw [checkTrailer_concat, if_neg h]⟩

private theorem corrupt_withTrailer (h : errors.length = body.length) (last : UInt8) :
    corrupt (withTrailer body) (errors ++ [last]) = corrupt body errors ++ [parity body ^^^ last] :=
  List.zipWith_append h.symm

/-- What the trailer says of a frame with errors: it is right if the last error is the parity of the
others. -/
theorem parity_corrupt_eq_iff (h : errors.length = body.length) (last : UInt8) :
    parity (corrupt body errors) = parity body ^^^ last ↔ last = parity errors := by
  rw [parity_corrupt h, UInt8.xor_right_inj]
  exact eq_comm

/-- Errors that the trailer does not show are even in number. -/
theorem even_of_undetected (h : last = parity errors) :
    totalSetBits (errors ++ [last]) % 2 = 0 := by
  rw [totalSetBits_append, h]
  have hzero : totalSetBits [0] = 0 := by decide
  have hone : totalSetBits [1] = 1 := by decide
  rcases parity_cases errors with ⟨hcount, hparity⟩ | ⟨hcount, hparity⟩
  · rw [hparity, hzero]
    omega
  · rw [hparity, hone]
    omega

/-- A pattern for a frame has errors for the body and one for the trailer. -/
theorem exists_errors (h : pattern.length = (withTrailer body).length) :
    ∃ errors last, pattern = errors ++ [last] ∧ errors.length = body.length := by
  rw [withTrailer, List.length_append, List.length_singleton] at h
  rcases List.eq_nil_or_concat pattern with rfl | ⟨errors, last, rfl⟩
  · cases h
  · rw [List.concat_eq_append, List.length_append, List.length_singleton] at h
    exact ⟨errors, last, List.concat_eq_append, Nat.succ.inj h⟩

/-- An odd number of errors never goes unnoticed. -/
theorem detected_of_odd (hlength : pattern.length = (withTrailer body).length)
    (hodd : totalSetBits pattern % 2 = 1) : Detected (corrupt (withTrailer body) pattern) := by
  obtain ⟨errors, last, rfl, herrors⟩ := exists_errors hlength
  rw [corrupt_withTrailer herrors]
  apply detected_of_ne
  intro he
  have heven := even_of_undetected ((parity_corrupt_eq_iff herrors _).mp he)
  omega

/-! ## One bit -/

private theorem length_flipBit (bs : List UInt8) (i : Nat) : (flipBit bs i).length = bs.length :=
  List.length_modify ..

/-- Turning over one bit is the pattern of that bit alone. -/
theorem flipBit_eq_corrupt (bs : List UInt8) (i : Nat) :
    flipBit bs i = corrupt bs (flipBit (List.replicate bs.length 0) i) := by
  suffices h : ∀ (k : Nat) (mask : UInt8), bs.modify k (· ^^^ mask) =
      corrupt bs ((List.replicate bs.length 0).modify k (· ^^^ mask)) from h (i / 8) _
  have hnone : ∀ bs : List UInt8, corrupt bs (List.replicate bs.length 0) = bs := by
    intro bs
    induction bs with
    | nil => rfl
    | cons b bs ih =>
      rw [corrupt] at ih ⊢
      rw [List.length_cons, List.replicate_succ, List.zipWith_cons_cons, ih, UInt8.xor_zero]
  intro k mask
  induction bs generalizing k with
  | nil => cases k <;> rfl
  | cons b bs ih =>
    rw [List.length_cons, List.replicate_succ]
    cases k with
    | zero =>
      have hrest := hnone bs
      rw [corrupt] at hrest ⊢
      rw [List.modify_zero_cons, List.modify_zero_cons, List.zipWith_cons_cons,
        hrest, UInt8.zero_xor]
    | succ k =>
      have hrest := ih k
      rw [corrupt] at hrest ⊢
      rw [List.modify_succ_cons, List.modify_succ_cons, List.zipWith_cons_cons,
        hrest, UInt8.xor_zero]

/-- A single bit is one bit. -/
theorem totalSetBits_flipBit_zeros {n i : Nat} (h : i < 8 * n) :
    totalSetBits (flipBit (List.replicate n 0) i) = 1 := by
  have hbit : ∀ k < 8, setBits ((0 : UInt8) ^^^ (1 <<< UInt8.ofNat k)) = 1 := by decide
  have hmask : setBits ((0 : UInt8) ^^^ (1 <<< UInt8.ofNat (i % 8))) = 1 :=
    hbit _ (Nat.mod_lt _ (by decide))
  have hplace : i / 8 < n := by omega
  suffices hall : ∀ k < n, totalSetBits ((List.replicate n 0).modify k fun b =>
      b ^^^ (1 <<< UInt8.ofNat (i % 8))) = 1 from hall _ hplace
  clear hplace h
  induction n with
  | zero => exact fun k hk => absurd hk (Nat.not_lt_zero k)
  | succ n ih =>
    intro k hk
    rw [List.replicate_succ]
    cases k with
    | zero => rw [List.modify_zero_cons, totalSetBits_cons, hmask, totalSetBits_zeros]
    | succ k =>
      have hzero : setBits 0 = 0 := by decide
      rw [List.modify_succ_cons, totalSetBits_cons, hzero, ih k (Nat.lt_of_succ_lt_succ hk)]

private theorem detected_flipBit {i : Nat} (h : i < 8 * (withTrailer body).length) :
    Detected (flipBit (withTrailer body) i) := by
  rw [flipBit_eq_corrupt]
  apply detected_of_odd
  · rw [length_flipBit, List.length_replicate]
  · rw [totalSetBits_flipBit_zeros h]

/-! ## All errors -/

/-- **Exactly which errors the trailer catches**: all but those whose last byte is the parity of the
errors in the body. -/
theorem trailer_catches (hlength : pattern.length = (withTrailer body).length) :
    (checkTrailer (corrupt (withTrailer body) pattern) = .ok (corrupt body pattern.dropLast) ↔
      pattern.getLast? = some (parity pattern.dropLast)) ∧
    (pattern.getLast? ≠ some (parity pattern.dropLast) →
      Detected (corrupt (withTrailer body) pattern)) ∧
    (totalSetBits pattern.dropLast % 2 = 1 → pattern.getLast? = some 0 →
      Detected (corrupt (withTrailer body) pattern)) ∧
    (∀ i < 8 * (withTrailer body).length, Detected (flipBit (withTrailer body) i)) ∧
    (∀ received ≠ parity body, Detected (body ++ [received])) ∧
    parity body = (countedSetBits body &&& 1).toUInt8 := by
  obtain ⟨errors, last, rfl, herrors⟩ := exists_errors hlength
  have hright := parity_corrupt_eq_iff herrors last
  refine ⟨?_, ?_, ?_, fun i hi => detected_flipBit hi, fun received hne => detected_of_ne hne.symm,
    parity_eq_counted body⟩
  · rw [corrupt_withTrailer herrors, List.dropLast_concat, List.getLast?_concat,
      checkTrailer_concat, Option.some_inj]
    by_cases he : last = parity errors
    · rw [if_pos (hright.mpr he)]
      exact ⟨fun _ => he, fun _ => rfl⟩
    · rw [if_neg fun hp => he (hright.mp hp)]
      exact ⟨fun hp => (nomatch hp), fun hp => absurd hp he⟩
  · intro hne
    rw [List.dropLast_concat, List.getLast?_concat, ne_eq, Option.some_inj] at hne
    rw [corrupt_withTrailer herrors]
    exact detected_of_ne fun hp => hne (hright.mp hp)
  · intro hodd hsound
    rw [List.dropLast_concat] at hodd
    rw [List.getLast?_concat, Option.some_inj] at hsound
    apply detected_of_odd hlength
    rw [totalSetBits_append, hsound, show totalSetBits [0] = 0 by decide]
    exact hodd

/-- Two errors in one byte pass, and with a third one in the trailer they do not. -/
theorem trailer_catches_sample :
    checkTrailer (corrupt (withTrailer [0x12, 0xFF]) [0x00, 0x81, 0x00]) = .ok [0x12, 0x7E] ∧
      Detected (corrupt (withTrailer [0x12, 0xFF]) [0x00, 0x81, 0x04]) := by
  have hlength : ([0x00, 0x81, 0x00] : List UInt8).length = (withTrailer [0x12, 0xFF]).length := rfl
  have hlength' : ([0x00, 0x81, 0x04] : List UInt8).length = (withTrailer [0x12, 0xFF]).length :=
    rfl
  have hpass := trailer_catches hlength
  have hcaught := trailer_catches hlength'
  exact ⟨hpass.1.mpr (by decide), hcaught.2.1 (by decide)⟩

end DatagramRpc.Wire
