import DatagramRpc.Fault

/-!
# Writing bytes

Numbers as bytes of a fixed width, and the values that are written with them.
-/

namespace DatagramRpc.Wire

/-! ## Big-endian bytes

A number below `256 ^ width` as `width` bytes, most significant first, and back. The two directions
are inverse to each other on these numbers and on byte lists of this length.
-/

/-- The low `width` bytes of a number, most significant first. -/
def bigEndian : Nat → Nat → List UInt8
  | 0, _ => []
  | width + 1, n => bigEndian width (n / 256) ++ [UInt8.ofNat n]

/-- The number that the bytes spell. -/
def ofBigEndian (bs : List UInt8) : Nat := bs.foldl (fun acc b => acc * 256 + b.toNat) 0

@[simp] theorem length_bigEndian (width n : Nat) : (bigEndian width n).length = width := by
  induction width generalizing n with
  | zero => rfl
  | succ width ih => simp [bigEndian, ih]

private theorem ofBigEndian_concat (bs : List UInt8) (b : UInt8) :
    ofBigEndian (bs ++ [b]) = ofBigEndian bs * 256 + b.toNat := by
  simp [ofBigEndian]

theorem ofBigEndian_bigEndian (width n : Nat) :
    ofBigEndian (bigEndian width n) = n % Nat.pow 256 width := by
  induction width generalizing n with
  | zero => simp [bigEndian, ofBigEndian, Nat.mod_one]
  | succ width ih =>
    have hp : Nat.pow 256 (width + 1) = 256 * Nat.pow 256 width := Nat.mul_comm _ _
    rw [bigEndian, ofBigEndian_concat, ih, hp, Nat.mod_mul, Nat.mul_comm, Nat.add_comm,
      UInt8.toNat_ofNat']

theorem bigEndian_ofBigEndian (bs : List UInt8) : bigEndian bs.length (ofBigEndian bs) = bs := by
  suffices h : ∀ rs : List UInt8, bigEndian rs.length (ofBigEndian rs.reverse) = rs.reverse by
    simpa using h bs.reverse
  intro rs
  induction rs with
  | nil => rfl
  | cons b rs ih =>
    have hb : b.toNat < 256 := b.toNat_lt
    have hdiv : (ofBigEndian rs.reverse * 256 + b.toNat) / 256 = ofBigEndian rs.reverse := by omega
    have hlow : UInt8.ofNat (ofBigEndian rs.reverse * 256 + b.toNat) = b := by
      apply UInt8.toNat_inj.mp
      rw [UInt8.toNat_ofNat']
      omega
    rw [List.length_cons, List.reverse_cons, bigEndian, ofBigEndian_concat, hdiv, hlow, ih]

theorem ofBigEndian_lt (bs : List UInt8) : ofBigEndian bs < Nat.pow 256 bs.length := by
  rw [← bigEndian_ofBigEndian bs, ofBigEndian_bigEndian, length_bigEndian]
  exact Nat.mod_lt _ (Nat.pow_pos (by decide))

/-! ## Writing values as bytes

Every number has a fixed width and stands most significant byte first. A text is its length in
bytes, as a number of 32 bits, and then its UTF-8 bytes.
-/

/-- The greatest length that 32 signed bits can hold. -/
def greatestLength : Nat := Nat.pow 2 31 - 1

/-- The 32 low bits of a count. -/
def putCount (n : Nat) : List UInt8 := bigEndian 4 n

def putInt (v : Int32) : List UInt8 := bigEndian 4 v.toUInt32.toNat

def putLong (v : Int64) : List UInt8 := bigEndian 8 v.toUInt64.toNat

def putDouble (bits : UInt64) : List UInt8 := bigEndian 8 bits.toNat

/-- A text that is too long for its length field cannot be written. -/
def putText (s : String) : Except Fault (List UInt8) :=
  let body := Text.encodeUtf8 s
  if body.length ≤ greatestLength then .ok (putCount body.length ++ body)
  else .error (.framing (.textTooLong body.length))

/-- A value that the byte codec can write. -/
inductive Item where
  | byte (v : UInt8)
  | int (v : Int32)
  | long (v : Int64)
  | double (bits : UInt64)
  | text (v : String)
  deriving DecidableEq, Repr

def Item.put : Item → Except Fault (List UInt8)
  | byte v => .ok [v]
  | int v => .ok (putInt v)
  | long v => .ok (putLong v)
  | double bits => .ok (putDouble bits)
  | text v => putText v

/-- The items one after another. -/
def putItems (items : List Item) : Except Fault (List UInt8) := do
  return (← items.mapM Item.put).flatten

end DatagramRpc.Wire
