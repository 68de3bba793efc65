/-!
# Numerals

Reading and writing whole numbers. An unsigned numeral is an optional plus sign and at least one
ASCII digit, leading zeros allowed, and is refused above a given greatest value.
-/

namespace DatagramRpc.Text

/-- The value of a digit in a base of at most 36. -/
def digitValue (base : Nat) (c : Char) : Option Nat :=
  let n := c.toNat
  let v :=
    if 48 ≤ n && n ≤ 57 then n - 48
    else if 97 ≤ n && n ≤ 122 then n - 87
    else if 65 ≤ n && n ≤ 90 then n - 55
    else 36
  if v < base then some v else none

/-- The value of a string of digits, most significant first; there must be one. -/
def readDigits (base : Nat) (cs : List Char) : Option Nat :=
  match cs with
  | [] => none
  | _ => cs.foldl (fun acc c => do return (← acc) * base + (← digitValue base c)) (some 0)

/-- An unsigned numeral in `base` with value at most `greatest`. -/
def readUnsignedIn (base greatest : Nat) (cs : List Char) : Option Nat :=
  let digits := match cs with
    | '+' :: rest => rest
    | _ => cs
  (readDigits base digits).filter (· ≤ greatest)

/-- An unsigned decimal numeral with value at most `greatest`. -/
def readUnsigned (greatest : Nat) (s : String) : Option Nat :=
  readUnsignedIn 10 greatest s.toList

/-- The decimal digits, with zeros in front up to `width`. -/
def padded (width n : Nat) : String :=
  let ds := Nat.toDigits 10 n
  String.ofList (List.replicate (width - ds.length) '0' ++ ds)

private theorem toList_padded (width n : Nat) : (padded width n).toList =
    List.replicate (width - (Nat.toDigits 10 n).length) '0' ++ Nat.toDigits 10 n :=
  String.toList_ofList ..

/-- Zeros in front do not change a number. -/
theorem padded_injective {width a b : Nat} (h : padded width a = padded width b) : a = b := by
  have hvalue (n : Nat) : Nat.ofDigitChars 10 (padded width n).toList 0 = n := by
    rw [toList_padded, Nat.ofDigitChars_append, Nat.ofDigitChars_replicate_zero, Nat.mul_zero,
      Nat.ofDigitChars_ten_toDigits]
  rw [← hvalue a, h, hvalue b]

theorem length_padded {width n : Nat} (hwidth : 0 < width) (h : n < Nat.pow 10 width) :
    (padded width n).toList.length = width := by
  have hle := (Nat.length_toDigits_le_iff (by decide : 1 < 10) hwidth).mpr h
  rw [toList_padded, List.length_append, List.length_replicate]
  omega

theorem isDigit_of_mem_padded {width n : Nat} {c : Char} (h : c ∈ (padded width n).toList) :
    c.isDigit = true := by
  rw [toList_padded] at h
  rcases List.mem_append.mp h with h | h
  · rw [(List.mem_replicate.mp h).2]
    rfl
  · exact Nat.isDigit_of_mem_toDigits (by decide) (by decide) h

/-- A byte as two hexadecimal digits. -/
def hexByte (b : UInt8) : String :=
  String.ofList [Nat.digitChar (b.toNat / 16), Nat.digitChar (b.toNat % 16)]

/-- The greatest value of an unsigned number of `bits` bits. -/
def greatestUnsigned (bits : Nat) : Nat := Nat.pow 2 bits - 1

end DatagramRpc.Text
