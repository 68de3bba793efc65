import DatagramRpc.Double.Nearest
import DatagramRpc.Text.Numeral
import DatagramRpc.Text.Pieces

/-!
# Reading doubles

A decimal numeral is an optional sign, digits with at most one point among or around them and at
least one digit, and an optional exponent; or, in any case of letters, `inf`, `infinity` or `nan`.
It is read as the nearest double.
-/

namespace DatagramRpc.Double

/-- The bits of not-a-number. -/
def nanBits : UInt64 := 0x7FF8000000000000

/-- The value of the digits of an exponent, of which there must be one. Digits after the value has
reached 2^16 are not taken in. -/
def exponentValue (ds : List Char) : Option Nat := do
  let _ ← Text.readDigits 10 ds
  return ds.foldl (fun n c => if n < 65536 then 10 * n + (c.toNat - '0'.toNat) else n) 0

/-- An exponent field after its letter: an optional sign and at least one digit. -/
def readExponent (cs : List Char) : Option Int :=
  match cs with
  | '-' :: ds => (exponentValue ds).map fun n => -(n : Int)
  | '+' :: ds => (exponentValue ds).map Int.ofNat
  | ds => (exponentValue ds).map Int.ofNat

/-- An unsigned decimal numeral as its digits, their count without leading zeros and the power of
ten of the last one. -/
def readMagnitude (cs : List Char) : Option (Nat × Nat × Int) := do
  let whole := cs.takeWhile Char.isDigit
  let rest := cs.dropWhile Char.isDigit
  let (fraction, rest) := match rest with
    | '.' :: r => (r.takeWhile Char.isDigit, r.dropWhile Char.isDigit)
    | r => ([], r)
  let digits ← Text.readDigits 10 (whole ++ fraction)
  let exponent ← match rest with
    | [] => some 0
    | c :: r => if c = 'e' ∨ c = 'E' then readExponent r else none
  return (digits, ((whole ++ fraction).dropWhile (· = '0')).length, exponent - fraction.length)

/-- A numeral after its sign. -/
def readUnsignedNumeral (negative : Bool) (cs : List Char) : Option UInt64 :=
  let word := String.ofList (cs.map Char.toLower)
  let sign : UInt64 := if negative then 0x8000000000000000 else 0
  if word = "nan" then some (nanBits ||| sign)
  else if word = "inf" ∨ word = "infinity" then some (UInt64.ofNat infinityBits ||| sign)
  else (readMagnitude cs).map fun (digits, count, exponent) =>
    nearestDecimal negative digits count exponent

/-- The bits of the double that a numeral stands for. -/
def readNumeral (s : String) : Option UInt64 :=
  match s.toList with
  | '-' :: cs => readUnsignedNumeral true cs
  | '+' :: cs => readUnsignedNumeral false cs
  | cs => readUnsignedNumeral false cs

end DatagramRpc.Double
