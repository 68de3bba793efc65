/-!
# Doubles and the numbers near them

What the bits of a double stand for, and the double that is nearest to a quotient.
-/

namespace DatagramRpc.Double

/-! ## The parts of a double

A double as the number that its 64 bits stand for: a sign and `m * 2 ^ q` with whole `m` and `q`, an
infinity, or not a number.
-/

/-- What 64 bits mean as a double. -/
inductive Parts where
  | nan
  | infinite (negative : Bool)
  /-- The magnitude is `m * 2 ^ q`. -/
  | finite (negative : Bool) (m : Nat) (q : Int)
  deriving DecidableEq, Repr

/-- Bits of the fraction field. -/
def fractionBits : Nat := 52

/-- The exponent of the least positive double. -/
def leastExponent : Int := -1074

/-- The bit pattern of positive infinity, above that of every finite magnitude. -/
def infinityBits : Nat := 0x7FF * Nat.pow 2 fractionBits

/-- Subnormal numbers have the least exponent and a fraction without the hidden bit. -/
def Parts.ofBits (bits : UInt64) : Parts :=
  let n := bits.toNat
  let negative := Nat.pow 2 63 ≤ n
  let field := n / Nat.pow 2 fractionBits % 2048
  let fraction := n % Nat.pow 2 fractionBits
  if field = 2047 then
    if fraction = 0 then .infinite negative else .nan
  else if field = 0 then .finite negative fraction leastExponent
  else .finite negative (fraction + Nat.pow 2 fractionBits) (field + leastExponent - 1)

/-- Positive zero. -/
def zeroBits : UInt64 := 0

/-! ## The double nearest to a quotient

Exact rounding of a quotient of natural numbers to a double. Of two doubles that are equally near
the one with the even last bit is taken, and what is too large becomes an infinity.
-/

/-- A quotient rounded to a whole number, a half going to the even neighbour. -/
def roundQuotient (num den : Nat) : Nat :=
  let m := num / den
  let r := num % den
  if 2 * r < den then m
  else if den < 2 * r then m + 1
  else if m % 2 = 0 then m else m + 1

/-- The quotient `num * 2 ^ (-q) / den`, with natural numbers above and below. -/
def scaled (num den : Nat) (q : Int) : Nat × Nat :=
  if 0 ≤ q then (num, den * Nat.pow 2 q.toNat) else (num * Nat.pow 2 (-q).toNat, den)

/-- The exponent at which the quotient has 53 bits before the point, but never below the least. -/
def unitExponent (num den : Nat) : Int :=
  let guess : Int := (num.log2 : Int) - den.log2 - fractionBits
  let s := scaled num den guess
  max leastExponent (if s.1 / s.2 < Nat.pow 2 fractionBits then guess - 1 else guess)

/-- The bits of the double nearest to `num / den`, without a sign. A carry out of the fraction goes
into the exponent field, where it belongs. -/
def nearestMagnitude (num den : Nat) : Nat :=
  if num = 0 then 0
  else
    let q := unitExponent num den
    let s := scaled num den q
    min infinityBits ((q - leastExponent).toNat * Nat.pow 2 fractionBits + roundQuotient s.1 s.2)

/-- The double nearest to `± digits * 10 ^ exponent`, where `digits` has `count` decimal digits, the
first of them not zero. -/
def nearestDecimal (negative : Bool) (digits count : Nat) (exponent : Int) : UInt64 :=
  -- Far outside the range of doubles the power of ten is not worked out.
  let magnitude :=
    if digits = 0 then 0
    else if 400 < exponent + count then infinityBits
    else if exponent + count < -400 then 0
    else if 0 ≤ exponent then nearestMagnitude (digits * Nat.pow 10 exponent.toNat) 1
    else nearestMagnitude digits (Nat.pow 10 (-exponent).toNat)
  UInt64.ofNat (magnitude + if negative then Nat.pow 2 63 else 0)

end DatagramRpc.Double
