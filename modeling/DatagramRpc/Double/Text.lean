import DatagramRpc.Double.Nearest

/-!
# Doubles as text

The shortest decimal that reads back, and the forms in which doubles are written.
-/

namespace DatagramRpc.Double

/-! ## The shortest decimal of a double

The decimal with the fewest digits that still reads back as the given double, and the nearest such.
A double is the nearest one to every number of an interval around it; the ends belong to the
interval when the last bit of the double is even. On each decimal grid, coarse to fine, only the two
neighbours of the double are tried.
-/

/-- A decimal `digits * 10 ^ exponent`. -/
structure Decimal where
  digits : Nat
  exponent : Int
  deriving DecidableEq, Repr

/-- The quotient of `n * 2 ^ q` and `10 ^ k`, with natural numbers above and below. -/
def overGrid (n : Nat) (q k : Int) : Nat × Nat :=
  let num := n * Nat.pow 2 q.toNat * Nat.pow 10 (-k).toNat
  let den := Nat.pow 2 (-q).toNat * Nat.pow 10 k.toNat
  (num, den)

/-- A magnitude `m * 2 ^ q` with the interval of the numbers that are read as it, in quarters of the
last bit. -/
structure Reach where
  low : Nat
  mid : Nat
  high : Nat
  /-- The exponent of two of the quarters. -/
  exponent : Int
  closed : Bool

def Reach.of (m : Nat) (q : Int) : Reach where
  -- Below, the interval is narrower when a smaller exponent begins there.
  low := if m = Nat.pow 2 fractionBits ∧ leastExponent < q then 4 * m - 1 else 4 * m - 2
  mid := 4 * m
  high := 4 * m + 2
  exponent := q - 2
  closed := m % 2 == 0

/-- Whether `d * 10 ^ k` is in the interval. -/
def Reach.holds (r : Reach) (d : Nat) (k : Int) : Bool :=
  let lo := overGrid r.low r.exponent k
  let hi := overGrid r.high r.exponent k
  let n := d * lo.2
  if r.closed then lo.1 ≤ n && n ≤ hi.1 else lo.1 < n && n < hi.1

/-- The neighbours of the magnitude on the grid `10 ^ k` that are in its interval, the nearer if
both are; of two that are equally near, the larger. -/
def Reach.onGrid (r : Reach) (k : Int) : Option Nat :=
  let v := overGrid r.mid r.exponent k
  let d := v.1 / v.2
  let up := v.2 ≤ 2 * (v.1 % v.2)
  match r.holds d k && d != 0, r.holds (d + 1) k with
  | true, true => some (if up then d + 1 else d)
  | true, false => some d
  | false, true => some (d + 1)
  | false, false => none

/-- The greatest `e` in a range below `start` with `10 ^ e` at most the magnitude. -/
def leadingExponent (n : Nat) (q : Int) : Nat → Int → Int
  | 0, e => e
  | steps + 1, e =>
    let v := overGrid n q e
    if v.2 ≤ v.1 then e else leadingExponent n q steps (e - 1)

/-- Digits without their trailing zeros. -/
def stripZeros : Nat → Decimal → Decimal
  | 0, d => d
  | steps + 1, d =>
    if d.digits % 10 = 0 ∧ d.digits ≠ 0 then stripZeros steps ⟨d.digits / 10, d.exponent + 1⟩ else d

/-- Grids from coarse to fine, beginning at `10 ^ k`. -/
def Reach.search (r : Reach) : Nat → Int → Option Decimal
  | 0, _ => none
  | steps + 1, k =>
    match r.onGrid k with
    | some d => some (stripZeros 20 ⟨d, k⟩)
    | none => r.search steps (k - 1)

/-- Seventeen digits are always enough. -/
def shortest (m : Nat) (q : Int) : Decimal :=
  if m = 0 then ⟨0, 0⟩
  else
    let r := Reach.of m q
    -- log10 of 2 is a little below 30103 / 100000
    let guess := ((m.log2 : Int) + q) * 30103 / 100000 + 1
    let e := leadingExponent m q 3 guess
    (r.search 18 e).getD ⟨0, 0⟩

/-! ## Written forms

Three written forms. `plain` has the shortest digits that read back and never an exponent; `tagged`
shows that the number is a double, by a point or by an exponent; `fixed` has a given number of
places and rounds the exact value, a half going to the even digit.
-/

def signed (negative : Bool) (s : String) : String := if negative then "-" ++ s else s

/-- The digits of a decimal with the point in its place, and no point when there is no fraction. -/
def positional (d : Decimal) : String :=
  let ds := Nat.toDigits 10 d.digits
  if 0 ≤ d.exponent then String.ofList (ds ++ List.replicate d.exponent.toNat '0')
  else
    let places := (-d.exponent).toNat
    let ds := List.replicate (places + 1 - ds.length) '0' ++ ds
    let whole := ds.take (ds.length - places)
    String.ofList (whole ++ ['.'] ++ ds.drop (ds.length - places))

/-- One digit before the point, and a power of ten. -/
def scientific (d : Decimal) : String :=
  let ds := Nat.toDigits 10 d.digits
  let power : Int := d.exponent + ds.length - 1
  let fraction := match ds.drop 1 with
    | [] => []
    | r => '.' :: r
  String.ofList (ds.take 1 ++ fraction ++ ['e']) ++ toString power

/-- The shortest digits, without exponent and without a point when the number is whole. -/
def plain (bits : UInt64) : String :=
  match Parts.ofBits bits with
  | .nan => "NaN"
  | .infinite negative => signed negative "inf"
  | .finite negative m q => signed negative (positional (shortest m q))

/-- The shortest digits, with a point or an exponent: the exponent from 10^16 on, and for what is
below 10^-4. -/
def tagged (bits : UInt64) : String :=
  match Parts.ofBits bits with
  | .nan => "NaN"
  | .infinite negative => signed negative "inf"
  | .finite negative m q =>
    let d := shortest m q
    let power : Int := d.exponent + (Nat.toDigits 10 d.digits).length - 1
    signed negative <|
      if m ≠ 0 ∧ (power < -4 ∨ 16 ≤ power) then scientific d
      else if 0 ≤ d.exponent then positional d ++ ".0"
      else positional d

/-- Exactly `places` digits after the point. -/
def fixed (places : Nat) (bits : UInt64) : String :=
  match Parts.ofBits bits with
  | .nan => "NaN"
  | .infinite negative => signed negative "inf"
  | .finite negative m q =>
    let n := roundQuotient (m * Nat.pow 10 places * Nat.pow 2 q.toNat) (Nat.pow 2 (-q).toNat)
    let ds := Nat.toDigits 10 n
    let ds := List.replicate (places + 1 - ds.length) '0' ++ ds
    let cut := ds.length - places
    signed negative <| String.ofList <|
      ds.take cut ++ (if places = 0 then [] else '.' :: ds.drop cut)

end DatagramRpc.Double
