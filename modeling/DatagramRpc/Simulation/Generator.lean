/-!
# A generator of numbers

A counter whose steps are mixed. The same seed gives the same numbers.
-/

namespace DatagramRpc

structure Generator where
  counter : UInt64
  deriving DecidableEq, Repr

namespace Generator

def seeded (seed : UInt64) : Generator := ⟨seed⟩

/-- Spreads every bit of a number over all of them. -/
def mix (z : UInt64) : UInt64 :=
  let z := (z ^^^ (z >>> 30)) * 0xBF58476D1CE4E5B9
  let z := (z ^^^ (z >>> 27)) * 0x94D049BB133111EB
  z ^^^ (z >>> 31)

/-- What the counter goes up by. -/
def stride : UInt64 := 0x9E3779B97F4A7C15

def next (g : Generator) : UInt64 × Generator :=
  let counter := g.counter + stride
  (mix counter, ⟨counter⟩)

/-- The generator after so many numbers. -/
def skip (g : Generator) (n : Nat) : Generator := ⟨g.counter + UInt64.ofNat n * stride⟩

theorem skip_succ (g : Generator) (n : Nat) : g.skip (n + 1) = (g.skip n).next.2 := by
  simp [skip, next, UInt64.ofNat_add, UInt64.add_mul, UInt64.add_assoc]

/-- A number from 0 up to but not including 1, of 53 bits. -/
def unit (g : Generator) : Float × Generator :=
  let (n, g) := g.next
  (Float.ofNat (n >>> 11).toNat / 9007199254740992.0, g)

/-- A number from `least` to `greatest`. -/
def between (least greatest : Nat) (g : Generator) : Nat × Generator :=
  let (n, g) := g.next
  (least + n.toNat % (greatest - least + 1), g)

theorem le_between (least greatest : Nat) (g : Generator) : least ≤ (between least greatest g).1 :=
  Nat.le_add_right ..

theorem between_le {least greatest : Nat} (h : least ≤ greatest) (g : Generator) :
    (between least greatest g).1 ≤ greatest := by
  have := Nat.mod_lt (g.next.1.toNat) (show 0 < greatest - least + 1 by omega)
  simp only [between]
  omega

end Generator

end DatagramRpc
