/-!
# Moments and spans

A moment is a number of nanoseconds after some fixed one, and may lie before it. Spans are never
negative: the time since a later moment is zero.
-/

namespace DatagramRpc

structure Instant where
  nanos : Int
  deriving DecidableEq, Repr

/-- Nanoseconds. -/
structure Span where
  nanos : Nat
  deriving DecidableEq, Repr

namespace Span

def ofSeconds (n : Nat) : Span := ⟨n * 1000000000⟩

def ofMillis (n : Nat) : Span := ⟨n * 1000000⟩

/-- Whole microseconds. -/
def micros (d : Span) : Nat := d.nanos / 1000

end Span

namespace Instant

/-- The time from an earlier moment. -/
def since (now earlier : Instant) : Span := ⟨(now.nanos - earlier.nanos).toNat⟩

def plus (t : Instant) (nanos : Int) : Instant := ⟨t.nanos + nanos⟩

theorem since_le_since {a b earlier : Instant} (h : a.nanos ≤ b.nanos) :
    (a.since earlier).nanos ≤ (b.since earlier).nanos := by
  simp only [since]
  omega

end Instant

end DatagramRpc
