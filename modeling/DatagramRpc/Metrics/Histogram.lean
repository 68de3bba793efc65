import DatagramRpc.Metrics.Counter
import DatagramRpc.Metrics.Listing
import DatagramRpc.Server.Time

/-!
# Histograms

For each series the number and the sum of the spans observed, in whole microseconds, and for each
bound how many were not above it. Numbers and sums are modulo 2^64; a single span counts for at most
2^64 - 1.
-/

namespace DatagramRpc.Metrics

/-- From a tenth of a millisecond to a second. -/
def bucketBounds : List Nat := [100, 500, 1000, 5000, 10000, 50000, 100000, 500000, 1000000]

/-- What was observed in one series. -/
structure Observed where
  count : UInt64
  sum : UInt64
  /-- For each bound, the observations not above it. -/
  buckets : List UInt64
  deriving DecidableEq, Repr

namespace Observed

def none : Observed := ⟨0, 0, bucketBounds.map fun _ => 0⟩

/-- The microseconds that a span counts for. -/
def measure (d : Span) : Nat := min d.micros (UInt64.size - 1)

def add (o : Observed) (d : Span) : Observed where
  count := o.count + 1
  sum := o.sum + UInt64.ofNat (measure d)
  buckets := (bucketBounds.zip o.buckets).map fun b => if measure d ≤ b.1 then b.2 + 1 else b.2

/-- What stands for a series: each bucket, the total, the sum and the count. -/
def render (o : Observed) (name labels : String) : List String :=
  let opening := if labels.isEmpty then "" else labels ++ ","
  let bucket (bound : String) (n : UInt64) : String :=
    name ++ "_bucket" ++ braced (opening ++ "le=\"" ++ bound ++ "\"") ++ " " ++ toString n.toNat
  -- the sum and the count keep their braces even when there are no labels
  let total (suffix : String) (n : UInt64) : String :=
    name ++ suffix ++ "\x7b" ++ labels ++ "\x7d " ++ toString n.toNat
  (bucketBounds.zip o.buckets).map (fun b => bucket (toString b.1) b.2) ++
    [bucket "+Inf" o.count, total "_sum" o.sum, total "_count" o.count]

end Observed

structure Histogram where
  series : Series Observed
  deriving DecidableEq, Repr

namespace Histogram

def empty : Histogram := ⟨[]⟩

def observe (h : Histogram) (labels : Labels) (d : Span) : Histogram :=
  ⟨h.series.update .none labels (·.add d)⟩

def count (h : Histogram) (labels : Labels) : UInt64 :=
  ((h.series.get? labels).map (·.count)).getD 0

/-- The heading, and what stands for each series. -/
def render (h : Histogram) (name : String) : List String :=
  heading name "histogram" :: h.series.flatMap fun e => e.2.render name e.1.render

end Histogram

end DatagramRpc.Metrics
