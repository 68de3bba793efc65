import DatagramRpc.Config.Settings
import DatagramRpc.Server.Time
import DatagramRpc.Simulation.Generator

/-!
# Simulated faults

Datagrams that are lost before they are processed, and slow processing. A share of at most zero
loses nothing and one of at least one loses everything, without drawing a number.
-/

namespace DatagramRpc

structure Disturbance where
  /-- The share of datagrams to lose, from 0 to 1, or not a number. -/
  dropRate : Float
  /-- The bounds of the delay, in milliseconds. -/
  minDelay : Nat
  maxDelay : Nat
  delay_le : minDelay ≤ maxDelay
  generator : Generator

namespace Disturbance

/-- The nearest share from 0 to 1. What is not a number stays as it is. -/
def clamped (rate : Float) : Float :=
  if rate < 0.0 then 0.0 else if 1.0 < rate then 1.0 else rate

/-- A simulation; a greatest delay below the least counts as the least. -/
def of (s : Config.Simulation) (g : Generator) : Disturbance where
  dropRate := clamped s.dropRate
  minDelay := s.minDelay
  maxDelay := max s.maxDelay s.minDelay
  delay_le := Nat.le_max_right ..
  generator := g

/-- Nothing is lost and nothing delayed. -/
def disabled : Disturbance := of .default (.seeded 0)

def isActive (d : Disturbance) : Bool := decide (0.0 < d.dropRate) || decide (0 < d.maxDelay)

/-- Whether the next datagram is lost. -/
def rollDrop (d : Disturbance) : Bool × Disturbance :=
  if d.dropRate ≤ 0.0 then (false, d)
  else if 1.0 ≤ d.dropRate then (true, d)
  else
    let (u, generator) := d.generator.unit
    (decide (u < d.dropRate), { d with generator })

/-- How long the next datagram is delayed. -/
def rollDelay (d : Disturbance) : Span × Disturbance :=
  if d.maxDelay = d.minDelay then (.ofMillis d.minDelay, d)
  else
    let (n, generator) := d.generator.between d.minDelay d.maxDelay
    (.ofMillis n, { d with generator })

/-- The loss and the delay of so many datagrams in a row. -/
def rolls : Nat → Disturbance → List (Bool × Span)
  | 0, _ => []
  | n + 1, d =>
    let (lost, d) := d.rollDrop
    let (delay, d) := d.rollDelay
    (lost, delay) :: rolls n d

theorem rollDelay_bounds (d : Disturbance) :
    (Span.ofMillis d.minDelay).nanos ≤ d.rollDelay.1.nanos ∧
      d.rollDelay.1.nanos ≤ (Span.ofMillis d.maxDelay).nanos := by
  simp only [rollDelay, Span.ofMillis]
  have := d.delay_le
  split
  · simp only
    omega
  · have h1 := Generator.le_between d.minDelay d.maxDelay d.generator
    have h2 := Generator.between_le d.delay_le d.generator
    simp only
    omega

end Disturbance

end DatagramRpc
