import Vivarium.Engine.Config

/-! # Measuring ticks

The meter counts the ticks of an engine, takes the time between the starts of the last two, and once
a second publishes how many ticks the second held. Times are kept in 64 bits of nanoseconds.
-/

namespace Vivarium

/-- What actions are told about the ticks. -/
structure TickReport where
  ticksPerSecond : Nat
  interval : Nat
  delta : Nat
  measured : Nat
  count : Nat
  deriving DecidableEq, Repr, Inhabited

structure TickMeter where
  ticksPerSecond : Nat
  delta : Nat := 0
  measured : Nat := 0
  count : Nat := 0
  started : Bool := false
  lastStart : Nat := 0
  windowStart : Nat := 0
  inWindow : Nat := 0
  deriving DecidableEq, Repr

namespace TickMeter

def interval (m : TickMeter) : Nat := EngineConfig.tickInterval m.ticksPerSecond

def report (m : TickMeter) : TickReport :=
  ⟨m.ticksPerSecond, m.interval, m.delta, m.measured, m.count⟩

/-- The first tick opens the first window. A tick that starts a second or more after the window
opened publishes the count of the window and opens the next. -/
def beginTick (now : Nat) (m : TickMeter) : TickMeter :=
  let start := now % UInt64.size
  if !m.started then { m with started := true, windowStart := start, lastStart := start, delta := 0 }
  else
    let m := { m with delta := start - m.lastStart, lastStart := start }
    if Duration.second ≤ start - m.windowStart then
      { m with measured := m.inWindow, inWindow := 0, windowStart := start }
    else m

def endTick (m : TickMeter) : TickMeter :=
  { m with count := (m.count + 1) % UInt64.size, inWindow := (m.inWindow + 1) % UInt32.size }

end TickMeter

end Vivarium
