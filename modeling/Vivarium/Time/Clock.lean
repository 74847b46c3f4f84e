import Vivarium.Time.Duration

/-! # Clocks

`Clock` is moved by its user and holds 64 bits of nanoseconds; parking it jumps to the deadline.
`SteppingClock` moves on by a fixed step with every reading, and parks as any clock does that can
only be read and slept on: one sleep up to the spin threshold, then readings until the deadline.
-/

namespace Vivarium

structure Clock where
  nanos : UInt64 := 0
  deriving DecidableEq, Repr, Inhabited

namespace Clock

def now (c : Clock) : Nat := c.nanos.toNat

/-- Only the low 64 bits of the amount count, and the sum wraps. -/
def advance (span : Nat) (c : Clock) : Clock := ⟨c.nanos + UInt64.ofNat span⟩

/-- Moves to the low 64 bits of `time`, never back. -/
def advanceTo (time : Nat) (c : Clock) : Clock := ⟨max c.nanos (UInt64.ofNat time)⟩

def sleep (duration : Nat) (c : Clock) : Clock := c.advance duration

def parkUntil (deadline : Nat) (c : Clock) : Clock := c.advanceTo deadline

end Clock

/-- A clock whose reading is the time, which the reading then moves on by `step`. -/
structure SteppingClock where
  time : Nat
  step : Nat
  deriving DecidableEq, Repr, Inhabited

/-- What parking did: the sleeps and what was read, each in order, and the clock at the end. -/
structure Parking where
  sleeps : List Nat
  seen : List Nat
  clock : SteppingClock
  deriving DecidableEq, Repr

def Parking.readings (p : Parking) : Nat := p.seen.length

namespace SteppingClock

def read (c : SteppingClock) : Nat × SteppingClock := (c.time, { c with time := c.time + c.step })

def sleep (d : Nat) (c : SteppingClock) : SteppingClock := { c with time := c.time + d }

/-- Reads until a reading reaches the deadline; `none` if the clock stands still before it. -/
def spin (deadline : Nat) (c : SteppingClock) : Option (List Nat × SteppingClock) :=
  if c.time < deadline then
    if c.step = 0 then none
    else (spin deadline c.read.2).map fun (seen, c') => (c.read.1 :: seen, c')
  else some ([c.read.1], c.read.2)
termination_by deadline - c.time
decreasing_by simp only [read]; omega

/-- Sleeps once to `threshold` before the deadline, unless that is already past, then spins. -/
def parkUntil (deadline threshold : Nat) (c : SteppingClock) : Option Parking :=
  let (now, c) := c.read
  if deadline ≤ now then some ⟨[], [now], c⟩
  else
    let rest := deadline - now
    let sleeps := if threshold < rest then [rest - threshold] else []
    (spin deadline (sleeps.foldl (fun c d => c.sleep d) c)).map fun (seen, c) => ⟨sleeps, now :: seen, c⟩

end SteppingClock

end Vivarium
