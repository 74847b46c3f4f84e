/-! # Durations and units of time

A duration, or an instant of an engine's time, is a natural number of nanoseconds. The longest one
is `Duration.max`; deadlines saturate there, so a delay that cannot be represented is never due.
-/

namespace Vivarium

namespace Duration

/-- The longest duration: 2 ^ 64 - 1 seconds and 999999999 nanoseconds. -/
def max : Nat := 18446744073709551615999999999

def second : Nat := 1000000000

def ofMillis (ms : Nat) : Nat := ms * 1000000

/-- The instant `delay` after `now`, saturating at `max`. -/
def after (now delay : Nat) : Nat := min (now + delay) max

/-- The count of whole milliseconds, kept in a 64-bit word. -/
def wholeMillis (d : Nat) : Nat := d / 1000000 % UInt64.size

theorem after_eq_add {now delay : Nat} (h : now + delay ≤ max) :
    after now delay = now + delay := Nat.min_eq_left h

end Duration

inductive TimeUnit
  | nanoseconds
  | microseconds
  | milliseconds
  | seconds
  | minutes
  deriving DecidableEq, Repr

instance : Inhabited TimeUnit := ⟨.nanoseconds⟩

def TimeUnit.all : List TimeUnit := [.nanoseconds, .microseconds, .milliseconds, .seconds, .minutes]

def TimeUnit.name : TimeUnit → String
  | .nanoseconds => "Nanoseconds"
  | .microseconds => "Microseconds"
  | .milliseconds => "Milliseconds"
  | .seconds => "Seconds"
  | .minutes => "Minutes"

/-- A count of units as a duration. A count of minutes whose seconds exceed 64 bits is cut to the
largest count of seconds that fits. -/
def TimeUnit.duration (amount : Nat) : TimeUnit → Nat
  | .nanoseconds => amount
  | .microseconds => amount * 1000
  | .milliseconds => amount * 1000000
  | .seconds => amount * Duration.second
  | .minutes => min (amount * 60) (UInt64.size - 1) * Duration.second

end Vivarium
