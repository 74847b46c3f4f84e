/-! # The lifecycle of an engine

An engine is created, ticks and waits in turn, may be paused, and is stopped for good.
-/

namespace Vivarium

inductive Lifecycle
  | created
  | ticking
  | waiting
  | paused
  | stopped
  deriving DecidableEq, Repr, Inhabited

namespace Lifecycle

def all : List Lifecycle := [.created, .ticking, .waiting, .paused, .stopped]

def name : Lifecycle → String
  | .created => "INIT"
  | .ticking => "IN_TICK"
  | .waiting => "IN_WAIT"
  | .paused => "PAUSED"
  | .stopped => "STOPPED"

/-- The tick loop is inside a tick or between two. -/
def isRunning : Lifecycle → Bool
  | .ticking | .waiting => true
  | _ => false

def canBecome : Lifecycle → Lifecycle → Bool
  | .created, next => next == .ticking || next == .paused || next == .stopped
  | .ticking, next | .waiting, next => next != .created
  | .paused, next => next == .ticking || next == .stopped
  | .stopped, _ => false

end Lifecycle

end Vivarium
