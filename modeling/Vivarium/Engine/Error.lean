import Vivarium.Engine.Lifecycle

/-! # Errors of an engine -/

namespace Vivarium

inductive ConfigFault
  | noTicks
  | noWorkers
  deriving DecidableEq, Repr

inductive EngineError
  | shutdown
  | illegalTransition (current next : Lifecycle)
  | detached
  | invalidConfig (fault : ConfigFault)
  | unreadableConfig
  deriving DecidableEq, Repr

def ConfigFault.message : ConfigFault → String
  | .noTicks => "ticks_per_second must be greater than zero"
  | .noWorkers => "worker_count must be at least one"

def EngineError.name : EngineError → String
  | .shutdown => "Shutdown"
  | .illegalTransition _ _ => "IllegalTransition"
  | .detached => "Detached"
  | .invalidConfig _ => "InvalidConfig"
  | .unreadableConfig => "Ron"

/-- The text of an error. What is wrong with an unreadable configuration is not told. -/
def EngineError.message : EngineError → String
  | .shutdown => "engine is shut down"
  | .illegalTransition current next =>
    "illegal engine state transition from " ++ current.name ++ " to " ++ next.name
  | .detached => "actor is not attached to an engine"
  | .invalidConfig fault => "invalid engine configuration: " ++ fault.message
  | .unreadableConfig => "RON parse error"

end Vivarium
