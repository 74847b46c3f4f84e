import Vivarium.Engine.Error
import Vivarium.Ron.Skip
import Vivarium.Time.Duration

/-! # Engine configuration

The tick rate, the number of workers and the two timing thresholds of an engine. Saved
configurations hold the thresholds as whole milliseconds; every field of one may be missing.
-/

namespace Vivarium

structure EngineConfig where
  ticksPerSecond : Nat
  workers : Nat
  spinThreshold : Nat
  terminationTimeout : Nat
  deriving DecidableEq, Repr

/-- The fields of a saved configuration; the thresholds are counts of milliseconds. -/
structure SavedConfig where
  ticksPerSecond : Nat
  workers : Nat
  spinThreshold : Nat
  terminationTimeout : Nat
  deriving DecidableEq, Repr

namespace EngineConfig

/-- The configuration of a machine that runs `processors` threads at a time. -/
def standard (processors : Nat) : EngineConfig where
  ticksPerSecond := 30
  workers := processors
  spinThreshold := Duration.ofMillis 10
  terminationTimeout := 2 * Duration.second

def withTicksPerSecond (n : Nat) (c : EngineConfig) : EngineConfig := { c with ticksPerSecond := n }

/-- There is at least one worker, whatever number is asked for. -/
def withWorkers (n : Nat) (c : EngineConfig) : EngineConfig := { c with workers := max n 1 }

def withSpinThreshold (d : Nat) (c : EngineConfig) : EngineConfig := { c with spinThreshold := d }

def withTerminationTimeout (d : Nat) (c : EngineConfig) : EngineConfig :=
  { c with terminationTimeout := d }

/-- The nanoseconds from one tick to the next, cut to a whole number; zero without a tick rate. -/
def tickInterval (ticksPerSecond : Nat) : Nat := Duration.second / ticksPerSecond

def interval (c : EngineConfig) : Nat := tickInterval c.ticksPerSecond

def validate (c : EngineConfig) : Except EngineError Unit :=
  if c.ticksPerSecond = 0 then .error (.invalidConfig .noTicks)
  else if c.workers = 0 then .error (.invalidConfig .noWorkers)
  else .ok ()

def save (c : EngineConfig) : SavedConfig where
  ticksPerSecond := c.ticksPerSecond
  workers := c.workers
  spinThreshold := Duration.wholeMillis c.spinThreshold
  terminationTimeout := Duration.wholeMillis c.terminationTimeout

def load (s : SavedConfig) : EngineConfig where
  ticksPerSecond := s.ticksPerSecond
  workers := s.workers
  spinThreshold := Duration.ofMillis s.spinThreshold
  terminationTimeout := Duration.ofMillis s.terminationTimeout

end EngineConfig

/-! ## Reading a saved configuration -/

namespace EngineConfig

/-- The fields that a text gives. -/
structure GivenFields where
  ticksPerSecond : Option Nat := none
  workers : Option Nat := none
  spinThreshold : Option Nat := none
  terminationTimeout : Option Nat := none
  deriving Repr

open Ron (Reader)

def natural (bits : Nat) : Reader Nat := Int.toNat <$> Ron.integer (Ron.unsigned bits)

/-- Reads the value of a field and notes it. A field may be given once; unknown ones are skipped. -/
def readField (e : Ron.Extensions) (given : GivenFields) (name : String) : Reader GivenFields :=
  let once (field : Option Nat) (bits : Nat) (note : Nat → GivenFields) : Reader GivenFields :=
    if field.isSome then .fail else note <$> natural bits
  match name with
  | "ticks_per_second" => once given.ticksPerSecond 32 fun n => { given with ticksPerSecond := n }
  | "worker_count" => once given.workers 64 fun n => { given with workers := n }
  | "spin_yield_threshold" => once given.spinThreshold 64 fun n => { given with spinThreshold := n }
  | "termination_timeout" =>
    once given.terminationTimeout 64 fun n => { given with terminationTimeout := n }
  | _ => do
    Ron.skipAny e 126 false
    .pure given

def readFields (e : Ron.Extensions) : Nat → Bool → GivenFields → Reader GivenFields
  | 0, _, _ => .fail
  | n + 1, separated, given => do
    Ron.blanks
    if ← Ron.ahead (Ron.startsWith ")") then .pure given
    else if !separated then .fail
    else
      let (_, given) ← Ron.entry Ron.identifier (readField e given)
      let separated ← Ron.comma?
      readFields e n separated given

/-- The name of the record may stand before its fields, and must where an extension says so. -/
def readRecord (e : Ron.Extensions) : Reader GivenFields := do
  if ← Ron.ahead fun cs => cs.head?.any Ron.isContinue then
    let name ← Ron.identifier
    if name ≠ "EngineConfig" then Reader.fail
  else if e.explicitStructNames then Reader.fail
  Ron.blanks
  Ron.expect "("
  let given ← (fun cs => readFields e (cs.length + 1) true {} cs : Reader GivenFields)
  Ron.blanks
  Ron.expect ")"
  .pure given

/-- Reads a saved configuration; what it does not give is as in `standard`. -/
def ofRon (processors : Nat) (text : String) : Except EngineError EngineConfig := do
  match Ron.read? readRecord text with
  | none => .error .unreadableConfig
  | some given =>
    let d := (standard processors).save
    let c := load {
      ticksPerSecond := given.ticksPerSecond.getD d.ticksPerSecond
      workers := given.workers.getD d.workers
      spinThreshold := given.spinThreshold.getD d.spinThreshold
      terminationTimeout := given.terminationTimeout.getD d.terminationTimeout }
    c.validate
    .ok c

end EngineConfig

end Vivarium
