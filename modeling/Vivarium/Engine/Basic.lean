import Vivarium.Engine.TickBarrier
import Vivarium.Engine.TickMeter
import Vivarium.Schedule.Queue
import Vivarium.Schedule.Tracker
import Vivarium.Time.Clock

/-! # The state of an engine

The queue of an engine, the tasks in flight, its lifecycle and its clock, with the operations that
run no work. A cancel flag is shared by every copy of its task, so the flags are kept beside the
tasks, as the set of the flagged identities.
-/

namespace Vivarium

inductive Boundary
  | first
  | last
  deriving DecidableEq, Repr

structure Engine (β : Type) where
  config : EngineConfig
  clock : Clock := {}
  state : Lifecycle := .created
  meter : TickMeter
  queue : TaskQueue β := {}
  inFlight : List (TaskId × Task β) := []
  flagged : List TaskId := []
  first : Option (Task β) := none
  last : Option (Task β) := none
  running : Bool := false
  loopAlive : Bool := false
  barrier : TickBarrier := {}
  nextTask : Nat := 0

/-- A task that the stop of its engine left undone, with its cancel flag. -/
structure Abandoned where
  id : TaskId
  cancelled : Bool
  deriving DecidableEq, Repr

namespace Engine

variable {β : Type}

def create (config : EngineConfig) : Except EngineError (Engine β) := do
  config.validate
  .ok { config, meter := { ticksPerSecond := config.ticksPerSecond } }

def now (e : Engine β) : Nat := e.clock.now

def report (e : Engine β) : TickReport := e.meter.report

def isFlagged (id : TaskId) (e : Engine β) : Bool := e.flagged.contains id

def flag (id : TaskId) (e : Engine β) : Engine β := { e with flagged := Distinct.add id e.flagged }

/-! ## Lifecycle -/

def enter (next : Lifecycle) (e : Engine β) : Except EngineError (Engine β) :=
  if e.state = .stopped then .error .shutdown
  else if e.state.canBecome next then .ok { e with state := next }
  else .error (.illegalTransition e.state next)

def enterIfRunning (next : Lifecycle) (e : Engine β) : Bool × Engine β :=
  if e.state.isRunning then (true, { e with state := next }) else (false, e)

/-- Asks for the loop to run. The answer is whether the caller has to drive it; a loop that is alive
notices by itself. -/
def start (e : Engine β) : Except EngineError (Bool × Engine β) := do
  if e.state = .stopped then .error .shutdown
  else
    let e ← if e.state.isRunning then .ok e else e.enter .ticking
    if e.loopAlive then .ok (false, { e with running := true })
    else .ok (true, { e with running := true, loopAlive := true })

/-- Whether the loop goes on to another tick; if not it is gone. -/
def continues (e : Engine β) : Bool × Engine β :=
  if e.running ∧ e.state.isRunning then (true, { e with state := .ticking })
  else (false, { e with loopAlive := false })

/-- A paused engine is left as it is. -/
def pause (e : Engine β) : Except EngineError (Engine β) := do
  if e.state = .paused then .ok e
  else
    let e ← e.enter .paused
    .ok { e with running := false }

/-- Stops for good and gives up the tasks: the queued ones in the order in which they would run, then
those in flight, which are flagged. An engine that is stopped has none left. -/
def stop (e : Engine β) : List Abandoned × Engine β :=
  if e.state = .stopped then ([], { e with running := false })
  else
    let (queued, queue) := e.queue.drain
    let inFlight := Entries.keys e.inFlight
    (queued.map (fun t => ⟨t.id, e.isFlagged t.id⟩) ++ inFlight.map (fun id => ⟨id, true⟩),
      { e with
        state := .stopped
        running := false
        queue
        inFlight := []
        flagged := Distinct.addAll inFlight e.flagged
        barrier := e.barrier.terminate })

/-! ## Scheduling -/

/-- Queues work to run first after `delay`, then every `period`. -/
def schedule (work : β) (delay period : Nat) (e : Engine β) : Except EngineError (TaskId × Engine β) :=
  if e.state = .stopped then .error .shutdown
  else
    let id : TaskId := ⟨e.nextTask⟩
    let t : Task β := { id, work, period, due := Duration.after e.now delay }
    .ok (id, { e with queue := e.queue.insert t, nextTask := e.nextTask + 1 })

/-- Takes a queued task out, or flags one in flight that is not flagged yet. -/
def cancel (id : TaskId) (e : Engine β) : Bool × Engine β :=
  let (removed, queue) := e.queue.remove id
  if removed then (true, { e with queue })
  else if Entries.has id e.inFlight && !e.isFlagged id then (true, e.flag id)
  else (false, e)

def isActive (id : TaskId) (e : Engine β) : Bool :=
  e.queue.contains id || (Entries.has id e.inFlight && !e.isFlagged id)

def status? (id : TaskId) (e : Engine β) : Option TaskStatus :=
  match e.queue.get? id with
  | some t => some (t.status (e.isFlagged id))
  | none => (Entries.get? id e.inFlight).map (·.status (e.isFlagged id))

/-- Cancels all of `ids` and counts those that were active. -/
def cancelAll (ids : List TaskId) (e : Engine β) : Nat × Engine β :=
  ids.foldl (fun (n, e) id =>
    let (cancelled, e) := e.cancel id
    (if cancelled then n + 1 else n, e)) (0, e)

def boundary (which : Boundary) (e : Engine β) : Option (Task β) :=
  match which with
  | .first => e.first
  | .last => e.last

def putBoundary (which : Boundary) (t : Option (Task β)) (e : Engine β) : Engine β :=
  match which with
  | .first => { e with first := t }
  | .last => { e with last := t }

/-- Sets or clears the work that opens or closes every tick. -/
def setBoundary (which : Boundary) (work : Option β) (e : Engine β) : Engine β :=
  match work with
  | none => e.putBoundary which none
  | some work =>
    { e.putBoundary which (some { id := ⟨e.nextTask⟩, work, period := 0, due := 0 }) with
      nextTask := e.nextTask + 1 }

/-! ## The steps of a tick -/

/-- Takes every task due before `bound` out of the queue and into flight. -/
def launch (bound : Nat) (e : Engine β) : List (Task β) × Engine β :=
  let (due, queue) := e.queue.popAllDue bound
  (due, { e with queue, inFlight := due.foldl (fun f t => Entries.put t.id t f) e.inFlight })

/-- Ends the turn of a task. It leaves flight, and a periodic one that is not cancelled is queued
again a period from now; one that the engine has given up is left alone. -/
def complete (t : Task β) (e : Engine β) : Engine β :=
  if Entries.has t.id e.inFlight then
    let e := { e with inFlight := Entries.erase t.id e.inFlight }
    if t.isPeriodic ∧ ¬e.isFlagged t.id ∧ e.state ≠ .stopped then
      { e with queue := e.queue.insert { t with due := Duration.after e.now t.period } }
    else e
  else e

/-- A boundary task that was flagged is dropped, unless another has taken its place. -/
def settleBoundary (which : Boundary) (t : Task β) (e : Engine β) : Engine β :=
  if e.isFlagged t.id ∧ (e.boundary which).map (·.id) = some t.id then e.putBoundary which none
  else e

/-- Starts to wait for the end of the tick, unless the engine was paused or stopped. -/
def park (deadline : Nat) (e : Engine β) : Engine β :=
  let (waits, e) := e.enterIfRunning .waiting
  if waits then { e with clock := e.clock.parkUntil deadline } else e

end Engine

end Vivarium
