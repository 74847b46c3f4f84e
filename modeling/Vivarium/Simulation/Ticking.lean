import Vivarium.Simulation.State

/-! # Ticking

One tick opens with the first action, runs the tasks that are due before its end in the order of the
queue, passes the barrier, closes with the last action and waits for its end. A tick that is stopped
in the middle does not pass the barrier. The engine is single-threaded: a task is run where it is
launched, and nobody else could release a barrier that would hold the engine up.
-/

namespace Vivarium

namespace Simulation

variable {β μ : Type} (run : Run β μ)

/-- Runs a task unless it is flagged. However its code ends, the engine goes on. -/
def runTask (t : Task (Job β)) : Act β μ Unit := do
  let s ← get
  if s.engine.isFlagged t.id then return ()
  else
    let _ ← run (.task ⟨t.id, t.period, s.engine.report, t.work.actor⟩) t.work.code

def runBoundary (which : Boundary) : Act β μ Unit := do
  match ← ask (·.engine.boundary which) with
  | none => return ()
  | some t =>
    runTask run t
    changeEngine (·.settleBoundary which t)

/-- Runs launched tasks in order. Each is a party of the barrier until its turn has ended. -/
def runDue : List (Task (Job β)) → Act β μ Unit
  | [] => return ()
  | t :: rest => do
    changeEngine fun e => { e with barrier := e.barrier.register.2 }
    runTask run t
    changeEngine (·.complete t)
    changeEngine fun e => { e with barrier := e.barrier.arrive }
    runDue rest

def passBarrier : Act β μ Bool := do
  match (← get).engine.barrier.await? with
  | none => halt .deadlock
  | some (passed, barrier) =>
    changeEngine fun e => { e with barrier }
    return passed

/-- One tick of an engine that is in `ticking`. -/
def runTick : Act β μ Unit := do
  let start ← ask (·.engine.now)
  let deadline ← ask fun s => Duration.after start s.engine.meter.interval
  changeEngine fun e => { e with meter := e.meter.beginTick start }
  runBoundary run .first
  let due ← onEngine (·.launch deadline)
  runDue run due
  if ← passBarrier then
    runBoundary run .last
    changeEngine fun e => { e with meter := e.meter.endTick }
    changeEngine (·.park deadline)

/-- Runs one tick; nothing happens while the tick loop is running. -/
def step : Act β μ (Except EngineError Unit) := do
  if ← ask (·.engine.running) then return .ok ()
  else
    match ← tryEngine fun e => (fun e => ((), e)) <$> e.enter .ticking with
    | .error e => return .error e
    | .ok () =>
      runTick run
      return .ok ()

/-- Runs `n` ticks, or up to the one after which the engine is stopped. -/
def stepMany : Nat → Act β μ (Except EngineError Unit)
  | 0 => return .ok ()
  | n + 1 => do
    if (← ask (·.engine.state)) = .stopped then return .error .shutdown
    else
      match ← step run with
      | .error e => return .error e
      | .ok () => stepMany n

/-- Runs ticks while a task is active, at most `bound` of them. -/
def stepWhileActive (id : TaskId) : (bound : Nat) → Act β μ Unit
  | 0 => halt .exhausted
  | bound + 1 => do
    if ← ask (·.engine.isActive id) then
      let _ ← step run
      stepWhileActive id bound

/-- Runs ticks until the engine is paused or stopped, at most as many as `bound` says. -/
def loop : (bound : Nat) → Act β μ Unit
  | 0 => halt .exhausted
  | bound + 1 => do
    if ← onEngine (·.continues) then
      runTick run
      loop bound

/-- Starts or resumes the tick loop and drives it, unless it is alive already. -/
def tick (bound : Nat) : Act β μ (Except EngineError Unit) := do
  match ← tryEngine (·.start) with
  | .error e => return .error e
  | .ok drives =>
    if drives then loop run bound
    return .ok ()

end Simulation

end Vivarium
