import Vivarium.Simulation.State

/-! # Scheduling for owners

A task may be scheduled by nobody in particular, through an entity or through an actor scheduler. The
latter two own it: they remember it, cancel it only if it is theirs, and cancel all of theirs at
once. An entity schedules only while it is alive and an engine is bound to the root.
-/

namespace Vivarium

inductive Owner
  | nobody
  | entity (ref : EntityRef)
  | scheduler (ref : SchedulerRef)
  deriving DecidableEq, Repr

/-- What the tasks of an owner act on unless they are given something else. -/
def Owner.actor : Owner → Actor
  | .nobody => .nobody
  | .entity ref => .entity ref
  | .scheduler ref => .scheduler ref

namespace Simulation

variable {β μ : Type}

def trackerOf (o : Owner) (s : Simulation β μ) : TaskTracker :=
  match o with
  | .nobody => {}
  | .entity e => (s.forest.entity e).tasks
  | .scheduler r => (Entries.get? r s.schedulers).getD {}

def putTracker (o : Owner) (t : TaskTracker) (s : Simulation β μ) : Simulation β μ :=
  match o with
  | .nobody => s
  | .entity e => { s with forest := s.forest.modify e fun x => { x with tasks := t } }
  | .scheduler r => { s with schedulers := Entries.put r t s.schedulers }

def changeTracker (o : Owner) (f : TaskTracker → TaskTracker) : Act β μ Unit := fun s =>
  .ok ((), s.putTracker o (f (s.trackerOf o)))

/-- Whether an owner has an engine to schedule on and to cancel on. -/
def hasEngine (o : Owner) (s : Simulation β μ) : Bool :=
  match o with
  | .entity _ => s.forest.bound
  | _ => true

def maySchedule (o : Owner) (s : Simulation β μ) : Bool :=
  match o with
  | .entity e => s.forest.isAlive e && s.forest.bound
  | _ => true

/-- Schedules a job on the engine; its owner remembers it, after forgetting finished tasks if it has
many. -/
def schedule (o : Owner) (job : Job β) (delay period : Nat) : Act β μ (Except EngineError TaskId) := do
  if !(← ask (·.maySchedule o)) then return .error .detached
  else
    match ← tryEngine (·.schedule job delay period) with
    | .error e => return .error e
    | .ok id =>
      let e ← ask (·.engine)
      changeTracker o (·.trackPruned (fun id => e.isActive id) id)
      return .ok id

def cancelOwned (o : Owner) (id : TaskId) : Act β μ Bool := do
  if (← ask (·.trackerOf o)).contains id then
    changeTracker o (·.untrack id)
    if ← ask (·.hasEngine o) then onEngine (·.cancel id) else return false
  else return false

def isActiveOwned (o : Owner) (id : TaskId) (s : Simulation β μ) : Bool :=
  (s.trackerOf o).contains id && s.hasEngine o && s.engine.isActive id

/-- Cancels all tasks of an owner and counts those that were active. -/
def cancelAllOwned (o : Owner) : Act β μ Nat := do
  if ← ask (·.hasEngine o) then
    let t ← ask (·.trackerOf o)
    changeTracker o fun _ => {}
    onEngine (·.cancelAll t.ids)
  else return 0

/-- Makes an actor scheduler, which owns nothing yet. -/
def newScheduler : Act β μ SchedulerRef := fun s =>
  let r : SchedulerRef := ⟨s.nextScheduler⟩
  .ok (r, { s with schedulers := s.schedulers ++ [(r, {})], nextScheduler := s.nextScheduler + 1 })

/-- Drops an actor scheduler, which cancels its tasks; the answer is whether there was one. -/
def dropScheduler (r : SchedulerRef) : Act β μ Bool := do
  if ← ask fun s => Entries.has r s.schedulers then
    let _ ← cancelAllOwned (.scheduler r)
    modify fun s => { s with schedulers := Entries.erase r s.schedulers }
    return true
  else return false

end Simulation

end Vivarium
