import Vivarium.Engine.Basic
import Vivarium.Typing.Registry

/-! # The state of a simulation

A simulation is an engine, a tree of entities with the standalone attribute sets, the registry of
their types, the actor schedulers, and a memory that only the code of tasks, listeners and methods
uses. Code is of a type `β`; what it does is a parameter of every operation that runs it.

Running code may come back to any operation. Such a run need not end: an operation stops at a bound
on its nesting, and it stops when an engine would wait for itself.
-/

namespace Vivarium

structure SchedulerRef where
  number : Nat
  deriving DecidableEq, Repr, Inhabited

/-- What a task acts on. -/
inductive Actor
  | nobody
  | entity (ref : EntityRef)
  | proxy (p : Proxy)
  | scheduler (ref : SchedulerRef)
  deriving DecidableEq, Repr, Inhabited

/-- The entity that is acted on, also one that is seen as a type. -/
def Actor.entity? : Actor → Option EntityRef
  | .entity e => some e
  | .proxy p => some p.entity
  | _ => none

/-- Code together with what it acts on. -/
structure Job (β : Type) where
  code : β
  actor : Actor

/-- What the code of a task is told when it is run. -/
structure TaskContext where
  id : TaskId
  period : Nat
  report : TickReport
  actor : Actor
  deriving DecidableEq, Repr

inductive EntityEvent
  | created (ref : EntityRef)
  | killed (ref : EntityRef)
  deriving DecidableEq, Repr

def EntityEvent.ref : EntityEvent → EntityRef
  | .created ref => ref
  | .killed ref => ref

def EntityEvent.name : EntityEvent → String
  | .created _ => "created"
  | .killed _ => "killed"

/-- What code is run for. -/
inductive Role
  | task
  | listener
  | method
  deriving DecidableEq, Repr

/-- Why code is run. -/
inductive Occasion
  | task (context : TaskContext)
  | entityEvent (event : EntityEvent)
  | attributeEvent (event : AttributeEvent)
  | method (proxy : Proxy) (args : List Arg)

def Occasion.role : Occasion → Role
  | .task _ => .task
  | .entityEvent _ => .listener
  | .attributeEvent _ => .listener
  | .method _ _ => .method

/-- How the code of a task ends. The engine goes on in the same way after each. -/
inductive TaskOutcome
  | completed
  | failed
  | crashed
  deriving DecidableEq, Repr

/-- What code gives back: a listener nothing, a method its result. -/
abbrev Role.Answer : Role → Type
  | .task => TaskOutcome
  | .listener => Unit
  | .method => Except CallError Return

structure Simulation (β μ : Type) where
  engine : Engine (Job β)
  forest : Forest β
  standalone : Array (AttributeSet β) := #[]
  types : TypeRegistry β := {}
  schedulers : List (SchedulerRef × TaskTracker) := []
  nextScheduler : Nat := 0
  memory : μ

/-- Why an operation has no result. -/
inductive Halt
  | exhausted
  | deadlock
  deriving DecidableEq, Repr

/-- An operation on a simulation. -/
abbrev Act (β μ α : Type) := StateT (Simulation β μ) (Except Halt) α

/-- What running code does. -/
abbrev Run (β μ : Type) := (o : Occasion) → β → Act β μ o.role.Answer

namespace Simulation

variable {β μ α : Type}

def create (engine : Engine (Job β)) (bound : Bool) (limit : Option Nat) (memory : μ) :
    Simulation β μ :=
  { engine, forest := Forest.create bound limit, memory }

def halt (why : Halt) : Act β μ α := fun _ => .error why

/-- Changes the engine and gives a result. -/
def onEngine (f : Engine (Job β) → α × Engine (Job β)) : Act β μ α := fun s =>
  let (a, engine) := f s.engine
  .ok (a, { s with engine })

def changeEngine (f : Engine (Job β) → Engine (Job β)) : Act β μ Unit := onEngine fun e => ((), f e)

/-- Changes the engine, or leaves it as it is and gives the error. -/
def tryEngine (f : Engine (Job β) → Except EngineError (α × Engine (Job β))) :
    Act β μ (Except EngineError α) :=
  onEngine fun e =>
    match f e with
    | .ok (a, e') => (.ok a, e')
    | .error error => (.error error, e)

def onForest (f : Forest β → α × Forest β) : Act β μ α := fun s =>
  let (a, forest) := f s.forest
  .ok (a, { s with forest })

def changeForest (f : Forest β → Forest β) : Act β μ Unit := onForest fun x => ((), f x)

def onTypes (f : TypeRegistry β → α × TypeRegistry β) : Act β μ α := fun s =>
  let (a, types) := f s.types
  .ok (a, { s with types })

def ask (f : Simulation β μ → α) : Act β μ α := fun s => .ok (f s, s)

end Simulation

end Vivarium
