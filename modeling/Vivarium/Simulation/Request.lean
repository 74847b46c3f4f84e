import Vivarium.Simulation.Calls
import Vivarium.Simulation.Ticking

/-! # Requests

The operations of a simulation that pass no code on, as data, each with the type of its answer.
-/

namespace Vivarium

/-- What can be seen of an engine from outside. -/
structure EngineStatus where
  state : Lifecycle
  now : Nat
  report : TickReport
  queued : Nat
  inFlight : Nat
  deriving DecidableEq, Repr

inductive Request
  /- time and the engine -/
  | now
  | advance (span : Nat)
  | advanceTo (time : Nat)
  | status
  | pause
  | step
  | stepMany (n : Nat)
  | stepWhileActive (id : TaskId)
  | tick
  | stop
  | clearBoundary (which : Boundary)
  /- tasks -/
  | flag (id : TaskId)
  | isFlagged (id : TaskId)
  | cancel (id : TaskId)
  | isActive (id : TaskId)
  | taskStatus (id : TaskId)
  /- owners of tasks -/
  | newScheduler
  | dropScheduler (ref : SchedulerRef)
  | cancelOwned (owner : Owner) (id : TaskId)
  | isActiveOwned (owner : Owner) (id : TaskId)
  | cancelAllOwned (owner : Owner)
  | ownedTasks (owner : Owner)
  /- entities -/
  | create (container : EntityRef) (id : Option EntityId) (source : Option Holder)
  | killEntity (container : EntityRef) (id : EntityId)
  | killEntities (container : EntityRef)
  | kill (ref : EntityRef)
  | shutdown
  | idOf (ref : EntityRef)
  | isAlive (ref : EntityRef)
  | parentOf (ref : EntityRef)
  | rootOf (ref : EntityRef)
  | child (container : EntityRef) (id : EntityId)
  | search (container : EntityRef) (id : EntityId)
  | children (container : EntityRef)
  | ofType (container : EntityRef) (type : TypeName)
  | isDescendant (ref ancestor : EntityRef)
  | limit
  | isBound
  | bind (bound : Bool)
  | unsubscribe (container : EntityRef) (listener : ListenerId)
  /- marks -/
  | mark (ref : EntityRef) (type : TypeName)
  | unmark (ref : EntityRef) (type : TypeName)
  | marks (ref : EntityRef)
  /- attributes -/
  | newAttributes (owner : EntityId)
  | getAttribute (holder : Holder) (key : AttributeKey)
  | setAttribute (holder : Holder) (key : AttributeKey) (value : Value)
  | removeAttribute (holder : Holder) (key : AttributeKey)
  | fireAttribute (holder : Holder) (key : AttributeKey)
  | attributes (holder : Holder)
  | clearAttributes (holder : Holder)
  | unsubscribeFrom (holder : Holder) (key : AttributeKey) (listener : ListenerId)
  /- types -/
  | registeredTypes
  | isResolved (type : TypeName)
  | ancestors (type : TypeName)
  | validateTree (type : TypeName)
  | markAsType (ref : EntityRef) (type : TypeName)
  | unmarkAsType (ref : EntityRef) (type : TypeName)
  | viewAs (ref : EntityRef) (type : TypeName)
  | childAs (container : EntityRef) (id : EntityId) (type : TypeName)
  | childrenAs (container : EntityRef) (type : TypeName)
  | invoke (proxy : Proxy) (method : String) (args : List Arg)
  | invokeKey (proxy : Proxy) (key : MethodKey) (args : List Arg)

namespace Request

abbrev Answer : Request → Type
  | .now | .advance _ | .advanceTo _ => Nat
  | .status => EngineStatus
  | .pause | .step | .stepMany _ | .tick => Except EngineError Unit
  | .stop => List Abandoned
  | .clearBoundary _ | .flag _ | .stepWhileActive _ => Unit
  | .isFlagged _ | .cancel _ | .isActive _ => Bool
  | .taskStatus _ => Option TaskStatus
  | .newScheduler => SchedulerRef
  | .dropScheduler _ | .cancelOwned _ _ | .isActiveOwned _ _ => Bool
  | .cancelAllOwned _ => Nat
  | .ownedTasks _ => List TaskId
  | .create _ _ _ => Except EntityError EntityRef
  | .killEntity _ _ | .kill _ => Bool
  | .killEntities _ | .shutdown => Unit
  | .idOf _ => EntityId
  | .isAlive _ => Bool
  | .parentOf _ => Option EntityRef
  | .rootOf _ => EntityRef
  | .child _ _ | .search _ _ => Option EntityRef
  | .children _ | .ofType _ _ => List EntityRef
  | .isDescendant _ _ => Bool
  | .limit => Option Nat
  | .isBound | .bind _ => Bool
  | .unsubscribe _ _ => Bool
  | .mark _ _ | .unmark _ _ => Bool
  | .marks _ => List TypeName
  | .newAttributes _ => Holder
  | .getAttribute _ _ | .removeAttribute _ _ => Option Value
  | .setAttribute _ _ _ => Except EntityError (Option Value)
  | .fireAttribute _ _ | .clearAttributes _ => Unit
  | .attributes _ => List (AttributeKey × Value)
  | .unsubscribeFrom _ _ _ => Bool
  | .registeredTypes => List TypeName
  | .isResolved _ => Bool
  | .ancestors _ | .validateTree _ => Except TypeError (List TypeName)
  | .markAsType _ _ | .unmarkAsType _ _ => Except TypeError Bool
  | .viewAs _ _ => Except TypeError Proxy
  | .childAs _ _ _ => Except TypeError (Option Proxy)
  | .childrenAs _ _ => Except TypeError (List Proxy)
  | .invoke _ _ _ => Except CallError Return
  | .invokeKey _ _ _ => Option (Except CallError Return)

end Request

namespace Simulation

variable {β μ : Type}

def engineStatus (s : Simulation β μ) : EngineStatus where
  state := s.engine.state
  now := s.engine.now
  report := s.engine.report
  queued := s.engine.queue.size
  inFlight := s.engine.inFlight.length

/-- Moves the clock and gives the new time. -/
def moveClock (f : Clock → Clock) : Act β μ Nat :=
  onEngine fun e => let e := { e with clock := f e.clock }; (e.now, e)

/-- Does what is asked for. Operations that run code use `run` for it and are bounded by `bound`. -/
def answer (run : Run β μ) (bound : Nat) : (q : Request) → Act β μ q.Answer
  | .now => ask (·.engine.now)
  | .advance span => moveClock (·.advance span)
  | .advanceTo time => moveClock (·.advanceTo time)
  | .status => ask engineStatus
  | .pause => tryEngine fun e => (fun e => ((), e)) <$> e.pause
  | .step => step run
  | .stepMany n => stepMany run n
  | .stepWhileActive id => stepWhileActive run id bound
  | .tick => tick run bound
  | .stop => onEngine (·.stop)
  | .clearBoundary which => changeEngine (·.setBoundary which none)
  | .flag id => changeEngine (·.flag id)
  | .isFlagged id => ask (·.engine.isFlagged id)
  | .cancel id => onEngine (·.cancel id)
  | .isActive id => ask (·.engine.isActive id)
  | .taskStatus id => ask (·.engine.status? id)
  | .newScheduler => newScheduler
  | .dropScheduler ref => dropScheduler ref
  | .cancelOwned owner id => cancelOwned owner id
  | .isActiveOwned owner id => ask (·.isActiveOwned owner id)
  | .cancelAllOwned owner => cancelAllOwned owner
  | .ownedTasks owner => ask fun s => (s.trackerOf owner).ids
  | .create container id source => do
    let values ← ask fun s =>
      match source with
      | some h => (s.attributesOf h).values
      | none => []
    createEntity run container id values
  | .killEntity container id => killEntity run bound container id
  | .killEntities container => killEntities run bound container
  | .kill ref => kill run bound ref
  | .shutdown => shutdown run bound
  | .idOf ref => ask (·.forest.idOf ref)
  | .isAlive ref => ask (·.forest.isAlive ref)
  | .parentOf ref => ask (·.forest.parent? ref)
  | .rootOf ref => ask (·.forest.rootOf ref)
  | .child container id => ask (·.forest.child? container id)
  | .search container id => ask (·.forest.search container id)
  | .children container => ask (·.forest.children container)
  | .ofType container type => ask (·.forest.ofType container type)
  | .isDescendant ref ancestor => ask (·.forest.isDescendant ref ancestor)
  | .limit => ask (·.forest.limit)
  | .isBound => ask (·.forest.bound)
  | .bind bound => onForest fun f => (f.bound, { f with bound })
  | .unsubscribe container listener => onForest (·.unsubscribe container listener)
  | .mark ref type => onForest (·.mark ref type)
  | .unmark ref type => onForest (·.unmark ref type)
  | .marks ref => ask fun s => (s.forest.entity ref).marks
  | .newAttributes owner => newAttributes owner
  | .getAttribute holder key => ask fun s => (s.attributesOf holder).get? key
  | .setAttribute holder key value => setAttribute run holder key value
  | .removeAttribute holder key => removeAttribute run holder key
  | .fireAttribute holder key => fireAttribute run holder key
  | .attributes holder => ask fun s => (s.attributesOf holder).values
  | .clearAttributes holder => onAttributes holder fun a => ((), a.clear)
  | .unsubscribeFrom holder key listener => onAttributes holder (·.unsubscribe key listener)
  | .registeredTypes => ask (·.types.registered)
  | .isResolved type => ask (·.types.isResolved type)
  | .ancestors type => ask (·.types.ancestors type)
  | .validateTree type => onTypes (·.validateTree type)
  | .markAsType ref type => markAsType ref type
  | .unmarkAsType ref type => unmarkAsType ref type
  | .viewAs ref type => viewAs ref type
  | .childAs container id type => childAs container id type
  | .childrenAs container type => childrenAs container type
  | .invoke proxy method args => invoke run bound proxy method args
  | .invokeKey proxy key args => invokeKey run bound proxy key args

end Simulation

end Vivarium
