import Vivarium.Simulation.Attributes
import Vivarium.Simulation.Lifetimes
import Vivarium.Simulation.Scheduling

/-! # Types and calls

Entities are marked as types and seen as types. A call on an entity that is seen as a type goes to
the first method of that name, in the order of the type's table, whose parameters the arguments fit.
-/

namespace Vivarium

namespace Simulation

variable {β μ : Type} (run : Run β μ)

def resolveType (type : TypeName) : Act β μ (Except TypeError (MethodTable β)) :=
  onTypes (·.resolve type)

/-- Sees an entity as a type. It need not be marked as the type. -/
def viewAs (e : EntityRef) (type : TypeName) : Act β μ (Except TypeError Proxy) := do
  return (← resolveType type).map fun _ => ⟨e, type⟩

/-- Sees all of `es` as a type, up to the first failure. -/
def viewAllAs (type : TypeName) : List EntityRef → Act β μ (Except TypeError (List Proxy))
  | [] => return .ok []
  | e :: es => do
    match ← viewAs e type with
    | .error error => return .error error
    | .ok p => return (← viewAllAs type es).map (p :: ·)

def childAs (container : EntityRef) (id : EntityId) (type : TypeName) :
    Act β μ (Except TypeError (Option Proxy)) := do
  match ← ask (·.forest.child? container id) with
  | none => return .ok none
  | some e => return (← viewAs e type).map some

/-- The children that are marked as a type, seen as it. -/
def childrenAs (container : EntityRef) (type : TypeName) : Act β μ (Except TypeError (List Proxy)) := do
  viewAllAs type (← ask (·.forest.ofType container type))

/-- Marks an entity as a type and as all its ancestors. The answer is whether the type is new to
it. -/
def markAsType (e : EntityRef) (type : TypeName) : Act β μ (Except TypeError Bool) := do
  match ← ask (·.types.ancestors type) with
  | .error error => return .error error
  | .ok ancestors =>
    let added ← onForest (·.mark e type)
    for a in ancestors do
      let _ ← onForest (·.mark e a)
    return .ok added

/-- Removes the mark of a type and the marks of the types that descend from it; types that are not
registered are let be. The answer is whether the type was marked. -/
def unmarkAsType (e : EntityRef) (type : TypeName) : Act β μ (Except TypeError Bool) := do
  match ← ask (·.types.lookup type) with
  | .error error => return .error error
  | .ok _ =>
    let removed ← onForest (·.unmark e type)
    for m in (← ask fun s => (s.forest.entity e).marks) do
      let descends ← ask fun s =>
        match s.types.ancestors m with
        | .ok ancestors => ancestors.contains type
        | .error _ => false
      if descends then
        let _ ← onForest (·.unmark e m)
    return .ok removed

/-- The identifier that a binding asks for. -/
def suppliedId (p : Proxy) (args : List Arg) : RequestedId → Except CallError EntityId
  | .fixed id => .ok id
  | .param i =>
    match args[i]?.bind Arg.id? with
    | some id => .ok id
    | none => .error (.argumentMismatch p.type ("<id argument " ++ toString i ++ ">"))

def suppliedContainer (p : Proxy) (args : List Arg) (i : Nat) : Except CallError Holder :=
  match args[i]?.bind Arg.container? with
  | some h => .ok h
  | none => .error (.argumentMismatch p.type ("<container argument " ++ toString i ++ ">"))

def flagOrVoid (returnsFlag b : Bool) : Return := if returnsFlag then .flag b else .void

def callSetAttribute (p : Proxy) (k : AttributeKey) (returnsPrevious : Bool) (args : List Arg) :
    Act β μ (Except CallError Return) := do
  let answer (previous : Option Value) : Return := if returnsPrevious then .value previous else .void
  match args with
  | [.value (some v)] =>
    match ← setAttribute run (.entity p.entity) k v with
    | .ok previous => return .ok (answer previous)
    | .error e => return .error (.entity e)
  | [.value none] => return .ok (answer (← removeAttribute run (.entity p.entity) k))
  | _ => return .error (.argumentMismatch p.type k.name)

def callGetEntity (p : Proxy) (type : TypeName) (ofType : Bool) (id : EntityId) :
    Act β μ (Except CallError Return) := do
  let found ← ask fun s =>
    (s.forest.child? p.entity id).filter fun e => !ofType || s.forest.isMarked e type
  match found with
  | none => return .ok (.entity none)
  | some e =>
    match ← viewAs e type with
    | .ok q => return .ok (.entity (some q))
    | .error e => return .error (.typing e)

def callGetEntities (p : Proxy) (type : TypeName) (ofType : Bool) : Act β μ (Except CallError Return) := do
  let es ← ask fun s =>
    if ofType then s.forest.ofType p.entity type else s.forest.children p.entity
  match ← viewAllAs type es with
  | .ok qs => return .ok (.entities qs)
  | .error e => return .error (.typing e)

/-- Marks a created entity as its type and sees it so; an entity for which that fails is killed. -/
def finishCreation (depth : Nat) (p : Proxy) (e : EntityRef) (type : TypeName) :
    Act β μ (Except CallError Return) := do
  let typed ← do
    match ← markAsType e type with
    | .error error => pure (.error error)
    | .ok _ => viewAs e type
  match typed with
  | .ok q => return .ok (.entity (some q))
  | .error error =>
    let _ ← killEntity run depth p.entity (← ask (·.forest.idOf e))
    return .error (.typing error)

/-- Creates a child. Its type has to resolve before it is created. -/
def callNewEntity (depth : Nat) (p : Proxy) (id : Option EntityId) (container : Option Holder)
    (type : Option TypeName) : Act β μ (Except CallError Return) := do
  let create : Act β μ (Except EntityError EntityRef) := do
    let values ← ask fun s =>
      match container with
      | some h => (s.attributesOf h).values
      | none => []
    createEntity run p.entity id values
  match type with
  | none =>
    match ← create with
    | .error e => return .error (.entity e)
    | .ok _ => return .ok .void
  | some type =>
    match ← resolveType type with
    | .error e => return .error (.typing e)
    | .ok _ =>
      match ← create with
      | .error e => return .error (.entity e)
      | .ok e => finishCreation run depth p e type

/-- Does what a method is bound to. -/
def perform (depth : Nat) (p : Proxy) (args : List Arg) :
    Binding β → Act β μ (Except CallError Return)
  | .getAttribute k _ => return .ok (.value ((← ask (·.attributesOf (.entity p.entity))).get? k))
  | .setAttribute k returnsPrevious => callSetAttribute run p k returnsPrevious args
  | .getEntity type _ ofType id =>
    match suppliedId p args id with
    | .error e => return .error e
    | .ok id => callGetEntity p type ofType id
  | .getEntities type ofType => callGetEntities p type ofType
  | .newEntity id container type =>
    let supplied : Except CallError (Option EntityId × Option Holder) := do
      let id ← id.mapM (suppliedId p args)
      let container ← container.mapM (suppliedContainer p args)
      .ok (id, container)
    match supplied with
    | .error e => return .error e
    | .ok (id, container) => callNewEntity run depth p id container type
  | .killEntity id returnsFlag =>
    match suppliedId p args id with
    | .error e => return .error e
    | .ok id => return .ok (flagOrVoid returnsFlag (← killEntity run depth p.entity id))
  | .killEntities => do
    killEntities run depth p.entity
    return .ok .void
  | .markAsType type returnsFlag =>
    return ((← markAsType p.entity type).mapError .typing).map (flagOrVoid returnsFlag)
  | .unmarkAsType type returnsFlag =>
    return ((← unmarkAsType p.entity type).mapError .typing).map (flagOrVoid returnsFlag)
  | .scheduleForActor action delay period returnsTask => do
    match ← schedule (.entity p.entity) ⟨action, .proxy p⟩ delay period with
    | .error e => return .error (.engine e)
    | .ok id => return .ok (if returnsTask then .task (some id) else .void)
  | .defaultMethod body => run (.method p args) body

def argsFit (args : List Arg) (params : List TypeRef) : Bool :=
  params.length == args.length && (args.zip params).all fun (a, t) => a.fits t

/-- The binding of the first method with a name and fitting parameters. -/
def select (t : MethodTable β) (name : String) (args : List Arg) : Except CallError (Binding β) :=
  let named := t.methods.filter (·.1.name == name)
  match named.find? fun m => argsFit args m.1.params with
  | some (_, b) => .ok b
  | none => .error (if named.isEmpty then .noSuchMethod t.type name else .argumentMismatch t.type name)

def invoke (depth : Nat) (p : Proxy) (name : String) (args : List Arg) :
    Act β μ (Except CallError Return) := do
  match ← resolveType p.type with
  | .error e => return .error (.typing e)
  | .ok t =>
    match select t name args with
    | .error e => return .error e
    | .ok b => perform run depth p args b

/-- Calls the method of a key whether or not the arguments fit; `none` if there is no such method. -/
def invokeKey (depth : Nat) (p : Proxy) (k : MethodKey) (args : List Arg) :
    Act β μ (Option (Except CallError Return)) := do
  match (← ask (·.types.table? p.type)).bind (·.get? k) with
  | none => return none
  | some b => return some (← perform run depth p args b)

end Simulation

end Vivarium
