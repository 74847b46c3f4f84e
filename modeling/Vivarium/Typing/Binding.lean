import Vivarium.Text.LetterCase
import Vivarium.Typing.Error

/-! # Binding methods to operations

A resolver takes the methods that carry its directive, checks their shape and binds them to an
operation on entities; it leaves all other methods alone. Of several directives of one kind the
first counts.
-/

namespace Vivarium

/-- Where the identifier of a lookup comes from when the method is called. -/
inductive RequestedId
  | param (index : Nat)
  | fixed (id : EntityId)
  deriving DecidableEq, Repr

inductive Binding (β : Type)
  | getAttribute (key : AttributeKey) (optional : Bool)
  | setAttribute (key : AttributeKey) (returnsPrevious : Bool)
  | getEntity (type : TypeName) (optional ofType : Bool) (id : RequestedId)
  | getEntities (type : TypeName) (ofType : Bool)
  | newEntity (id : Option RequestedId) (container : Option Nat) (type : Option TypeName)
  | killEntity (id : RequestedId) (returnsFlag : Bool)
  | killEntities
  | markAsType (type : TypeName) (returnsFlag : Bool)
  | unmarkAsType (type : TypeName) (returnsFlag : Bool)
  | scheduleForActor (action : β) (delay period : Nat) (returnsTask : Bool)
  | defaultMethod (body : β)

namespace Binding

variable {β : Type}

/-- The types that a bound method hands out or marks. -/
def dependencies : Binding β → List TypeName
  | .getEntity type _ _ _ => [type]
  | .getEntities type _ => [type]
  | .newEntity _ _ type => type.toList
  | .markAsType type _ => [type]
  | .unmarkAsType type _ => [type]
  | _ => []

end Binding

/-- What follows `start` in a text that begins with it. -/
def textAfter? (start text : List Char) : Option (List Char) :=
  if start.isPrefixOf text then some (text.drop start.length) else none

/-- The property that an accessor speaks of: what follows the first of `starts` that an upper-case
letter follows, with that letter in lower case. -/
def propertyName? (method : String) (starts : List String) : Option String :=
  starts.findSome? fun start =>
    match textAfter? start.toList method.toList with
    | some (c :: rest) =>
      if LetterCase.isUpper c then some (String.ofList (LetterCase.lower c ++ rest)) else none
    | _ => none

namespace Method

variable {β : Type}

def rejectBody (m : Method β) : Except MethodError Unit :=
  if m.body.isSome then .error .defaultNotAllowed else .ok ()

def noParams (m : Method β) : Except MethodError Unit :=
  if m.params.isEmpty then .ok () else .error (.paramCount .none m.params.length)

/-- Whether a flag is returned, of a method that returns a flag or nothing. -/
def returnsFlag (m : Method β) : Except MethodError Bool :=
  match m.returns with
  | .void => .ok false
  | .flag => .ok true
  | t => .error (.returnType .flagOrVoid t)

/-- The name of the attribute: the given one, or the one that the method's name speaks of. -/
def attributeName (m : Method β) (given : Option String) (starts : List String) :
    Except MethodError String :=
  match given with
  | some "" | none =>
    match propertyName? m.name starts with
    | some name => .ok name
    | none => .error .noName
  | some name => .ok name

/-- The source of the identifier to look up: the only parameter or the directive, but not both. -/
def lookupId (m : Method β) : Except MethodError RequestedId := do
  let param ← match m.params with
    | [] => .ok false
    | [.id] => .ok true
    | [t] => .error (.paramType 0 .entityId t)
    | ts => .error (.paramCount .atMostOne ts.length)
  match param, m.id with
  | true, some _ => .error .conflictingIdSources
  | true, none => .ok (.param 0)
  | false, some source =>
    match source.id? with
    | some id => .ok (.fixed id)
    | none => .error .randomIdLookup
  | false, none => .error .missingIdSource

def bindGetAttribute (m : Method β) (given : Option String) : Except MethodError (Binding β) := do
  m.rejectBody
  m.noParams
  let (type, optional) ← match m.returns.splitOptional with
    | (.value type, optional) => .ok (type, optional)
    | (.void, false) => .error (.returnType .attributeValue .void)
    | _ => .error (.notAValueType m.returns)
  let name ← m.attributeName given ["get", "is"]
  .ok (.getAttribute ⟨name, type⟩ optional)

def bindSetAttribute (m : Method β) (given : Option String) : Except MethodError (Binding β) := do
  m.rejectBody
  let type ← match m.params with
    | [.value type] => .ok type
    | [t] => .error (.notAValueType t)
    | ts => .error (.paramCount .exactlyOne ts.length)
  let returnsPrevious ←
    if m.returns = .void then .ok false
    else if m.returns.splitOptional.1 = .value type then .ok true
    else .error (.returnType .voidOrParameter m.returns)
  let name ← m.attributeName given ["set"]
  .ok (.setAttribute ⟨name, type⟩ returnsPrevious)

def bindGetEntity (m : Method β) (ofType : Bool) : Except MethodError (Binding β) := do
  m.rejectBody
  let (type, optional) ← match m.returns.splitOptional with
    | (.entity type, optional) => .ok (type, optional)
    | _ => .error (.returnType .entity m.returns)
  let id ← m.lookupId
  .ok (.getEntity type optional ofType id)

def bindGetEntities (m : Method β) (ofType : Bool) : Except MethodError (Binding β) := do
  m.rejectBody
  m.noParams
  match m.returns with
  | .set (.entity type) => .ok (.getEntities type ofType)
  | t => .error (.returnType .entitySet t)

def bindNewEntity (m : Method β) : Except MethodError (Binding β) := do
  m.rejectBody
  let (idParam, container) ← match m.params with
    | [] => .ok (none, none)
    | [.id] => .ok (some 0, none)
    | [.container] => .ok (none, some 0)
    | [.id, .container] => .ok (some 0, some 1)
    | [t] => .error (.paramType 0 .entityIdOrContainer t)
    | [.id, t] => .error (.paramType 1 .container t)
    | [t, _] => .error (.paramType 0 .entityId t)
    | ts => .error (.paramCount .atMostTwo ts.length)
  let id ← match idParam, m.id with
    | some _, some _ => .error .conflictingIdSources
    | some index, none => .ok (some (.param index))
    | none, some source => .ok (source.id?.map .fixed)
    | none, none => .ok none
  match m.returns with
  | .void => .ok (.newEntity id container none)
  | .entity type => .ok (.newEntity id container (some type))
  | t => .error (.returnType .entityOrVoid t)

def bindKillEntity (m : Method β) : Except MethodError (Binding β) := do
  m.rejectBody
  let flag ← m.returnsFlag
  let id ← m.lookupId
  .ok (.killEntity id flag)

def bindKillEntities (m : Method β) : Except MethodError (Binding β) := do
  m.rejectBody
  m.noParams
  if m.returns = .void then .ok .killEntities else .error (.returnType .void m.returns)

/-- Binds a method that marks or unmarks; `bind` takes whether a flag is returned. -/
def bindMarking (m : Method β) (bind : Bool → Binding β) : Except MethodError (Binding β) := do
  m.rejectBody
  m.noParams
  let flag ← m.returnsFlag
  .ok (bind flag)

def nonNegative (field : ScheduleField) (amount : Int) : Except MethodError Nat :=
  if amount < 0 then .error (.negativeAmount field amount) else .ok amount.toNat

def bindScheduleForActor (m : Method β) (spec : ScheduleSpec β) : Except MethodError (Binding β) := do
  m.rejectBody
  m.noParams
  let returnsTask ← match m.returns.splitOptional with
    | (.void, false) => .ok false
    | (.task, _) => .ok true
    | _ => .error (.returnType .task m.returns)
  let delay ← nonNegative .delay spec.delay
  let period ← nonNegative .period spec.period
  .ok (.scheduleForActor spec.action (spec.unit.duration delay) (spec.unit.duration period) returnsTask)

end Method

namespace Resolver

variable {β : Type}

/-- Binds the method by its first directive of the right kind; without one, the method is not for
this resolver. -/
def withDirective {α : Type} (m : Method β) (select : Directive β → Option α)
    (bind : α → Except MethodError (Binding β)) : Except MethodError (Option (Binding β)) :=
  match m.directives.findSome? select with
  | none => .ok none
  | some a => some <$> bind a

def apply (m : Method β) : Resolver → Except MethodError (Option (Binding β))
  | .getAttribute => withDirective m (fun | .getAttribute name => some name | _ => none) m.bindGetAttribute
  | .setAttribute => withDirective m (fun | .setAttribute name => some name | _ => none) m.bindSetAttribute
  | .getEntity => withDirective m (fun | .getEntity ofType => some ofType | _ => none) m.bindGetEntity
  | .getEntities =>
    withDirective m (fun | .getEntities ofType => some ofType | _ => none) m.bindGetEntities
  | .newEntity => withDirective m (fun | .newEntity => some () | _ => none) fun _ => m.bindNewEntity
  | .killEntity => withDirective m (fun | .killEntity => some () | _ => none) fun _ => m.bindKillEntity
  | .killEntities =>
    withDirective m (fun | .killEntities => some () | _ => none) fun _ => m.bindKillEntities
  | .markAsType =>
    withDirective m (fun | .markAsType type => some type | _ => none) fun type =>
      m.bindMarking (.markAsType type)
  | .unmarkAsType =>
    withDirective m (fun | .unmarkAsType type => some type | _ => none) fun type =>
      m.bindMarking (.unmarkAsType type)
  | .scheduleForActor =>
    withDirective m (fun | .scheduleForActor spec => some spec | _ => none) m.bindScheduleForActor
  | .defaultMethod => .ok (m.body.map .defaultMethod)

end Resolver

end Vivarium
