import Vivarium.Engine.Error
import Vivarium.Entity.Error
import Vivarium.Typing.Method

/-! # Errors of types and calls -/

namespace Vivarium

/-- How many parameters a method should have had. -/
inductive Arity
  | none
  | exactlyOne
  | atMostOne
  | atMostTwo
  deriving DecidableEq, Repr

/-- What a parameter should have been. -/
inductive ParamRole
  | entityId
  | container
  | entityIdOrContainer
  deriving DecidableEq, Repr

/-- What the result should have been. -/
inductive ReturnRole
  | attributeValue
  | voidOrParameter
  | entity
  | entitySet
  | entityOrVoid
  | flagOrVoid
  | void
  | task
  deriving DecidableEq, Repr

inductive ScheduleField
  | delay
  | period
  deriving DecidableEq, Repr

/-- Why a resolver rejects a method. -/
inductive MethodError
  | defaultNotAllowed
  | paramCount (expected : Arity) (got : Nat)
  | paramType (index : Nat) (expected : ParamRole) (got : TypeRef)
  | returnType (expected : ReturnRole) (got : TypeRef)
  | notAValueType (got : TypeRef)
  | noName
  | conflictingIdSources
  | missingIdSource
  | randomIdLookup
  | negativeAmount (field : ScheduleField) (amount : Int)
  deriving DecidableEq, Repr

def Arity.text : Arity → String
  | .none => "no"
  | .exactlyOne => "exactly one"
  | .atMostOne => "at most one"
  | .atMostTwo => "at most two"

def ParamRole.text : ParamRole → String
  | .entityId => "an entity id"
  | .container => "a container"
  | .entityIdOrContainer => "an entity id or a container"

def ReturnRole.text : ReturnRole → String
  | .attributeValue => "an attribute value or Option of one"
  | .voidOrParameter => "void, the parameter type or Option of it"
  | .entity => "an entity type or Option of one"
  | .entitySet => "a Set of an entity type"
  | .entityOrVoid => "an entity type or void"
  | .flagOrVoid => "flag or void"
  | .void => "void"
  | .task => "a task id, Option of one, or void"

def ScheduleField.text : ScheduleField → String
  | .delay => "initial delay"
  | .period => "period"

def MethodError.name : MethodError → String
  | .defaultNotAllowed => "DefaultNotAllowed"
  | .paramCount _ _ => "ParamCount"
  | .paramType _ _ _ => "ParamType"
  | .returnType _ _ => "ReturnType"
  | .notAValueType _ => "NotAValueType"
  | .noName => "NoName"
  | .conflictingIdSources => "ConflictingIdSources"
  | .missingIdSource => "MissingIdSource"
  | .randomIdLookup => "RandomIdLookup"
  | .negativeAmount _ _ => "NegativeAmount"

def MethodError.message : MethodError → String
  | .defaultNotAllowed => "default methods cannot be bound to a canonical operation"
  | .paramCount expected got =>
    "expected " ++ expected.text ++ " parameter(s), got " ++ toString got
  | .paramType index expected got =>
    "parameter " ++ toString index ++ " must be " ++ expected.text ++ ", got " ++ got.text
  | .returnType expected got => "return type must be " ++ expected.text ++ ", got " ++ got.text
  | .notAValueType got => got.text ++ " is not an attribute value type"
  | .noName => "no attribute name given and none can be derived from the method name"
  | .conflictingIdSources => "entity id given both as a parameter and by annotation"
  | .missingIdSource => "no entity id source: expected an id parameter or an id annotation"
  | .randomIdLookup => "a random id cannot be used to look up an existing entity"
  | .negativeAmount field amount =>
    field.text ++ " must not be negative, got " ++ toString amount

/-- The eleven ways to bind a method, in the order in which they are tried. -/
inductive Resolver
  | getAttribute
  | setAttribute
  | getEntity
  | getEntities
  | newEntity
  | killEntity
  | killEntities
  | markAsType
  | unmarkAsType
  | scheduleForActor
  | defaultMethod
  deriving DecidableEq, Repr

namespace Resolver

def all : List Resolver :=
  [.getAttribute, .setAttribute, .getEntity, .getEntities, .newEntity, .killEntity, .killEntities,
    .markAsType, .unmarkAsType, .scheduleForActor, .defaultMethod]

def name : Resolver → String
  | .getAttribute => "GetAttribute"
  | .setAttribute => "SetAttribute"
  | .getEntity => "GetEntity"
  | .getEntities => "GetEntities"
  | .newEntity => "NewEntity"
  | .killEntity => "KillEntity"
  | .killEntities => "KillEntities"
  | .markAsType => "MarkAsType"
  | .unmarkAsType => "UnmarkAsType"
  | .scheduleForActor => "ScheduleForActor"
  | .defaultMethod => "DefaultMethod"

end Resolver

/-- The resolver that a directive selects. -/
def Directive.resolver {β : Type} : Directive β → Resolver
  | .getAttribute _ => .getAttribute
  | .setAttribute _ => .setAttribute
  | .getEntity _ => .getEntity
  | .getEntities _ => .getEntities
  | .newEntity => .newEntity
  | .killEntity => .killEntity
  | .killEntities => .killEntities
  | .markAsType _ => .markAsType
  | .unmarkAsType _ => .unmarkAsType
  | .scheduleForActor _ => .scheduleForActor

/-- What is wrong with a method of a type. -/
inductive ProblemKind
  | unclaimed
  | ambiguous (resolvers : List Resolver)
  | invalid (resolver : Resolver) (error : MethodError)
  | unknownType (type : TypeName)
  deriving DecidableEq, Repr

structure MethodProblem where
  method : MethodKey
  kind : ProblemKind
  deriving DecidableEq, Repr

def MethodProblem.message (p : MethodProblem) : String :=
  p.method.text ++ ": " ++
    match p.kind with
    | .unclaimed => "not claimed by any resolver"
    | .ambiguous resolvers =>
      "claimed by several resolvers (" ++ String.intercalate ", " (resolvers.map Resolver.name) ++ ")"
    | .invalid resolver error => error.message ++ " (" ++ resolver.name ++ ")"
    | .unknownType type => "refers to unknown entity type " ++ type

/-- What is wrong with the declarations of types. -/
inductive TypeError
  | unknownType (type : TypeName)
  | alreadyRegistered (type : TypeName)
  | cyclicInheritance (path : List TypeName)
  | invalidMethods (type : TypeName) (problems : List MethodProblem)
  deriving DecidableEq, Repr

def TypeError.name : TypeError → String
  | .unknownType _ => "UnknownType"
  | .alreadyRegistered _ => "AlreadyRegistered"
  | .cyclicInheritance _ => "CyclicInheritance"
  | .invalidMethods _ _ => "InvalidMethods"

def TypeError.message : TypeError → String
  | .unknownType type => "Unknown entity type: " ++ type
  | .alreadyRegistered type => "Entity type already registered: " ++ type
  | .cyclicInheritance path => "Cyclic entity type inheritance: " ++ String.intercalate " -> " path
  | .invalidMethods type problems =>
    "Entity type " ++ type ++ " has invalid methods: " ++
      String.intercalate "; " (problems.map MethodProblem.message)

/-- Why a call on a proxy fails. -/
inductive CallError
  | typing (error : TypeError)
  | noSuchMethod (type : TypeName) (name : String)
  | argumentMismatch (type : TypeName) (name : String)
  | entity (error : EntityError)
  | engine (error : EngineError)
  deriving DecidableEq, Repr

def CallError.name : CallError → String
  | .typing error => error.name
  | .noSuchMethod _ _ => "NoSuchMethod"
  | .argumentMismatch _ _ => "ArgumentMismatch"
  | .entity error => error.name
  | .engine error => error.name

def CallError.message (shown : Nat → String) : CallError → String
  | .typing error => error.message
  | .noSuchMethod type name => "Entity type " ++ type ++ " has no method named '" ++ name ++ "'"
  | .argumentMismatch type name =>
    "Arguments do not match any '" ++ name ++ "' method of entity type " ++ type
  | .entity error => error.message shown
  | .engine error => error.message

end Vivarium
