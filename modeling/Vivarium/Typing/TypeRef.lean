import Vivarium.Entity.Forest

/-! # Shapes of parameters and results

The types that methods are declared with, the arguments that calls pass, and the results they give.
-/

namespace Vivarium

inductive TypeRef
  | void
  | flag
  | value (type : AttributeType)
  | id
  | container
  | task
  | entity (type : TypeName)
  | optional (inner : TypeRef)
  | set (inner : TypeRef)
  deriving DecidableEq, Repr, Inhabited

namespace TypeRef

def text : TypeRef → String
  | .void => "void"
  | .flag => "flag"
  | .value type => type.name
  | .id => "id"
  | .container => "container"
  | .task => "task"
  | .entity type => type
  | .optional inner => "Option<" ++ inner.text ++ ">"
  | .set inner => "Set<" ++ inner.text ++ ">"

/-- The type without one layer of `optional`, and whether there was one. -/
def splitOptional : TypeRef → TypeRef × Bool
  | .optional inner => (inner, true)
  | t => (t, false)

end TypeRef

/-- Something that has attributes: an entity, or a set of attributes that stands alone. -/
inductive Holder
  | entity (ref : EntityRef)
  | standalone (index : Nat)
  deriving DecidableEq, Repr, Inhabited

/-- An argument of a call. An absent value asks a setter to remove. -/
inductive Arg
  | value (v : Option Value)
  | id (id : EntityId)
  | container (holder : Holder)
  deriving Inhabited

namespace Arg

def fits : Arg → TypeRef → Bool
  | .value (some v), .value type => v.type == type
  | .value (some (.bool _)), .flag => true
  | .value none, .value _ => true
  | .value none, .optional _ => true
  | .value (some v), .optional inner => fits (.value (some v)) inner
  | .id _, .id => true
  | .container _, .container => true
  | _, _ => false

def value? : Arg → Option Value
  | .value v => v
  | _ => none

def id? : Arg → Option EntityId
  | .id i => some i
  | _ => none

def container? : Arg → Option Holder
  | .container h => some h
  | _ => none

end Arg

/-- An entity seen as a type. -/
structure Proxy where
  entity : EntityRef
  type : TypeName
  deriving DecidableEq, Repr, Inhabited

inductive Return
  | void
  | flag (b : Bool)
  | value (v : Option Value)
  | entity (proxy : Option Proxy)
  | entities (proxies : List Proxy)
  | task (id : Option TaskId)
  deriving Inhabited

namespace Return

def isVoid : Return → Bool
  | .void => true
  | _ => false

def flag? : Return → Option Bool
  | .flag b => some b
  | _ => none

def value? : Return → Option Value
  | .value v => v
  | _ => none

def entity? : Return → Option Proxy
  | .entity p => p
  | _ => none

/-- All entities of a result; a single one counts as a list. -/
def toEntities : Return → List Proxy
  | .entities ps => ps
  | .entity p => p.toList
  | _ => []

def task? : Return → Option TaskId
  | .task t => t
  | _ => none

end Return

end Vivarium
