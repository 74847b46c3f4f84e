import Vivarium.Time.Duration
import Vivarium.Typing.TypeRef

/-! # Method declarations

An entity type is declared by its parents and its methods. A method has a shape, the directives
that bind it to an operation on entities, and possibly a body of its own. Bodies and scheduled
actions are code of type `β`.
-/

namespace Vivarium

/-- Where the identifier of an annotated method comes from. -/
inductive IdSource
  | fixed (id : EntityId)
  | named (name : String)
  | random
  deriving DecidableEq, Repr, Inhabited

def IdSource.id? : IdSource → Option EntityId
  | .fixed id => some id
  | .named name => some (EntityId.named name)
  | .random => none

/-- What a scheduling method schedules, and when, in a unit of time. -/
structure ScheduleSpec (β : Type) where
  action : β
  delay : Int
  period : Int
  unit : TimeUnit

inductive Directive (β : Type)
  | getAttribute (name : Option String)
  | setAttribute (name : Option String)
  | getEntity (ofType : Bool)
  | getEntities (ofType : Bool)
  | newEntity
  | killEntity
  | killEntities
  | markAsType (type : TypeName)
  | unmarkAsType (type : TypeName)
  | scheduleForActor (spec : ScheduleSpec β)

/-- What tells methods apart: the name and the types of the parameters. -/
structure MethodKey where
  name : String
  params : List TypeRef
  deriving DecidableEq, Repr, Inhabited

def MethodKey.text (k : MethodKey) : String :=
  k.name ++ "(" ++ String.intercalate ", " (k.params.map TypeRef.text) ++ ")"

structure Method (β : Type) where
  name : String
  params : List TypeRef := []
  returns : TypeRef := .void
  directives : List (Directive β) := []
  id : Option IdSource := none
  body : Option β := none

def Method.key {β : Type} (m : Method β) : MethodKey := ⟨m.name, m.params⟩

structure TypeDecl (β : Type) where
  name : TypeName
  parents : List TypeName := []
  methods : List (Method β) := []

end Vivarium
