import Vivarium.Identity.EntityId
import Vivarium.Value

/-! # Errors of entities -/

namespace Vivarium

inductive EntityError
  | detached (id : EntityId)
  | duplicateId (id : EntityId)
  | limitReached (limit : Nat)
  | typeMismatch (name : String) (expected got : AttributeType)
  deriving DecidableEq, Repr

def EntityError.name : EntityError → String
  | .detached _ => "Detached"
  | .duplicateId _ => "DuplicateId"
  | .limitReached _ => "LimitReached"
  | .typeMismatch _ _ _ => "TypeMismatch"

/-- The text of an error; `shown` names the identifiers that were drawn. -/
def EntityError.message (shown : Nat → String) : EntityError → String
  | .detached id => "Entity " ++ id.label shown ++ " is dead or no longer attached to a container"
  | .duplicateId id => "Entity " ++ id.label shown ++ " already exists in this container"
  | .limitReached limit => "Container is full: limit of " ++ toString limit ++ " entities reached"
  | .typeMismatch name expected got =>
    "Type mismatch for attribute '" ++ name ++ "': expected " ++ expected.name ++ ", got " ++ got.name

end Vivarium
