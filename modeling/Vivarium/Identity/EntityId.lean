import Vivarium.Identity.Uuid

/-! # Identities of entities

An entity has an identifier that its creator chose, or one that was drawn for it. Drawn identifiers
are numbered: no two are equal and none is equal to a chosen one.
-/

namespace Vivarium

inductive EntityId
  | chosen (id : Uuid)
  | drawn (number : Nat)
  deriving DecidableEq, Repr, Inhabited

namespace EntityId

/-- The identifier that stands for a name; the same name always gives the same one. -/
def named (name : String) : EntityId := .chosen (Uuid.named Uuid.objectSpace name)

/-- The bare text of an identifier. A drawn one has no text of its own and is shown by `shown`. -/
def text (shown : Nat → String) : EntityId → String
  | .chosen id => id.text
  | .drawn n => shown n

/-- The text that messages about an entity use. -/
def label (shown : Nat → String) (id : EntityId) : String := "entity:" ++ id.text shown

/-- Chosen identifiers come in numeric order, before the drawn ones. -/
def le : EntityId → EntityId → Bool
  | .chosen a, .chosen b => a.toNat ≤ b.toNat
  | .chosen _, .drawn _ => true
  | .drawn _, .chosen _ => false
  | .drawn m, .drawn n => m ≤ n

end EntityId

end Vivarium
