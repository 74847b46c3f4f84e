import Vivarium.Simulation.State

/-! # Changing attributes

A change of an attribute is made first and then told to the listeners that are subscribed to its key
at that moment, in the order of their subscription. Listeners may change attributes in turn.
-/

namespace Vivarium

namespace Simulation

variable {β μ : Type} (run : Run β μ)

def attributesOf (h : Holder) (s : Simulation β μ) : AttributeSet β :=
  match h with
  | .entity e => (s.forest.entity e).attributes
  | .standalone i => s.standalone.getD i ⟨.drawn 0, [], []⟩

def onAttributes {α : Type} (h : Holder) (f : AttributeSet β → α × AttributeSet β) : Act β μ α :=
  fun s =>
    let (a, attributes) := f (s.attributesOf h)
    match h with
    | .entity e => .ok (a, { s with forest := s.forest.modify e fun x => { x with attributes } })
    | .standalone i => .ok (a, { s with standalone := s.standalone.modify i fun _ => attributes })

/-- Makes a set of attributes that stands alone. -/
def newAttributes (owner : EntityId) : Act β μ Holder := fun s =>
  .ok (.standalone s.standalone.size, { s with standalone := s.standalone.push ⟨owner, [], []⟩ })

def notify (h : Holder) (k : AttributeKey) (value previous : Option Value) : Act β μ Unit := do
  let attributes ← ask (·.attributesOf h)
  for l in attributes.listenersOf k do
    run (.attributeEvent ⟨attributes.owner, k, value, previous⟩) l.code

/-- Gives the value before the change. A value that is not of the key's type is refused. -/
def setAttribute (h : Holder) (k : AttributeKey) (v : Value) :
    Act β μ (Except EntityError (Option Value)) := do
  if v.type ≠ k.type then return .error (.typeMismatch k.name k.type v.type)
  else
    let previous ← onAttributes h fun a => (a.get? k, a.put k v)
    notify run h k (some v) previous
    return .ok previous

def removeAttribute (h : Holder) (k : AttributeKey) : Act β μ (Option Value) := do
  let previous ← onAttributes h fun a => (a.get? k, a.erase k)
  if previous.isSome then notify run h k none previous
  return previous

/-- Tells the listeners of a key that is present that its value was changed in place. -/
def fireAttribute (h : Holder) (k : AttributeKey) : Act β μ Unit := do
  match (← ask (·.attributesOf h)).get? k with
  | some v => notify run h k (some v) (some v)
  | none => return ()

end Simulation

end Vivarium
