import Vivarium.Simulation.State

/-! # Creation and death

A created entity is in its container before the listeners of the container are told. A killed entity
leaves its container first; then it and everything below it dies, the tasks of the dead are
cancelled, and the listeners of each container are told of its dead, those deeper down first.
-/

namespace Vivarium

namespace Simulation

variable {β μ : Type} (run : Run β μ)

/-- Tells the listeners that `container` has now. -/
def announce (container : EntityRef) (event : EntityEvent) : Act β μ Unit := do
  for l in (← ask fun s => (s.forest.entity container).listeners) do
    run (.entityEvent event) l.code

/-- What is wrong with the first of some attributes whose value is not of the type of its key. -/
def mismatch? (values : List (AttributeKey × Value)) : Option EntityError :=
  (values.find? fun (k, v) => v.type ≠ k.type).map fun (k, v) => .typeMismatch k.name k.type v.type

/-- Creates a child with the given identifier, or a drawn one, and the given attributes. These are checked
one by one, as if each was set. -/
def createEntity (container : EntityRef) (id : Option EntityId)
    (values : List (AttributeKey × Value)) : Act β μ (Except EntityError EntityRef) := do
  let f ← ask (·.forest)
  if !f.isAlive container then return .error (.detached (f.idOf container))
  else
    let id ← match id with
      | some id => pure id
      | none => onForest (·.drawId)
    match mismatch? values with
    | some error => return .error error
    | none =>
      if (f.child? container id).isSome then return .error (.duplicateId id)
      else
        match f.limitOf container with
        | some limit =>
          if limit ≤ (f.children container).length then return .error (.limitReached limit)
          else insert id
        | none => insert id
where
  insert (id : EntityId) : Act β μ (Except EntityError EntityRef) := do
    let attributes : AttributeSet β := ⟨id, [], []⟩
    let e ← onForest (·.insertChild container { id, attributes := attributes.putAll values })
    announce run container (.created e)
    return .ok e

/-- Makes an entity dead and everything below it, down to `depth` levels. The tasks of the dead are
cancelled if an engine was bound when the killing began. -/
def die (bound : Bool) : (depth : Nat) → (e : EntityRef) → Act β μ Unit
  | 0, _ => halt .exhausted
  | depth + 1, e => do
    let x ← ask (·.forest.entity e)
    if !x.alive then return ()
    else
      changeForest (·.modify e fun x => { x with alive := false })
      if bound then
        changeForest (·.modify e fun x => { x with tasks := {} })
        let _ ← onEngine (·.cancelAll x.tasks.ids)
      changeForest (·.modify e fun x => { x with children := [] })
      for c in x.children do
        die bound depth c
      let listeners ← ask fun s => (s.forest.entity e).listeners
      for c in x.children do
        for l in listeners do
          run (.entityEvent (.killed c)) l.code

/-- Kills the child with an identifier; the answer is whether there was one. -/
def killEntity (depth : Nat) (container : EntityRef) (id : EntityId) : Act β μ Bool := do
  match ← ask (·.forest.child? container id) with
  | none => return false
  | some e =>
    changeForest (·.removeChild container e)
    die run (← ask (·.forest.bound)) depth e
    announce run container (.killed e)
    return true

/-- Kills the children that there are now, one after the other. -/
def killEntities (depth : Nat) (container : EntityRef) : Act β μ Unit := do
  for id in (← ask (·.forest.childIds container)) do
    let _ ← killEntity run depth container id

/-- Kills the child of its parent that has the identifier of `e`. -/
def kill (depth : Nat) (e : EntityRef) : Act β μ Bool := do
  match ← ask (·.forest.parent? e) with
  | none => return false
  | some p => killEntity run depth p (← ask (·.forest.idOf e))

/-- Kills the root and with it everything. -/
def shutdown (depth : Nat) : Act β μ Unit := do
  die run (← ask (·.forest.bound)) depth Forest.root

end Simulation

end Vivarium
