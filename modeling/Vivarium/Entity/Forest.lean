import Vivarium.Entity.Attributes
import Vivarium.Schedule.Tracker

/-! # The tree of entities

All entities that were ever made stand in one table, the root first and every other one after its
parent. The link to the parent is fixed; the children of an entity are the living ones in it. An
entity may have the identifier of another one, but not of another child of its parent.
-/

namespace Vivarium

abbrev TypeName := String

structure EntityRef where
  index : Nat
  deriving DecidableEq, Repr, Inhabited

structure Entity (β : Type) where
  id : EntityId
  parent : Option EntityRef := none
  alive : Bool := true
  attributes : AttributeSet β := ⟨id, [], []⟩
  children : List EntityRef := []
  marks : List TypeName := []
  listeners : List (Listener β) := []
  tasks : TaskTracker := {}

/-- The entity that a reference to nothing reads as. -/
def Entity.absent {β : Type} : Entity β := { id := .drawn 0, alive := false }

/-- The table of the entities, how many the root may hold, whether the engine is bound to the root,
and how many identifiers were drawn. -/
structure Forest (β : Type) where
  entities : Array (Entity β)
  limit : Option Nat := none
  /-- There is one engine, which is bound or not. That another one is bound in its place is not modelled. -/
  bound : Bool := false
  drawn : Nat := 0

namespace Forest

variable {β : Type}

def root : EntityRef := ⟨0⟩

/-- A root with a drawn identifier and nothing below it. -/
def create (bound : Bool) (limit : Option Nat) : Forest β :=
  { entities := #[{ id := .drawn 0 }], limit, bound, drawn := 1 }

def size (f : Forest β) : Nat := f.entities.size

def entity (e : EntityRef) (f : Forest β) : Entity β := f.entities.getD e.index .absent

def modify (e : EntityRef) (change : Entity β → Entity β) (f : Forest β) : Forest β :=
  { f with entities := f.entities.modify e.index change }

def idOf (e : EntityRef) (f : Forest β) : EntityId := (f.entity e).id

def isAlive (e : EntityRef) (f : Forest β) : Bool := (f.entity e).alive

def children (e : EntityRef) (f : Forest β) : List EntityRef := (f.entity e).children

/-- The child with an identifier. -/
def child? (e : EntityRef) (id : EntityId) (f : Forest β) : Option EntityRef :=
  (f.children e).find? fun c => f.idOf c = id

def childIds (e : EntityRef) (f : Forest β) : List EntityId := (f.children e).map fun c => f.idOf c

def parent? (e : EntityRef) (f : Forest β) : Option EntityRef := (f.entity e).parent

/-- The parent, its parent, and so on. A parent stands before its children in the table. -/
def lineage (e : EntityRef) (f : Forest β) : List EntityRef :=
  match f.parent? e with
  | none => []
  | some p => if p.index < e.index then p :: f.lineage p else [p]
termination_by e.index

def isDescendant (e ancestor : EntityRef) (f : Forest β) : Bool := (f.lineage e).contains ancestor

def rootOf (e : EntityRef) (f : Forest β) : EntityRef := (f.lineage e).getLastD e

/-- The limit on the number of children; only the root has one. -/
def limitOf (e : EntityRef) (f : Forest β) : Option Nat := if e = root then f.limit else none

/-- Searches the children for an identifier, then the first subtree that has it, `depth` levels
deep. -/
def searchTo (id : EntityId) (f : Forest β) : Nat → EntityRef → Option EntityRef
  | 0, _ => none
  | depth + 1, e =>
    match f.child? e id with
    | some c => some c
    | none => (f.children e).findSome? (searchTo id f depth)

/-- Searches everything below an entity; no path is longer than the table. -/
def search (e : EntityRef) (id : EntityId) (f : Forest β) : Option EntityRef :=
  f.searchTo id f.size e

def isMarked (e : EntityRef) (type : TypeName) (f : Forest β) : Bool :=
  (f.entity e).marks.contains type

def ofType (e : EntityRef) (type : TypeName) (f : Forest β) : List EntityRef :=
  (f.children e).filter fun c => f.isMarked c type

def mark (e : EntityRef) (type : TypeName) (f : Forest β) : Bool × Forest β :=
  (!f.isMarked e type, f.modify e fun x => { x with marks := Distinct.add type x.marks })

def unmark (e : EntityRef) (type : TypeName) (f : Forest β) : Bool × Forest β :=
  (f.isMarked e type, f.modify e fun x => { x with marks := Distinct.remove type x.marks })

def subscribe (e : EntityRef) (l : Listener β) (f : Forest β) : Bool × Forest β :=
  let (added, listeners) := l.subscribe (f.entity e).listeners
  (added, f.modify e fun x => { x with listeners })

def unsubscribe (e : EntityRef) (id : ListenerId) (f : Forest β) : Bool × Forest β :=
  let (removed, listeners) := Listener.unsubscribe id (f.entity e).listeners
  (removed, f.modify e fun x => { x with listeners })

/-- Draws an identifier that is equal to no other. -/
def drawId (f : Forest β) : EntityId × Forest β := (.drawn f.drawn, { f with drawn := f.drawn + 1 })

/-- Adds an entity at the end of the table and of its parent's children. -/
def insertChild (parent : EntityRef) (x : Entity β) (f : Forest β) : EntityRef × Forest β :=
  let e : EntityRef := ⟨f.size⟩
  let f := { f with entities := f.entities.push { x with parent := some parent } }
  (e, f.modify parent fun p => { p with children := p.children ++ [e] })

/-- Takes an entity out of its parent's children. -/
def removeChild (parent e : EntityRef) (f : Forest β) : Forest β :=
  f.modify parent fun p => { p with children := p.children.filter (· ≠ e) }

end Forest

end Vivarium
