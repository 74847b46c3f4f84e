import Vivarium.Value

/-! # Attributes and their listeners

Attributes are keyed by name and type, so one name may hold a value of each type. A set of attributes
keeps them in the order of their insertion, together with the listeners subscribed to each key.
Running the listeners is left to the simulation.
-/

namespace Vivarium

structure AttributeKey where
  name : String
  type : AttributeType
  deriving DecidableEq, Repr, Inhabited

namespace AttributeKey

def text (k : AttributeKey) : String := k.name ++ ":" ++ k.type.name

/-- Keys are ordered by name and then by type. -/
def le (a b : AttributeKey) : Bool := a.name < b.name || (a.name == b.name && a.type.rank ≤ b.type.rank)

end AttributeKey

inductive AttributeChange
  | added
  | changed
  | removed
  deriving DecidableEq, Repr

def AttributeChange.name : AttributeChange → String
  | .added => "added"
  | .changed => "changed"
  | .removed => "removed"

/-- What listeners of a key are told: the values after and before the change. -/
structure AttributeEvent where
  entity : EntityId
  key : AttributeKey
  value : Option Value
  previous : Option Value

def AttributeEvent.change (e : AttributeEvent) : AttributeChange :=
  match e.previous, e.value with
  | none, _ => .added
  | some _, none => .removed
  | some _, some _ => .changed

structure ListenerId where
  number : Nat
  deriving DecidableEq, Repr, Inhabited

/-- Code of type `β` that is run on events. Listeners are the same when their identities are. -/
structure Listener (β : Type) where
  id : ListenerId
  code : β

namespace Listener

variable {β : Type}

def subscribe (l : Listener β) (ls : List (Listener β)) : Bool × List (Listener β) :=
  if ls.any (·.id == l.id) then (false, ls) else (true, ls ++ [l])

def unsubscribe (id : ListenerId) (ls : List (Listener β)) : Bool × List (Listener β) :=
  (ls.any (·.id == id), ls.filter (·.id != id))

end Listener

structure AttributeSet (β : Type) where
  owner : EntityId
  values : List (AttributeKey × Value) := []
  listeners : List (AttributeKey × List (Listener β)) := []

namespace AttributeSet

variable {β : Type}

def get? (k : AttributeKey) (s : AttributeSet β) : Option Value := Entries.get? k s.values

def has (k : AttributeKey) (s : AttributeSet β) : Bool := (s.get? k).isSome

def size (s : AttributeSet β) : Nat := s.values.length

def put (k : AttributeKey) (v : Value) (s : AttributeSet β) : AttributeSet β :=
  { s with values := Entries.put k v s.values }

def erase (k : AttributeKey) (s : AttributeSet β) : AttributeSet β :=
  { s with values := Entries.erase k s.values }

/-- Removes all values; no listener is told. -/
def clear (s : AttributeSet β) : AttributeSet β := { s with values := [] }

/-- Puts all of `vs` in order. -/
def putAll (vs : List (AttributeKey × Value)) (s : AttributeSet β) : AttributeSet β :=
  vs.foldl (fun s (k, v) => s.put k v) s

def listenersOf (k : AttributeKey) (s : AttributeSet β) : List (Listener β) :=
  (Entries.get? k s.listeners).getD []

def subscribe (k : AttributeKey) (l : Listener β) (s : AttributeSet β) : Bool × AttributeSet β :=
  let (added, ls) := l.subscribe (s.listenersOf k)
  (added, { s with listeners := Entries.put k ls s.listeners })

def unsubscribe (k : AttributeKey) (id : ListenerId) (s : AttributeSet β) : Bool × AttributeSet β :=
  let (removed, ls) := Listener.unsubscribe id (s.listenersOf k)
  (removed, if removed then { s with listeners := Entries.put k ls s.listeners } else s)

end AttributeSet

end Vivarium
