import Vivarium.Data.Entries
import Vivarium.Schedule.Task

/-! # The task queue

Tasks wait in the order of their due times, and those due at one time in the order of their
insertion. The queue keeps them in a list ordered by slot, a due time with an insertion number, and
an index from the identities of the tasks to their slots.
-/

namespace Vivarium

structure Slot where
  due : Nat
  turn : Nat
  deriving DecidableEq, Repr

def Slot.lt (a b : Slot) : Prop := a.due < b.due ∨ (a.due = b.due ∧ a.turn < b.turn)

instance (a b : Slot) : Decidable (a.lt b) := inferInstanceAs (Decidable (_ ∨ _))

structure TaskQueue (β : Type) where
  /-- The tasks with their slots, in the order of the slots. -/
  order : List (Slot × Task β) := []
  index : List (TaskId × Slot) := []
  /-- The number of the next insertion. A counter of 64 bits is the same for the first 2 ^ 64 of them. -/
  nextTurn : Nat := 0

namespace TaskQueue

variable {β : Type}

def empty : TaskQueue β := {}

/-- Puts a task into its place; a slot that is taken gets the new task. -/
def place (slot : Slot) (t : Task β) : List (Slot × Task β) → List (Slot × Task β)
  | [] => [(slot, t)]
  | (s, u) :: rest =>
    if slot.lt s then (slot, t) :: (s, u) :: rest
    else if slot = s then (slot, t) :: rest
    else (s, u) :: place slot t rest

def toList (q : TaskQueue β) : List (Task β) := q.order.map (·.2)

def size (q : TaskQueue β) : Nat := q.order.length

def isEmpty (q : TaskQueue β) : Bool := q.order.isEmpty

def contains (id : TaskId) (q : TaskQueue β) : Bool := Entries.has id q.index

def get? (id : TaskId) (q : TaskQueue β) : Option (Task β) :=
  (Entries.get? id q.index).bind fun slot => Entries.get? slot q.order

/-- Removes a task by its identity and returns it. -/
def take (id : TaskId) (q : TaskQueue β) : Option (Task β) × TaskQueue β :=
  match Entries.get? id q.index with
  | none => (none, q)
  | some slot =>
    (Entries.get? slot q.order,
      { q with order := Entries.erase slot q.order, index := Entries.erase id q.index })

def remove (id : TaskId) (q : TaskQueue β) : Bool × TaskQueue β :=
  let (t, q) := q.take id
  (t.isSome, q)

/-- Inserts a task behind those due no later, in place of a queued task of the same identity. -/
def insert (t : Task β) (q : TaskQueue β) : TaskQueue β :=
  let q := (q.take t.id).2
  let slot : Slot := ⟨t.due, q.nextTurn⟩
  { order := place slot t q.order
    index := Entries.put t.id slot q.index
    nextTurn := q.nextTurn + 1 }

def nextDue (q : TaskQueue β) : Option Nat := q.order.head?.map (·.1.due)

/-- The earliest task, if it is due before `bound`. -/
def peekDue (bound : Nat) (q : TaskQueue β) : Option (Task β) :=
  match q.order with
  | (slot, t) :: _ => if slot.due < bound then some t else none
  | [] => none

def popDue (bound : Nat) (q : TaskQueue β) : Option (Task β × TaskQueue β) :=
  match q.order with
  | (slot, t) :: rest =>
    if slot.due < bound then some (t, { q with order := rest, index := Entries.erase t.id q.index })
    else none
  | [] => none

theorem size_popDue {bound : Nat} {q q' : TaskQueue β} {t : Task β}
    (h : q.popDue bound = some (t, q')) : q'.size < q.size := by
  unfold popDue at h
  split at h
  · next slot u rest horder =>
    split at h
    · cases h
      simp [size, horder]
    · cases h
  · cases h

/-- Pops every task due before `bound`, in order. -/
def popAllDue (bound : Nat) (q : TaskQueue β) : List (Task β) × TaskQueue β :=
  match h : q.popDue bound with
  | none => ([], q)
  | some (t, q') =>
    have := size_popDue h
    let (ts, rest) := q'.popAllDue bound
    (t :: ts, rest)
termination_by q.size

/-- Removes every task; they come in the order in which they would run. -/
def drain (q : TaskQueue β) : List (Task β) × TaskQueue β :=
  (q.toList, { q with order := [], index := [] })

end TaskQueue

end Vivarium
