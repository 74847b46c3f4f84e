/-! # Scheduled tasks

A task is work with the time it is due and the period after which it runs again. Its identity is a
number that no other task of its engine has.
-/

namespace Vivarium

structure TaskId where
  number : Nat
  deriving DecidableEq, Repr, Inhabited

/-- Work of type `β` with the time it is due. A zero period makes it a one-shot. -/
structure Task (β : Type) where
  id : TaskId
  work : β
  period : Nat
  due : Nat
  deriving Repr

def Task.isPeriodic {β : Type} (t : Task β) : Bool := t.period != 0

/-- What can be seen of a scheduled task from outside. -/
structure TaskStatus where
  due : Nat
  period : Nat
  cancelled : Bool
  deriving DecidableEq, Repr

def Task.status {β : Type} (cancelled : Bool) (t : Task β) : TaskStatus := ⟨t.due, t.period, cancelled⟩

end Vivarium
