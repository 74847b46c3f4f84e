import Vivarium.Data.Entries
import Vivarium.Schedule.Task

/-! # Task trackers

The set of the tasks that an owner has scheduled. Finished tasks stay in it until the set has grown
to `pruneThreshold` and another task is tracked.
-/

namespace Vivarium

structure TaskTracker where
  ids : List TaskId := []
  deriving DecidableEq, Repr, Inhabited

namespace TaskTracker

/-- The size from which on tracking a task first drops those that are no longer active. -/
def pruneThreshold : Nat := 64

def size (t : TaskTracker) : Nat := t.ids.length

def contains (id : TaskId) (t : TaskTracker) : Bool := t.ids.contains id

def track (id : TaskId) (t : TaskTracker) : TaskTracker := ⟨Distinct.add id t.ids⟩

def untrack (id : TaskId) (t : TaskTracker) : TaskTracker := ⟨Distinct.remove id t.ids⟩

def prune (active : TaskId → Bool) (t : TaskTracker) : TaskTracker := ⟨t.ids.filter active⟩

def trackPruned (active : TaskId → Bool) (id : TaskId) (t : TaskTracker) : TaskTracker :=
  (if pruneThreshold ≤ t.size then t.prune active else t).track id

end TaskTracker

end Vivarium
