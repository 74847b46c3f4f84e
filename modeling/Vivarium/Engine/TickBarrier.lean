/-! # The barrier at the end of a tick

Every task of a tick registers as a party and arrives when it is done. The barrier can be passed
when all parties of the generation have arrived, and passing it starts the next generation. Once
terminated it holds nobody up and no longer advances.
-/

namespace Vivarium

structure TickBarrier where
  generation : Nat := 0
  registered : Nat := 0
  arrived : Nat := 0
  terminated : Bool := false
  deriving DecidableEq, Repr, Inhabited

namespace TickBarrier

def register (b : TickBarrier) : Nat × TickBarrier :=
  (b.generation, { b with registered := b.registered + 1 })

def arrive (b : TickBarrier) : TickBarrier := { b with arrived := b.arrived + 1 }

def terminate (b : TickBarrier) : TickBarrier := { b with terminated := true }

def pending (b : TickBarrier) : Nat := b.registered - b.arrived

/-- Waiting would not end now: a party is missing and the barrier is not terminated. -/
def blocks (b : TickBarrier) : Bool := b.arrived < b.registered && !b.terminated

/-- Passes the barrier: `false` if it was terminated, otherwise the next generation starts. -/
def pass (b : TickBarrier) : Bool × TickBarrier :=
  if b.terminated then (false, b)
  else (true, { b with generation := b.generation + 1, registered := 0, arrived := 0 })

/-- Waits for the missing parties and passes; `none` if the wait would not end now. -/
def await? (b : TickBarrier) : Option (Bool × TickBarrier) := if b.blocks then none else some b.pass

/-- Passes the barrier once for each of several parties that are released together. -/
def passMany : Nat → TickBarrier → List Bool × TickBarrier
  | 0, b => ([], b)
  | n + 1, b =>
    let (passed, b) := b.pass
    let (rest, b) := passMany n b
    (passed :: rest, b)

end TickBarrier

/-! ## Waiting threads -/

/-- A barrier at which threads wait. The results are of those that have passed and are not joined
yet, in the order of their passing. -/
structure AwaitedBarrier where
  barrier : TickBarrier := {}
  waiting : Nat := 0
  results : List Bool := []
  deriving DecidableEq, Repr, Inhabited

namespace AwaitedBarrier

/-- Releases the waiting threads if the barrier holds nobody up. -/
def release (a : AwaitedBarrier) : AwaitedBarrier :=
  if a.barrier.blocks then a
  else
    let (passed, barrier) := a.barrier.passMany a.waiting
    { barrier, waiting := 0, results := a.results ++ passed }

def change (barrier : TickBarrier) (a : AwaitedBarrier) : AwaitedBarrier :=
  release { a with barrier }

/-- One more thread waits. -/
def wait (a : AwaitedBarrier) : AwaitedBarrier := release { a with waiting := a.waiting + 1 }

/-- The result of the last thread that has passed, which is joined. -/
def join (a : AwaitedBarrier) : Option Bool × AwaitedBarrier :=
  (a.results.getLast?, { a with results := a.results.dropLast })

/-- Waits at the barrier as well; `none` if the wait would not end now. -/
def await (a : AwaitedBarrier) : Option Bool × AwaitedBarrier :=
  match a.barrier.await? with
  | some (passed, b) => (some passed, a.change b)
  | none => (none, a)

/-- Every thread is joined. -/
def isQuiet (a : AwaitedBarrier) : Bool := a.waiting == 0 && a.results.isEmpty

end AwaitedBarrier

end Vivarium
