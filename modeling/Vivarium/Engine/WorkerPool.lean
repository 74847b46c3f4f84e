import Vivarium.Engine.Error

/-! # The worker pool

A fixed number of workers serve jobs that submitters offer. An offer waits until a free worker
receives it, so a submission holds its submitter up while all workers are busy. Closing the pool
refuses later submissions; a free worker leaves when the pool is closed and nobody is offering.

The pool moves by the steps of `PoolStep`, in any order in which they are possible. `settle` is one
such order: the first free worker serves each offer at once, however the job ends.
-/

namespace Vivarium

/-- How far a worker has come. Its job counts as active while it is `running` or `finished`. -/
inductive WorkerStage (ι : Type)
  | free
  | received (job : ι)
  | running (job : ι)
  | finished (job : ι)
  | leaving
  | gone
  deriving DecidableEq, Repr

structure WorkerPool (ι : Type) where
  workers : List (WorkerStage ι)
  accepting : Bool := true
  /-- The jobs whose submitters wait for a free worker. -/
  offered : List ι := []
  active : Nat := 0
  alive : Nat
  /-- The jobs that were run, in the order of their ends, each with its worker. -/
  served : List (Nat × ι) := []
  deriving Repr

inductive PoolStep (ι : Type)
  | offer (job : ι)
  | close
  | receive (worker offer : Nat)
  | begin (worker : Nat)
  | finish (worker : Nat)
  | release (worker : Nat)
  | leave (worker : Nat)
  | exit (worker : Nat)
  deriving DecidableEq, Repr

namespace WorkerPool

variable {ι : Type}

/-- A pool of free workers; there is at least one, whatever number is asked for. -/
def create (workers : Nat) : WorkerPool ι :=
  { workers := List.replicate (max workers 1) .free, alive := max workers 1 }

def size (p : WorkerPool ι) : Nat := p.workers.length

def moveTo (worker : Nat) (stage : WorkerStage ι) (p : WorkerPool ι) : WorkerPool ι :=
  { p with workers := p.workers.set worker stage }

/-- What a step leads to; `none` if it is not possible. -/
def step? (p : WorkerPool ι) : PoolStep ι → Option (WorkerPool ι)
  | .offer job => if p.accepting then some { p with offered := p.offered ++ [job] } else none
  | .close => some { p with accepting := false }
  | .receive w k =>
    match p.workers[w]?, p.offered[k]? with
    | some .free, some job => some { p.moveTo w (.received job) with offered := p.offered.eraseIdx k }
    | _, _ => none
  | .begin w =>
    match p.workers[w]? with
    | some (.received job) => some { p.moveTo w (.running job) with active := p.active + 1 }
    | _ => none
  | .finish w =>
    match p.workers[w]? with
    | some (.running job) => some { p.moveTo w (.finished job) with served := p.served ++ [(w, job)] }
    | _ => none
  | .release w =>
    match p.workers[w]? with
    | some (.finished _) => some { p.moveTo w .free with active := p.active - 1 }
    | _ => none
  | .leave w =>
    match p.workers[w]? with
    | some .free => if !p.accepting && p.offered.isEmpty then some (p.moveTo w .leaving) else none
    | _ => none
  | .exit w =>
    match p.workers[w]? with
    | some .leaving => some { p.moveTo w .gone with alive := p.alive - 1 }
    | _ => none

/-- Takes the steps one after the other, passing over those that are not possible. -/
def follow (steps : List (PoolStep ι)) (p : WorkerPool ι) : WorkerPool ι :=
  steps.foldl (fun p s => (p.step? s).getD p) p

def isFree : WorkerStage ι → Bool
  | .free => true
  | _ => false

/-- Serves the jobs that are on offer now, each by the first free worker. -/
def settle (p : WorkerPool ι) : WorkerPool ι :=
  let w := p.workers.findIdx isFree
  p.follow (p.offered.flatMap fun _ => [.receive w 0, .begin w, .finish w, .release w])

/-- Hands a job to a worker. -/
def submit (job : ι) (p : WorkerPool ι) : Except EngineError (WorkerPool ι) :=
  match p.step? (.offer job) with
  | some p => .ok p.settle
  | none => .error .shutdown

/-- Closes the pool and lets every worker that can leave it leave. The answer is how many did not. -/
def shutdown (p : WorkerPool ι) : Nat × WorkerPool ι :=
  let p := (p.follow [.close]).settle
  let p := p.follow ((List.range p.size).flatMap fun w => [.leave w, .exit w])
  (p.alive, p)

end WorkerPool

end Vivarium
