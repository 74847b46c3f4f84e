import Vivarium.Simulation.Request

/-! # Programs

The code of tasks, listeners and methods as data: a program makes requests, passes on code of its
own, uses the memory, and goes on with each answer until it is done. Every program makes finitely
many requests. A request may run further code, so running is bounded by the nesting of the runs.
-/

namespace Vivarium

inductive Program (μ : Type) : Role → Type
  | done {r : Role} (answer : r.Answer) : Program μ r
  | request {r : Role} (q : Request) (next : q.Answer → Program μ r) : Program μ r
  /-- Goes on with the memory as it is and leaves the changed one. -/
  | memory {r : Role} (change : μ → μ) (next : μ → Program μ r) : Program μ r
  | schedule {r : Role} (owner : Owner) (actor : Actor) (code : (o : Occasion) → Program μ o.role)
      (delay period : Nat) (next : Except EngineError TaskId → Program μ r) : Program μ r
  /-- Sets the work that opens or closes every tick. -/
  | setBoundary {r : Role} (which : Boundary) (code : (o : Occasion) → Program μ o.role)
      (next : Program μ r) : Program μ r
  | subscribe {r : Role} (container : EntityRef) (listener : ListenerId)
      (code : (o : Occasion) → Program μ o.role) (next : Bool → Program μ r) : Program μ r
  | subscribeTo {r : Role} (holder : Holder) (key : AttributeKey) (listener : ListenerId)
      (code : (o : Occasion) → Program μ o.role) (next : Bool → Program μ r) : Program μ r

/-- Code that answers every occasion with a program. -/
abbrev Code (μ : Type) := (o : Occasion) → Program μ o.role

/-- The answer that changes nothing. -/
def Role.idle : (r : Role) → r.Answer
  | .task => .completed
  | .listener => ()
  | .method => .ok .void

namespace Code

variable {μ : Type}

/-- Code for tasks; on any other occasion it does nothing. -/
def ofTask (f : TaskContext → Program μ .task) : Code μ
  | .task context => f context
  | .entityEvent _ => .done ()
  | .attributeEvent _ => .done ()
  | .method _ _ => .done (.ok .void)

def ofEntityListener (f : EntityEvent → Program μ .listener) : Code μ
  | .task _ => .done .completed
  | .entityEvent event => f event
  | .attributeEvent _ => .done ()
  | .method _ _ => .done (.ok .void)

def ofAttributeListener (f : AttributeEvent → Program μ .listener) : Code μ
  | .task _ => .done .completed
  | .entityEvent _ => .done ()
  | .attributeEvent event => f event
  | .method _ _ => .done (.ok .void)

def ofMethod (f : Proxy → List Arg → Program μ .method) : Code μ
  | .task _ => .done .completed
  | .entityEvent _ => .done ()
  | .attributeEvent _ => .done ()
  | .method proxy args => f proxy args

end Code

namespace Program

variable {μ : Type}

/-- Runs a program; code that its requests run is run by `run`. -/
def exec (run : Run (Code μ) μ) (bound : Nat) {r : Role} : Program μ r → Act (Code μ) μ r.Answer
  | .done answer => return answer
  | .request q next => do (next (← Simulation.answer run bound q)).exec run bound
  | .memory change next => do
    let m ← modifyGet fun s => (s.memory, { s with memory := change s.memory })
    (next m).exec run bound
  | .schedule owner actor code delay period next => do
    (next (← Simulation.schedule owner ⟨code, actor⟩ delay period)).exec run bound
  | .setBoundary which code next => do
    Simulation.changeEngine (·.setBoundary which (some ⟨code, .nobody⟩))
    next.exec run bound
  | .subscribe container listener code next => do
    (next (← Simulation.onForest (·.subscribe container ⟨listener, code⟩))).exec run bound
  | .subscribeTo holder key listener code next => do
    (next (← Simulation.onAttributes holder (·.subscribe key ⟨listener, code⟩))).exec run bound

end Program

namespace Simulation

variable {μ : Type}

/-- Runs code at most `bound` runs deep. -/
def runCode : (bound : Nat) → Run (Code μ) μ
  | 0 => fun _ _ => halt .exhausted
  | bound + 1 => fun o code => (code o).exec (runCode bound) bound

/-- Runs a program from outside. -/
def execute (bound : Nat) {r : Role} (p : Program μ r) : Act (Code μ) μ r.Answer :=
  p.exec (runCode bound) bound

end Simulation

end Vivarium
