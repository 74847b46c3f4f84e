import Mathlib.Logic.Relation
import Vivarium.Engine.Basic
import Vivarium.Proofs.Queue

/-! # The machine of a single-threaded engine

An engine with the place where its one thread stands and a journal of what has happened. The steps are
the operations of the engine. Bodies are not interpreted: while one runs, any calls may come, as they
may come from outside between two operations, so the runs of the machine are those for every choice
of bodies. Only that a body starts no tick is built in.
-/

namespace Vivarium

/-! ## Calls -/

/-- What bodies and callers may ask of an engine at any time. -/
inductive EngineCall (β : Type)
  | schedule (work : β) (delay period : Nat)
  | cancel (id : TaskId)
  | flag (id : TaskId)
  | pause
  | stop
  | setBoundary (which : Boundary) (work : Option β)
  | setClock (clock : Clock)

/-- An entry of a journal. -/
inductive Note (β : Type)
  | scheduled (t : Task β)
  /-- A queued task was cancelled. -/
  | withdrawn (id : TaskId)
  /-- The engine was asked to stop, and gave these tasks up. -/
  | stopped (left : List Abandoned)
  /-- The body of a boundary action starts. -/
  | opened (which : Boundary) (t : Task β)
  | launched (due : List (Task β))
  /-- The turn of a launched task comes, with its cancel flag. -/
  | turn (t : Task β) (flagged : Bool)
  /-- The body of a launched task starts. -/
  | started (t : Task β) (now : Nat)
  /-- The turn of a task in flight ends, with its cancel flag and the time. -/
  | completed (t : Task β) (flagged : Bool) (now : Nat)
  /-- The turn of a task ends that is not in flight any more. -/
  | givenUp (t : Task β)

namespace Note

variable {β : Type}

def scheduled? : Note β → Option (Task β)
  | .scheduled t => some t
  | _ => none

def withdrawn? : Note β → Option TaskId
  | .withdrawn id => some id
  | _ => none

def stopped? : Note β → Option (List Abandoned)
  | .stopped left => some left
  | _ => none

def turn? : Note β → Option (Task β × Bool)
  | .turn t flagged => some (t, flagged)
  | _ => none

/-- The task whose body starts, be it a launched task or a boundary action. -/
def begun? : Note β → Option TaskId
  | .opened _ t => some t.id
  | .started t _ => some t.id
  | _ => none

def completed? : Note β → Option (Task β)
  | .completed t _ _ => some t
  | _ => none

/-- A periodic task whose turn ends unflagged comes back, due a period after the end. -/
def requeued? : Note β → Option (Task β)
  | .completed t flagged now =>
    if t.isPeriodic && !flagged then some { t with due := Duration.after now t.period } else none
  | _ => none

/-- A task that is gone for good: it was cancelled while queued, or its turn ended and it is a
one-shot or flagged. -/
def gone? : Note β → Option TaskId
  | .withdrawn id => some id
  | .completed t flagged _ => if t.isPeriodic && !flagged then none else some t.id
  | _ => none

end Note

namespace Engine

variable {β : Type}

/-- The task that scheduling makes. -/
def newTask (work : β) (delay period : Nat) (e : Engine β) : Task β :=
  { id := ⟨e.nextTask⟩, work, period, due := Duration.after e.now delay }

end Engine

namespace EngineCall

variable {β : Type}

/-- The engine after a call; a call that is refused leaves it as it is. -/
def effect (e : Engine β) : EngineCall β → Engine β
  | .schedule work delay period =>
    match e.schedule work delay period with
    | .ok (_, e') => e'
    | .error _ => e
  | .cancel id => (e.cancel id).2
  | .flag id => e.flag id
  | .pause =>
    match e.pause with
    | .ok e' => e'
    | .error _ => e
  | .stop => e.stop.2
  | .setBoundary which work => e.setBoundary which work
  | .setClock clock => { e with clock }

/-- The call is a single step even where other threads may move; a pause or a stop is several. -/
def atOnce : EngineCall β → Bool
  | .pause | .stop => false
  | _ => true

def notes (e : Engine β) : EngineCall β → List (Note β)
  | .schedule work delay period =>
    match e.schedule work delay period with
    | .ok _ => [.scheduled (e.newTask work delay period)]
    | .error _ => []
  | .cancel id => if e.queue.contains id then [.withdrawn id] else []
  | .stop => [.stopped e.stop.1]
  | _ => []

end EngineCall

/-! ## Places -/

/-- A tick that is under way, with its end. It is driven by the loop or by a single step. -/
structure TickFrame where
  deadline : Nat
  looped : Bool

inductive Phase (β : Type)
  /-- No operation is in progress. -/
  | idle
  /-- The loop decides whether to go on. -/
  | between
  /-- A boundary action comes next. -/
  | facing (k : TickFrame) (which : Boundary)
  /-- The body of a boundary action is running. -/
  | boundary (k : TickFrame) (which : Boundary) (t : Task β)
  | launching (k : TickFrame)
  /-- The turns of `rest` are to come, then the barrier. -/
  | turns (k : TickFrame) (rest : List (Task β))
  /-- The body of `t` is running. -/
  | body (k : TickFrame) (t : Task β) (rest : List (Task β))
  | parking (k : TickFrame)

namespace Phase

variable {β : Type}

/-- The launched tasks whose turns have not ended. -/
def pending : Phase β → List (Task β)
  | .turns _ rest => rest
  | .body _ t rest => t :: rest
  | _ => []

/-- The task whose body is running. -/
def running? : Phase β → Option TaskId
  | .boundary _ _ t => some t.id
  | .body _ t _ => some t.id
  | _ => none

/-- Calls may come: a body is running, or nothing is. -/
def listens : Phase β → Bool
  | .idle | .boundary _ _ _ | .body _ _ _ => true
  | _ => false

/-- The loop is alive. -/
def looped : Phase β → Bool
  | .idle => false
  | .between => true
  | .facing k _ | .boundary k _ _ | .launching k | .turns k _ | .body k _ _ | .parking k => k.looped

/-- The parties that are registered at the barrier and have not arrived. -/
def parties : Phase β → Nat
  | .body _ _ _ => 1
  | _ => 0

/-- Where a tick goes after a boundary action. -/
def past (k : TickFrame) : Boundary → Phase β
  | .first => .launching k
  | .last => .parking k

/-- Where a tick goes at its end. -/
def leave (k : TickFrame) : Phase β := if k.looped then .between else .idle

end Phase

/-! ## Steps -/

namespace Engine

variable {β : Type}

def frame (looped : Bool) (e : Engine β) : TickFrame := ⟨Duration.after e.now e.meter.interval, looped⟩

def beginTick (e : Engine β) : Engine β := { e with meter := e.meter.beginTick e.now }

def register (e : Engine β) : Engine β := { e with barrier := e.barrier.register.2 }

/-- Ends the turn of a task, which then arrives at the barrier. -/
def finish (t : Task β) (e : Engine β) : Engine β :=
  { e.complete t with barrier := (e.complete t).barrier.arrive }

def finishNote (t : Task β) (e : Engine β) : Note β :=
  if Entries.has t.id e.inFlight then .completed t (e.isFlagged t.id) e.now else .givenUp t

theorem scheduled_finishNote (t : Task β) (e : Engine β) : (e.finishNote t).scheduled? = none := by
  unfold finishNote
  split <;> rfl

theorem turn_finishNote (t : Task β) (e : Engine β) : (e.finishNote t).turn? = none := by
  unfold finishNote
  split <;> rfl

theorem begun_finishNote (t : Task β) (e : Engine β) : (e.finishNote t).begun? = none := by
  unfold finishNote
  split <;> rfl

theorem filterMap_begun_finishNote (t : Task β) (e : Engine β) :
    [e.finishNote t].filterMap Note.begun? = [] := List.filterMap_cons_none (begun_finishNote t e)

def endTick (deadline : Nat) (e : Engine β) : Engine β :=
  { e with meter := e.meter.endTick }.park deadline

end Engine

structure Machine (β : Type) where
  engine : Engine β
  phase : Phase β := .idle
  journal : List (Note β) := []

namespace Machine

variable {β : Type}

def move (e : Engine β) (phase : Phase β) (notes : List (Note β)) (m : Machine β) : Machine β :=
  ⟨e, phase, m.journal ++ notes⟩

/-- The tasks that were ever scheduled, by their identities. -/
def issued (m : Machine β) : List TaskId := m.journal.filterMap fun n => n.scheduled?.map (·.id)

/-- What each stop gave back, the first stop first. -/
def stops (m : Machine β) : List (List Abandoned) := m.journal.filterMap Note.stopped?

/-- The tasks that the first stop gave back. -/
def abandoned (m : Machine β) : List TaskId := (m.stops.headD []).map (·.id)

def gone (m : Machine β) : List TaskId := m.journal.filterMap Note.gone?

/-- The bodies that were started, in order. -/
def begun (m : Machine β) : List TaskId := m.journal.filterMap Note.begun?

/-- A flag is raised through the context of the body that runs, or through a copy of a scheduled
task. All other calls are free. -/
def Allows (m : Machine β) : EngineCall β → Prop
  | .flag id => id ∈ m.issued ∨ m.phase.running? = some id
  | _ => True

inductive Step (m : Machine β) : Machine β → Prop
  | call (c : EngineCall β) (hp : m.phase.listens = true) (hc : m.Allows c) :
    Step m (m.move (c.effect m.engine) m.phase (c.notes m.engine))
  | step {e : Engine β} (hp : m.phase = .idle) (hr : m.engine.running = false)
    (he : m.engine.enter .ticking = .ok e) :
    Step m (m.move e.beginTick (.facing (e.frame false) .first) [])
  | tick {drives : Bool} {e : Engine β} (hp : m.phase = .idle)
    (he : m.engine.start = .ok (drives, e)) :
    Step m (m.move e (if drives then .between else .idle) [])
  | again {e : Engine β} (hp : m.phase = .between) (he : m.engine.continues = (true, e)) :
    Step m (m.move e.beginTick (.facing (e.frame true) .first) [])
  | leave {e : Engine β} (hp : m.phase = .between) (he : m.engine.continues = (false, e)) :
    Step m (m.move e .idle [])
  | absent {k : TickFrame} {which : Boundary} (hp : m.phase = .facing k which)
    (hb : m.engine.boundary which = none) : Step m (m.move m.engine (.past k which) [])
  | pass {k : TickFrame} {which : Boundary} {t : Task β} (hp : m.phase = .facing k which)
    (hb : m.engine.boundary which = some t) (hf : m.engine.isFlagged t.id = true) :
    Step m (m.move (m.engine.settleBoundary which t) (.past k which) [])
  | enter {k : TickFrame} {which : Boundary} {t : Task β} (hp : m.phase = .facing k which)
    (hb : m.engine.boundary which = some t) (hf : m.engine.isFlagged t.id = false) :
    Step m (m.move m.engine (.boundary k which t) [.opened which t])
  | settle {k : TickFrame} {which : Boundary} {t : Task β} (hp : m.phase = .boundary k which t) :
    Step m (m.move (m.engine.settleBoundary which t) (.past k which) [])
  | launch {k : TickFrame} (hp : m.phase = .launching k) :
    Step m (m.move (m.engine.launch k.deadline).2 (.turns k (m.engine.launch k.deadline).1)
      [.launched (m.engine.launch k.deadline).1])
  | start {k : TickFrame} {t : Task β} {rest : List (Task β)} (hp : m.phase = .turns k (t :: rest))
    (hf : m.engine.isFlagged t.id = false) :
    Step m (m.move m.engine.register (.body k t rest) [.turn t false, .started t m.engine.now])
  | skip {k : TickFrame} {t : Task β} {rest : List (Task β)} (hp : m.phase = .turns k (t :: rest))
    (hf : m.engine.isFlagged t.id = true) :
    Step m (m.move (m.engine.register.finish t) (.turns k rest) [.turn t true, m.engine.finishNote t])
  | finish {k : TickFrame} {t : Task β} {rest : List (Task β)} (hp : m.phase = .body k t rest) :
    Step m (m.move (m.engine.finish t) (.turns k rest) [m.engine.finishNote t])
  | advance {k : TickFrame} {b : TickBarrier} (hp : m.phase = .turns k [])
    (hb : m.engine.barrier.await? = some (true, b)) :
    Step m (m.move { m.engine with barrier := b } (.facing k .last) [])
  | release {k : TickFrame} {b : TickBarrier} (hp : m.phase = .turns k [])
    (hb : m.engine.barrier.await? = some (false, b)) :
    Step m (m.move { m.engine with barrier := b } (.leave k) [])
  | park {k : TickFrame} (hp : m.phase = .parking k) :
    Step m (m.move (m.engine.endTick k.deadline) (.leave k) [])

/-- A single tick has just begun. -/
def beginStep (m : Machine β) : Machine β :=
  m.move { m.engine with state := .ticking }.beginTick (.facing (m.engine.frame false) .first) []

def Reaches : Machine β → Machine β → Prop := Relation.ReflTransGen Step

/-- A step inside an operation. -/
def Inside (m m' : Machine β) : Prop := m.phase ≠ .idle ∧ m.Step m'

/-- Reaches without an operation having ended on the way. -/
def Works : Machine β → Machine β → Prop := Relation.ReflTransGen Inside

/-- Some run of a new engine leads to the machine. -/
def Reachable (m : Machine β) : Prop :=
  ∃ config e, Engine.create config = .ok e ∧ Reaches { engine := e } m

theorem Works.reaches {m m' : Machine β} (h : m.Works m') : m.Reaches m' :=
  Relation.ReflTransGen.mono (fun _ _ hs => hs.2) _ _ h

theorem Works.after {m m' m'' : Machine β} (hw : m.Works m') (hidle : m'.phase ≠ .idle)
    (hs : m'.Step m'') : m.Works m'' := hw.tail ⟨hidle, hs⟩

/-- A journal only grows. -/
theorem Step.journal {m m' : Machine β} (h : m.Step m') : m.journal <+: m'.journal := by
  cases h <;> exact List.prefix_append _ _

theorem Reaches.journal {m m' : Machine β} (h : m.Reaches m') : m.journal <+: m'.journal := by
  induction h with
  | refl => exact List.prefix_refl _
  | tail _ hs ih => exact ih.trans hs.journal

/-! ## What a journal tells stays told -/

theorem Reaches.issued {m m' : Machine β} (h : m.Reaches m') : m.issued ⊆ m'.issued :=
  (h.journal.filterMap _).subset

theorem Reaches.gone {m m' : Machine β} (h : m.Reaches m') : m.gone ⊆ m'.gone :=
  (h.journal.filterMap _).subset

theorem Reaches.stops {m m' : Machine β} (h : m.Reaches m') : m.stops <+: m'.stops :=
  h.journal.filterMap _

theorem Reaches.abandoned {m m' : Machine β} (h : m.Reaches m') : m.abandoned ⊆ m'.abandoned := by
  obtain ⟨rest, hrest⟩ := h.stops
  unfold Machine.abandoned
  rw [← hrest]
  cases m.stops with
  | nil => exact List.nil_subset _
  | cons left rest => exact List.Subset.refl _

/-! ## Calls one after the other -/

def calls (cs : List (EngineCall β)) (m : Machine β) : Machine β :=
  cs.foldl (fun m c => m.move (c.effect m.engine) m.phase (c.notes m.engine)) m

theorem reaches_calls {m : Machine β} (hp : m.phase.listens = true) {cs : List (EngineCall β)}
    (hcs : ∀ c ∈ cs, ∀ id, c ≠ .flag id) : m.Reaches (m.calls cs) := by
  induction cs generalizing m with
  | nil => exact .refl
  | cons c cs ih =>
    obtain ⟨hc, hcs⟩ := List.forall_mem_cons.mp hcs
    have hallow : m.Allows c := by
      cases c with
      | flag id => exact absurd rfl (hc id)
      | _ => trivial
    exact .head (.call c hp hallow) (ih hp hcs)

/-- A new engine with a periodic task and a one-shot that is due with it. -/
def rivals : Machine Unit :=
  ({ engine := { config := .standard 1, meter := { ticksPerSecond := 30 } } } : Machine Unit).calls
    [.schedule () 0 1, .schedule () 0 0]

theorem rivals_reachable : rivals.Reachable :=
  ⟨.standard 1, _, rfl, reaches_calls rfl (by simp)⟩

end Machine

end Vivarium
