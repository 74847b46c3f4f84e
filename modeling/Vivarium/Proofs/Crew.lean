import Mathlib.Data.List.Perm.Basic
import Vivarium.Engine.WorkerPool
import Vivarium.Proofs.Control

/-! # The crew of a pool engine

An engine with a control thread, the workers that serve its tasks and the callers that ask something
of it, all of which may move at any time. The control thread runs the ticks: it registers each due
task at the barrier and hands it to a worker, awaits the barrier and runs the last action. A worker
runs the body of its task, completes the task and arrives. Bodies are not interpreted: what one asks
of the engine is a call that may come anyway.
-/

namespace Vivarium

/-- A step that a worker takes whatever its job is. -/
def PoolStep.isFree {ι : Type} : PoolStep ι → Bool
  | .begin _ | .release _ | .leave _ | .exit _ => true
  | _ => false

theorem filterMap_cons_toList {α γ : Type} (f : α → Option γ) (a : α) (as : List α) :
    (a :: as).filterMap f = (f a).toList ++ as.filterMap f := by
  cases h : f a with
  | none => exact List.filterMap_cons_none h
  | some c => exact List.filterMap_cons_some h

/-! ## Turns -/

/-- The turn of a task in a tick. -/
structure Turn where
  tick : Nat
  id : TaskId
  deriving DecidableEq, Repr

/-- How far a worker has come with the turn of a task. -/
inductive Progress
  | ready
  | body
  | ended
  | completed
  | arrived
  deriving DecidableEq, Repr

/-- The turn of a task as the job of a worker. -/
structure Post (β : Type) where
  tick : Nat
  task : Task β
  progress : Progress := .ready

namespace Post

variable {β : Type}

def turn (p : Post β) : Turn := ⟨p.tick, p.task.id⟩

def owed? (p : Post β) : Option Turn := if p.progress = .arrived then none else some p.turn

end Post

namespace WorkerStage

variable {β : Type}

/-- The turn that a worker has taken over and has not arrived with. -/
def owed? : WorkerStage (Post β) → Option Turn
  | .received p | .running p => p.owed?
  | _ => none

def body? : WorkerStage (Post β) → Option TaskId
  | .running p => if p.progress = .body then some p.task.id else none
  | _ => none

theorem owed_of_body {s : WorkerStage (Post β)} {id : TaskId} (h : s.body? = some id) :
    s.owed?.map (·.id) = some id := by
  cases s with
  | running p =>
    simp only [body?] at h
    split at h
    · next hbody =>
      rw [owed?, Post.owed?, hbody]
      exact h
    · cases h
  | _ => cases h

end WorkerStage

namespace WorkerPool

variable {β : Type} {p q : WorkerPool (Post β)}

def owed (p : WorkerPool (Post β)) : List Turn :=
  p.offered.filterMap Post.owed? ++ p.workers.filterMap WorkerStage.owed?

def bodies (p : WorkerPool (Post β)) : List TaskId := p.workers.filterMap WorkerStage.body?

theorem bodies_sublist (p : WorkerPool (Post β)) : p.bodies.Sublist (p.owed.map (·.id)) := by
  have hworkers : p.bodies.Sublist ((p.workers.filterMap WorkerStage.owed?).map (·.id)) := by
    unfold bodies
    induction p.workers with
    | nil => exact List.Sublist.refl _
    | cons s ss ih =>
      cases hbody : s.body? with
      | none =>
        rw [List.filterMap_cons_none hbody]
        cases howed : s.owed? with
        | none => rwa [List.filterMap_cons_none howed]
        | some turn =>
          rw [List.filterMap_cons_some howed]
          exact ih.cons _
      | some id =>
        obtain ⟨turn, howed, rfl⟩ := Option.map_eq_some_iff.mp (WorkerStage.owed_of_body hbody)
        rw [List.filterMap_cons_some hbody, List.filterMap_cons_some howed]
        exact ih.cons_cons _
  rw [owed, List.map_append]
  exact hworkers.trans (List.sublist_append_right _ _)

theorem owed_create (workers : Nat) : (create workers : WorkerPool (Post β)).owed = [] := by
  rw [owed, create, List.filterMap_replicate]
  rfl

/-- Only the worker that moves can take a turn over or arrive with one. -/
theorem owed_moveTo {w : Nat} {s : WorkerStage (Post β)} (hw : p.workers[w]? = some s)
    (s' : WorkerStage (Post β)) :
    ((p.moveTo w s').owed ++ s.owed?.toList).Perm (p.owed ++ s'.owed?.toList) := by
  obtain ⟨hlt, rfl⟩ := List.getElem?_eq_some_iff.mp hw
  have hbefore := (List.getElem_cons_eraseIdx_perm hlt).filterMap WorkerStage.owed?
  have hafter := (List.set_perm_cons_eraseIdx hlt s').filterMap WorkerStage.owed?
  refine List.perm_iff_count.mpr fun turn => ?_
  have hbefore := hbefore.count_eq turn
  have hafter := hafter.count_eq turn
  simp only [owed, moveTo, filterMap_cons_toList, List.count_append] at hbefore hafter ⊢
  omega

theorem owed_moveTo_same {w : Nat} {s s' : WorkerStage (Post β)} (hw : p.workers[w]? = some s)
    (hs : s'.owed? = s.owed?) : (p.moveTo w s').owed.Perm p.owed :=
  (List.perm_append_right_iff _).mp (hs ▸ owed_moveTo hw s')

theorem owed_offer {job : Post β} (h : p.step? (.offer job) = some q) :
    q.owed.Perm (job.owed?.toList ++ p.owed) := by
  simp only [step?] at h
  split at h
  · cases h
    refine List.perm_iff_count.mpr fun turn => ?_
    simp only [owed, List.filterMap_append, filterMap_cons_toList, List.filterMap_nil, List.append_nil,
      List.count_append]
    omega
  · cases h

theorem owed_receive {w k : Nat} (h : p.step? (.receive w k) = some q) : q.owed.Perm p.owed := by
  simp only [step?] at h
  split at h
  · next job hw hk =>
    cases h
    obtain ⟨hlt, rfl⟩ := List.getElem?_eq_some_iff.mp hk
    have hoffered := (List.getElem_cons_eraseIdx_perm hlt).filterMap Post.owed?
    have hmove := owed_moveTo hw (.received p.offered[k])
    refine List.perm_iff_count.mpr fun turn => ?_
    have hoffered := hoffered.count_eq turn
    have hmove := hmove.count_eq turn
    simp only [owed, moveTo, WorkerStage.owed?, filterMap_cons_toList, Option.toList_none,
      List.append_nil, List.count_append] at hoffered hmove ⊢
    omega
  · cases h

theorem owed_free {s : PoolStep (Post β)} (hs : s.isFree = true) (h : p.step? s = some q) :
    q.owed.Perm p.owed := by
  cases s with
  | begin w | release w | exit w =>
    simp only [step?] at h
    split at h
    · next hw =>
      cases h
      exact owed_moveTo_same hw rfl
    · cases h
  | leave w =>
    simp only [step?] at h
    split at h
    · next hw =>
      split at h
      · cases h
        exact owed_moveTo_same hw rfl
      · cases h
    · cases h
  | _ => cases hs

theorem owed_finish {w : Nat} {job : Post β} (hw : p.workers[w]? = some (.running job))
    (hjob : job.progress = .arrived) (h : p.step? (.finish w) = some q) : q.owed.Perm p.owed := by
  have hnone : job.owed? = none := if_pos hjob
  rw [step?, hw] at h
  cases h
  exact owed_moveTo_same hw hnone.symm

end WorkerPool

/-! ## Stations of the control thread -/

inductive Handover
  | registered
  | offered
  | refused
  | withdrawn
  deriving DecidableEq, Repr

/-- Where the control thread stands. A boundary action that it is `reading` may turn out to be flagged;
the tasks `rest` are still to be handed over, and when there are none the barrier is awaited. -/
inductive Station (β : Type)
  | away
  | starting
  | between
  | facing (k : TickFrame) (which : Boundary)
  | reading (k : TickFrame) (which : Boundary) (t : Task β)
  | boundary (k : TickFrame) (which : Boundary) (t : Task β)
  | launching (k : TickFrame)
  | handing (k : TickFrame) (rest : List (Task β))
  | hand (k : TickFrame) (h : Handover) (t : Task β) (rest : List (Task β))
  | parking (k : TickFrame)

/-- The part of a tick in which the control thread is. -/
inductive Stage
  | idle
  | opening
  | handing
  | closing
  deriving DecidableEq, Repr

/-- No more tasks are handed over in the tick. -/
def Stage.isOver : Stage → Bool
  | .idle | .closing => true
  | .opening | .handing => false

namespace Station

variable {β : Type}

def rest : Station β → List (Task β)
  | .handing _ rest | .hand _ _ _ rest => rest
  | _ => []

/-- The task that is registered and with no worker. -/
def held : Station β → List (Task β)
  | .hand _ .offered _ _ => []
  | .hand _ _ t _ => [t]
  | _ => []

def body? : Station β → Option TaskId
  | .boundary _ _ t => some t.id
  | _ => none

def stage : Station β → Stage
  | .away | .starting | .between => .idle
  | .facing _ .first | .reading _ .first _ | .boundary _ .first _ | .launching _ => .opening
  | .handing _ _ | .hand _ _ _ _ => .handing
  | .facing _ .last | .reading _ .last _ | .boundary _ .last _ | .parking _ => .closing

def past (k : TickFrame) : Boundary → Station β
  | .first => .launching k
  | .last => .parking k

theorem stage_past (k : TickFrame) (which : Boundary) :
    (past k which : Station β).stage = (facing k which : Station β).stage := by
  cases which <;> rfl

theorem rest_past (k : TickFrame) (which : Boundary) : (past k which : Station β).rest = [] := by
  cases which <;> rfl

theorem held_past (k : TickFrame) (which : Boundary) : (past k which : Station β).held = [] := by
  cases which <;> rfl

theorem stage_reading (k : TickFrame) (which : Boundary) (t : Task β) :
    (reading k which t).stage = (facing k which : Station β).stage := by
  cases which <;> rfl

theorem stage_boundary (k : TickFrame) (which : Boundary) (t : Task β) :
    (boundary k which t).stage = (facing k which : Station β).stage := by
  cases which <;> rfl

end Station

/-! ## Journals -/

/-- An entry of a journal: the body of a boundary action or of a task starts, or a party is registered at
the barrier or arrives there. -/
inductive CrewNote
  | opened (which : Boundary) (turn : Turn)
  | handed (turn : Turn)
  | started (turn : Turn)
  | arrived (turn : Turn)
  deriving DecidableEq, Repr

namespace CrewNote

def handed? : CrewNote → Option Turn
  | .handed turn => some turn
  | _ => none

def arrived? : CrewNote → Option Turn
  | .arrived turn => some turn
  | _ => none

/-- The turns that have to be over before: a body waits for those of all earlier ticks, a last action
for those of its own tick as well. -/
def WaitsFor : CrewNote → Turn → Prop
  | .opened .first own, turn | .started own, turn => turn.tick < own.tick
  | .opened .last own, turn => turn.tick ≤ own.tick
  | _, _ => False

end CrewNote

/-! ## Steps -/

namespace Engine

variable {β : Type}

def arrive (e : Engine β) : Engine β := { e with barrier := e.barrier.arrive }

def halt (e : Engine β) : Engine β := { e with state := .stopped }

def giveUp (e : Engine β) : Engine β :=
  { e with
    queue := e.queue.drain.2
    inFlight := []
    flagged := Distinct.addAll (Entries.keys e.inFlight) e.flagged }

def terminate (e : Engine β) : Engine β := { e with barrier := e.barrier.terminate }

end Engine

structure Crew (β : Type) where
  engine : Engine β
  pool : WorkerPool (Post β)
  place : Station β := .away
  /-- How many ticks have begun. -/
  tick : Nat := 0
  journal : List CrewNote := []

namespace Crew

variable {β : Type}

def serve (e : Engine β) (c : Crew β) : Crew β := { c with engine := e }

def go (e : Engine β) (place : Station β) (notes : List CrewNote) (c : Crew β) : Crew β :=
  { c with engine := e, place, journal := c.journal ++ notes }

def pass (pool : WorkerPool (Post β)) (place : Station β) (c : Crew β) : Crew β := { c with pool, place }

def work (w : Nat) (p : Post β) (progress : Progress) (e : Engine β) (notes : List CrewNote)
    (c : Crew β) : Crew β :=
  { c with
    engine := e
    pool := c.pool.moveTo w (.running { p with progress })
    journal := c.journal ++ notes }

def handed (c : Crew β) : List Turn := c.journal.filterMap CrewNote.handed?

def arrivals (c : Crew β) : List Turn := c.journal.filterMap CrewNote.arrived?

/-- The turns of this tick that were handed out and have not arrived. -/
def awaited (c : Crew β) : List Turn :=
  c.handed.filter fun turn => turn.tick = c.tick ∧ turn ∉ c.arrivals

def bodies (c : Crew β) : List TaskId := c.place.body?.toList ++ c.pool.bodies

/-- The steps of callers, of the control thread and of workers. A stop halts the engine, gives up its
tasks, terminates the barrier and closes the pool, and a start and a pause are several steps as well.
A caller that starts the loop has seen the engine live, but may be late. -/
inductive Step (c : Crew β) : Crew β → Prop
  | call (a : EngineCall β) (ha : a.atOnce = true) : Step c (c.serve (a.effect c.engine))
  | store (running : Bool) : Step c (c.serve { c.engine with running })
  | enter {next : Lifecycle} {e : Engine β} (hn : next = .ticking ∨ next = .paused)
    (he : c.engine.enter next = .ok e) : Step c (c.serve e)
  | halt : Step c (c.serve c.engine.halt)
  | giveUp (hs : c.engine.state = .stopped) : Step c (c.serve c.engine.giveUp)
  | terminate (hs : c.engine.state = .stopped) : Step c (c.serve c.engine.terminate)
  | close {p : WorkerPool (Post β)} (hs : c.engine.state = .stopped)
    (hpool : c.pool.step? .close = some p) : Step c (c.pass p c.place)
  | start (ha : c.engine.loopAlive = false) :
    Step c (c.go { c.engine with running := true, loopAlive := true } .starting [])
  | abort (hp : c.place = .starting) :
    Step c (c.go { c.engine with running := false, loopAlive := false } .away [])
  | spawn (hp : c.place = .starting) : Step c (c.go c.engine .between [])
  | again {e : Engine β} (hp : c.place = .between) (he : c.engine.continues = (true, e)) :
    Step c { c.go e.beginTick (.facing (e.frame true) .first) [] with tick := c.tick + 1 }
  | leave {e : Engine β} (hp : c.place = .between) (he : c.engine.continues = (false, e)) :
    Step c (c.go e .away [])
  | absent {k : TickFrame} {which : Boundary} (hp : c.place = .facing k which)
    (hb : c.engine.boundary which = none) : Step c (c.go c.engine (.past k which) [])
  | read {k : TickFrame} {which : Boundary} {t : Task β} (hp : c.place = .facing k which)
    (hb : c.engine.boundary which = some t) : Step c (c.go c.engine (.reading k which t) [])
  | ignore {k : TickFrame} {which : Boundary} {t : Task β} (hp : c.place = .reading k which t)
    (hf : c.engine.isFlagged t.id = true) :
    Step c (c.go (c.engine.settleBoundary which t) (.past k which) [])
  | opens {k : TickFrame} {which : Boundary} {t : Task β} (hp : c.place = .reading k which t)
    (hf : c.engine.isFlagged t.id = false) :
    Step c (c.go c.engine (.boundary k which t) [.opened which ⟨c.tick, t.id⟩])
  | settle {k : TickFrame} {which : Boundary} {t : Task β} (hp : c.place = .boundary k which t) :
    Step c (c.go (c.engine.settleBoundary which t) (.past k which) [])
  | launch {k : TickFrame} (hp : c.place = .launching k) :
    Step c (c.go (c.engine.launch k.deadline).2 (.handing k (c.engine.launch k.deadline).1) [])
  | register {k : TickFrame} {t : Task β} {rest : List (Task β)} (hp : c.place = .handing k (t :: rest)) :
    Step c (c.go c.engine.register (.hand k .registered t rest) [.handed ⟨c.tick, t.id⟩])
  | offer {k : TickFrame} {t : Task β} {rest : List (Task β)} {p : WorkerPool (Post β)}
    (hp : c.place = .hand k .registered t rest)
    (hpool : c.pool.step? (.offer { tick := c.tick, task := t }) = some p) :
    Step c (c.pass p (.hand k .offered t rest))
  | refuse {k : TickFrame} {t : Task β} {rest : List (Task β)}
    (hp : c.place = .hand k .registered t rest)
    (hpool : c.pool.step? (.offer { tick := c.tick, task := t }) = none) :
    Step c (c.go c.engine (.hand k .refused t rest) [])
  | receive {k : TickFrame} {t : Task β} {rest : List (Task β)} {w : Nat} {p : WorkerPool (Post β)}
    (hp : c.place = .hand k .offered t rest) (hpool : c.pool.step? (.receive w 0) = some p) :
    Step c (c.pass p (.handing k rest))
  | withdraw {k : TickFrame} {t : Task β} {rest : List (Task β)}
    (hp : c.place = .hand k .refused t rest) :
    Step c (c.go { c.engine with inFlight := Entries.erase t.id c.engine.inFlight }
      (.hand k .withdrawn t rest) [])
  | retire {k : TickFrame} {t : Task β} {rest : List (Task β)}
    (hp : c.place = .hand k .withdrawn t rest) :
    Step c (c.go c.engine.arrive (.handing k rest) [.arrived ⟨c.tick, t.id⟩])
  | advance {k : TickFrame} {b : TickBarrier} (hp : c.place = .handing k [])
    (hb : c.engine.barrier.await? = some (true, b)) :
    Step c (c.go { c.engine with barrier := b } (.facing k .last) [])
  | dismiss {k : TickFrame} {b : TickBarrier} (hp : c.place = .handing k [])
    (hb : c.engine.barrier.await? = some (false, b)) :
    Step c (c.go { c.engine with barrier := b } .between [])
  | park {k : TickFrame} (hp : c.place = .parking k) :
    Step c (c.go (c.engine.endTick k.deadline) .between [])
  | free {s : PoolStep (Post β)} {p : WorkerPool (Post β)} (hs : s.isFree = true)
    (hpool : c.pool.step? s = some p) : Step c (c.pass p c.place)
  | body {w : Nat} {p : Post β} (hw : c.pool.workers[w]? = some (.running p))
    (hprog : p.progress = .ready) (hf : c.engine.isFlagged p.task.id = false) :
    Step c (c.work w p .body c.engine [.started ⟨c.tick, p.task.id⟩])
  | skip {w : Nat} {p : Post β} (hw : c.pool.workers[w]? = some (.running p))
    (hprog : p.progress = .ready) (hf : c.engine.isFlagged p.task.id = true) :
    Step c (c.work w p .ended c.engine [])
  | finish {w : Nat} {p : Post β} (hw : c.pool.workers[w]? = some (.running p))
    (hprog : p.progress = .body) : Step c (c.work w p .ended c.engine [])
  | complete {w : Nat} {p : Post β} (hw : c.pool.workers[w]? = some (.running p))
    (hprog : p.progress = .ended) : Step c (c.work w p .completed (c.engine.complete p.task) [])
  | arrive {w : Nat} {p : Post β} (hw : c.pool.workers[w]? = some (.running p))
    (hprog : p.progress = .completed) :
    Step c (c.work w p .arrived c.engine.arrive [.arrived p.turn])
  | done {w : Nat} {p : Post β} {q : WorkerPool (Post β)}
    (hw : c.pool.workers[w]? = some (.running p)) (hprog : p.progress = .arrived)
    (hpool : c.pool.step? (.finish w) = some q) : Step c (c.pass q c.place)

def Reaches : Crew β → Crew β → Prop := Relation.ReflTransGen Step

/-- Some run of a new engine with its workers leads to the crew. -/
def Reachable (c : Crew β) : Prop :=
  ∃ config e, Engine.create config = .ok e ∧
    Reaches { engine := e, pool := WorkerPool.create config.workers } c

/-! ## Calls of several steps -/

/-- Where nobody else moves meanwhile, a call leads where it leads on an engine with one thread. -/
theorem reaches_call (a : EngineCall β) (c : Crew β) : c.Reaches (c.serve (a.effect c.engine)) := by
  cases a with
  | pause =>
    unfold EngineCall.effect Engine.pause
    split_ifs
    · exact .refl
    · cases he : c.engine.enter .paused with
      | error error => exact .refl
      | ok e => exact .tail (.single (.enter (Or.inr rfl) he)) (.store false)
  | stop =>
    rw [EngineCall.effect]
    by_cases hs : c.engine.state = .stopped
    · rw [Engine.stop_of_stopped hs]
      exact .single (.store false)
    · rw [(Engine.stop_of_live hs).2]
      exact (((Relation.ReflTransGen.single (.store false)).tail .halt).tail (.giveUp rfl)).tail
        (.terminate rfl)
  | _ => exact .single (.call _ rfl)

theorem reaches_start {c : Crew β} {drives : Bool} {e : Engine β}
    (h : c.engine.start = .ok (drives, e)) :
    c.Reaches (if drives then c.go e .starting [] else c.serve e) := by
  have hs := (Engine.start_ok h).1
  rw [Engine.start_of_live hs] at h
  cases h
  -- The lifecycle is entered first, unless the engine is in a tick or waiting already.
  obtain ⟨c', hreach, hc'⟩ : ∃ c' : Crew β, c.Reaches c' ∧ c' = c.serve { c.engine with
      state := if c.engine.state.isRunning then c.engine.state else .ticking } := by
    split
    · exact ⟨c, .refl, rfl⟩
    · exact ⟨_, .single (.enter (Or.inl rfl) (Engine.enter_ticking hs)), rfl⟩
  subst hc'
  cases halive : c.engine.loopAlive with
  | true =>
    have hstore : c.Reaches (c.serve { c.engine with
        state := if c.engine.state.isRunning then c.engine.state else .ticking
        running := true }) := hreach.tail (.store true)
    simpa [halive] using hstore
  | false => exact hreach.tail (.start halive)

end Crew

end Vivarium
