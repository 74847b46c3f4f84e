import Mathlib.Data.List.Perm.Basic
import Mathlib.Logic.Relation
import Vivarium.Engine.WorkerPool

/-! # The traffic of a pool

A pool with those who submit jobs to it and those who shut it down, all of which may move at any time. A
submission that finds the pool open offers its job, and from then until it is answered it holds the workers
there: a free worker leaves a closed pool only when nobody sends. A shutdown closes the pool and then waits
for the workers to be gone, unless it was asked for inside a worker or runs out of time. A job ends as it
likes, and may panic.
-/

namespace Vivarium

/-! ## Counting workers -/

/-- One element is exchanged for another, and the rest stays. -/
theorem set_exchange {α : Type} {as : List α} {i : Nat} {a : α} (h : as[i]? = some a) (b : α) :
    ∃ rest : List α, as.Perm (a :: rest) ∧ (as.set i b).Perm (b :: rest) := by
  obtain ⟨hlt, rfl⟩ := List.getElem?_eq_some_iff.mp h
  exact ⟨_, (List.getElem_cons_eraseIdx_perm hlt).symm, List.set_perm_cons_eraseIdx hlt b⟩

theorem countP_exchange {α : Type} {as : List α} {i : Nat} {a : α} (h : as[i]? = some a) (b : α)
    (f : α → Bool) :
    (as.set i b).countP f + (if f a then 1 else 0) = as.countP f + if f b then 1 else 0 := by
  obtain ⟨rest, hbefore, hafter⟩ := set_exchange h b
  rw [hbefore.countP_eq, hafter.countP_eq, List.countP_cons, List.countP_cons]
  omega

theorem getElem?_exchange {α : Type} {as : List α} {i : Nat} {a : α} (h : as[i]? = some a) (b : α) (j : Nat) :
    (as.set i b)[j]? = if i = j then some b else as[j]? := by
  rw [List.getElem?_set, if_pos (List.getElem?_eq_some_iff.mp h).1]

namespace WorkerStage

variable {ι : Type}

/-- The job of the worker counts as active. -/
def isBusy : WorkerStage ι → Bool
  | .running _ | .finished _ => true
  | _ => false

/-- The worker receives nothing any more. -/
def isOff : WorkerStage ι → Bool
  | .leaving | .gone => true
  | _ => false

def isThere : WorkerStage ι → Bool
  | .gone => false
  | _ => true

/-- The job that the worker has received and not yet ended. -/
def job? : WorkerStage ι → Option ι
  | .received job | .running job => some job
  | _ => none

end WorkerStage

namespace WorkerPool

variable {ι : Type} {p q : WorkerPool ι} {w k size : Nat} {job : ι}

/-! ## What the steps of a pool do -/

theorem offer_ok (h : p.step? (.offer job) = some q) :
    p.accepting = true ∧ q = { p with offered := p.offered ++ [job] } := by
  rw [step?] at h
  split at h
  · next ha => exact ⟨ha, (Option.some.inj h).symm⟩
  · cases h

theorem receive_ok (h : p.step? (.receive w k) = some q) :
    ∃ job, p.workers[w]? = some .free ∧ p.offered[k]? = some job ∧
      q = { p.moveTo w (.received job) with offered := p.offered.eraseIdx k } := by
  rw [step?] at h
  split at h
  · next job hw hk => exact ⟨job, hw, hk, (Option.some.inj h).symm⟩
  · cases h

theorem begin_ok (h : p.step? (.begin w) = some q) :
    ∃ job, p.workers[w]? = some (.received job) ∧
      q = { p.moveTo w (.running job) with active := p.active + 1 } := by
  rw [step?] at h
  split at h
  · next job hw => exact ⟨job, hw, (Option.some.inj h).symm⟩
  · cases h

theorem finish_ok (h : p.step? (.finish w) = some q) :
    ∃ job, p.workers[w]? = some (.running job) ∧
      q = { p.moveTo w (.finished job) with served := p.served ++ [(w, job)] } := by
  rw [step?] at h
  split at h
  · next job hw => exact ⟨job, hw, (Option.some.inj h).symm⟩
  · cases h

theorem release_ok (h : p.step? (.release w) = some q) :
    ∃ job, p.workers[w]? = some (.finished job) ∧ q = { p.moveTo w .free with active := p.active - 1 } := by
  rw [step?] at h
  split at h
  · next job hw => exact ⟨job, hw, (Option.some.inj h).symm⟩
  · cases h

theorem leave_ok (h : p.step? (.leave w) = some q) :
    p.workers[w]? = some .free ∧ p.accepting = false ∧ q = p.moveTo w .leaving := by
  rw [step?] at h
  split at h
  · next hw =>
    split at h
    · next hclosed =>
      rw [Bool.and_eq_true, Bool.not_eq_true'] at hclosed
      exact ⟨hw, hclosed.1, (Option.some.inj h).symm⟩
    · cases h
  · cases h

theorem exit_ok (h : p.step? (.exit w) = some q) :
    p.workers[w]? = some .leaving ∧ q = { p.moveTo w .gone with alive := p.alive - 1 } := by
  rw [step?] at h
  split at h
  · next hw => exact ⟨hw, (Option.some.inj h).symm⟩
  · cases h

theorem close_ok (h : p.step? .close = some q) : q = { p with accepting := false } :=
  (Option.some.inj h).symm

/-! ## The two counters -/

/-- So many workers were there at first, and the counters say what they are doing. -/
structure Manned (size : Nat) (p : WorkerPool ι) : Prop where
  size : p.workers.length = size
  active : p.active = p.workers.countP WorkerStage.isBusy
  alive : p.alive = p.workers.countP WorkerStage.isThere

namespace Manned

theorem create (workers : Nat) : (create workers : WorkerPool ι).Manned (max workers 1) where
  size := List.length_replicate
  active := by
    rw [WorkerPool.create, List.countP_replicate]
    rfl
  alive := by
    rw [WorkerPool.create, List.countP_replicate]
    rfl

theorem active_le (h : p.Manned size) : p.active ≤ size := by
  rw [h.active, ← h.size]
  exact List.countP_le_length

theorem gone_of_alive (h : p.Manned size) (hnone : p.alive = 0) {s : WorkerStage ι} (hs : s ∈ p.workers) :
    s = .gone := by
  have hgone := List.countP_eq_zero.mp (h.alive ▸ hnone) s hs
  cases s <;> first | rfl | exact absurd rfl hgone

/-- The worker moves, and the counters follow. -/
theorem moveTo (h : p.Manned size) {s s' : WorkerStage ι} (hw : p.workers[w]? = some s)
    (hq : q.workers = p.workers.set w s')
    (hactive : q.active + (if s.isBusy then 1 else 0) = p.active + if s'.isBusy then 1 else 0)
    (halive : q.alive + (if s.isThere then 1 else 0) = p.alive + if s'.isThere then 1 else 0) :
    q.Manned size := by
  have hbusy := countP_exchange hw s' WorkerStage.isBusy
  have hthere := countP_exchange hw s' WorkerStage.isThere
  constructor
  · rw [hq, List.length_set]
    exact h.size
  · rw [h.active] at hactive
    rw [hq]
    omega
  · rw [h.alive] at halive
    rw [hq]
    omega

theorem of_same (h : p.Manned size) (hworkers : q.workers = p.workers) (hactive : q.active = p.active)
    (halive : q.alive = p.alive) : q.Manned size where
  size := hworkers ▸ h.size
  active := by rw [hactive, hworkers, h.active]
  alive := by rw [halive, hworkers, h.alive]

theorem step (h : p.Manned size) {s : PoolStep ι} (hs : p.step? s = some q) : q.Manned size := by
  cases s with
  | offer job =>
    obtain ⟨-, rfl⟩ := offer_ok hs
    exact h.of_same rfl rfl rfl
  | close =>
    rw [close_ok hs]
    exact h.of_same rfl rfl rfl
  | receive w k =>
    obtain ⟨job, hw, -, rfl⟩ := receive_ok hs
    exact h.moveTo hw rfl rfl rfl
  | begin w =>
    obtain ⟨job, hw, rfl⟩ := begin_ok hs
    exact h.moveTo hw rfl rfl rfl
  | finish w =>
    obtain ⟨job, hw, rfl⟩ := finish_ok hs
    exact h.moveTo hw rfl rfl rfl
  | release w =>
    obtain ⟨job, hw, rfl⟩ := release_ok hs
    have hpos : 0 < p.active := by
      rw [h.active]
      exact List.countP_pos_iff.mpr ⟨_, List.mem_of_getElem? hw, rfl⟩
    refine h.moveTo hw rfl ?_ rfl
    change p.active - 1 + 1 = p.active
    omega
  | leave w =>
    obtain ⟨hw, -, rfl⟩ := leave_ok hs
    exact h.moveTo hw rfl rfl rfl
  | exit w =>
    obtain ⟨hw, rfl⟩ := exit_ok hs
    have hpos : 0 < p.alive := by
      rw [h.alive]
      exact List.countP_pos_iff.mpr ⟨_, List.mem_of_getElem? hw, rfl⟩
    refine h.moveTo hw rfl rfl ?_
    change p.alive - 1 + 1 = p.alive
    omega

end Manned

end WorkerPool

/-! ## Submitters and shutdowns -/

inductive SubmitStage
  | called
  /-- It has found the pool open and offers its job. -/
  | offering
  /-- A worker has received the job. -/
  | handed
  | accepted
  | refused
  deriving DecidableEq, Repr

namespace SubmitStage

/-- While it sends, the workers stay. -/
def sends : SubmitStage → Bool
  | .offering | .handed => true
  | _ => false

/-- A worker has taken the job over. -/
def isTaken : SubmitStage → Bool
  | .handed | .accepted => true
  | _ => false

end SubmitStage

inductive ShutdownStage
  | called
  | waiting
  /-- It has run out of time. -/
  | expired
  | returned (left : Nat)
  deriving DecidableEq, Repr

structure ShutdownCall where
  /-- It was called inside a worker, and would wait for itself. -/
  inside : Bool
  /-- There is a time by which it gives up. -/
  bounded : Bool
  stage : ShutdownStage := .called
  deriving DecidableEq, Repr

/-- It has so many workers left, and does not wait any longer. -/
def ShutdownCall.Ends (c : ShutdownCall) (alive : Nat) : Prop :=
  c.stage = .expired ∨ c.stage = .waiting ∧ (c.inside = true ∨ alive = 0)

inductive JobEnding
  | returned
  | panicked
  deriving DecidableEq, Repr

inductive JobNote
  | started (worker job : Nat)
  | ended (worker job : Nat) (ending : JobEnding)
  deriving DecidableEq, Repr

namespace JobNote

def starter? (job : Nat) : JobNote → Option Nat
  | .started w j => if j = job then some w else none
  | .ended _ _ _ => none

def ender? (job : Nat) : JobNote → Option Nat
  | .ended w j _ => if j = job then some w else none
  | .started _ _ => none

end JobNote

/-- A job is the number of its submission. -/
structure Traffic where
  pool : WorkerPool Nat
  submissions : List SubmitStage := []
  shutdowns : List ShutdownCall := []
  journal : List JobNote := []

namespace Traffic

/-- The workers that have started the job, once for each time. -/
def starters (job : Nat) (t : Traffic) : List Nat := t.journal.filterMap (JobNote.starter? job)

def enders (job : Nat) (t : Traffic) : List Nat := t.journal.filterMap (JobNote.ender? job)

def NobodySends (t : Traffic) : Prop := ∀ s ∈ t.submissions, s.sends = false

def create (workers : Nat) : Traffic := { pool := WorkerPool.create workers }

/-- The steps of submitters, workers and shutdowns. -/
inductive Step (t : Traffic) : Traffic → Prop
  | submit : Step t { t with submissions := t.submissions ++ [.called] }
  | offer {j : Nat} {p : WorkerPool Nat} (hj : t.submissions[j]? = some .called)
    (hp : t.pool.step? (.offer j) = some p) :
    Step t { t with pool := p, submissions := t.submissions.set j .offering }
  | refuse {j : Nat} (hj : t.submissions[j]? = some .called) (hp : t.pool.step? (.offer j) = none) :
    Step t { t with submissions := t.submissions.set j .refused }
  | receive {w k j : Nat} {p : WorkerPool Nat} (hk : t.pool.offered[k]? = some j)
    (hp : t.pool.step? (.receive w k) = some p) :
    Step t { t with pool := p, submissions := t.submissions.set j .handed }
  | accept {j : Nat} (hj : t.submissions[j]? = some .handed) :
    Step t { t with submissions := t.submissions.set j .accepted }
  /-- Nobody is left to receive the job. -/
  | disconnect {j : Nat} (hj : t.submissions[j]? = some .offering) (hw : ∀ s ∈ t.pool.workers, s = .gone) :
    Step t { t with
      pool := { t.pool with offered := t.pool.offered.erase j }
      submissions := t.submissions.set j .refused }
  | begin {w j : Nat} {p : WorkerPool Nat} (hw : t.pool.workers[w]? = some (.received j))
    (hp : t.pool.step? (.begin w) = some p) :
    Step t { t with pool := p, journal := t.journal ++ [.started w j] }
  | finish {w j : Nat} {p : WorkerPool Nat} (ending : JobEnding)
    (hw : t.pool.workers[w]? = some (.running j)) (hp : t.pool.step? (.finish w) = some p) :
    Step t { t with pool := p, journal := t.journal ++ [.ended w j ending] }
  | release {w : Nat} {p : WorkerPool Nat} (hp : t.pool.step? (.release w) = some p) :
    Step t { t with pool := p }
  | leave {w : Nat} {p : WorkerPool Nat} (hn : t.NobodySends) (hp : t.pool.step? (.leave w) = some p) :
    Step t { t with pool := p }
  | exit {w : Nat} {p : WorkerPool Nat} (hp : t.pool.step? (.exit w) = some p) : Step t { t with pool := p }
  | shutdown (inside bounded : Bool) : Step t { t with shutdowns := t.shutdowns ++ [⟨inside, bounded, .called⟩] }
  | close {i : Nat} {c : ShutdownCall} {p : WorkerPool Nat} (hi : t.shutdowns[i]? = some c)
    (hc : c.stage = .called) (hp : t.pool.step? .close = some p) :
    Step t { t with pool := p, shutdowns := t.shutdowns.set i { c with stage := .waiting } }
  | expire {i : Nat} {c : ShutdownCall} (hi : t.shutdowns[i]? = some c) (hc : c.stage = .waiting)
    (hb : c.bounded = true) : Step t { t with shutdowns := t.shutdowns.set i { c with stage := .expired } }
  | answer {i : Nat} {c : ShutdownCall} (hi : t.shutdowns[i]? = some c) (hc : c.Ends t.pool.alive) :
    Step t { t with shutdowns := t.shutdowns.set i { c with stage := .returned t.pool.alive } }

def Reaches : Traffic → Traffic → Prop := Relation.ReflTransGen Step

/-- Some run of a pool that was asked for so many workers leads here. -/
def Reachable (workers : Nat) (t : Traffic) : Prop := (create workers).Reaches t

end Traffic

end Vivarium
