import Mathlib.Data.List.Nodup
import Mathlib.Data.List.Perm.Subperm
import Mathlib.Logic.Function.Basic
import Mathlib.Logic.Relation
import Vivarium.Proofs.Estate
import Vivarium.Proofs.Synchrony

/-! # The tasks of actor schedulers

A simulation beside a record of the tasks that were scheduled through actor schedulers. Whatever is done, a
scheduler remembers those of its tasks that are active, and no others than its own; and it does not remember
many more.
-/

namespace Vivarium

namespace Engine.Tidy

variable {β : Type} {e : Engine β}

theorem call (h : e.Tidy) (c : EngineCall β) : (c.effect e).Tidy ∧ Fades e (c.effect e) := by
  cases c with
  | schedule work delay period =>
    rw [EngineCall.effect]
    cases he : e.schedule work delay period with
    | error error => exact ⟨h, .refl e⟩
    | ok p =>
      obtain ⟨-, -, htidy, hfades, -⟩ := h.schedule he
      exact ⟨htidy, hfades⟩
  | cancel id => exact ⟨(h.cancel id).1, (h.cancel id).2.1⟩
  | flag id => exact ⟨h.stays (Stays.flag id e).toSameTasks, (Stays.flag id e).fades⟩
  | pause => exact ⟨h.stays (Stays.pause e).toSameTasks, (Stays.pause e).fades⟩
  | stop => exact h.stop
  | setBoundary which work =>
    exact ⟨h.stays (Stays.setBoundary which work e).toSameTasks, (Stays.setBoundary which work e).fades⟩
  | setClock clock => exact ⟨h.stays (Stays.clock clock e).toSameTasks, (Stays.clock clock e).fades⟩

theorem move (h : e.Tidy) (m : TickMove β) : (m.effect e).Tidy ∧ Fades e (m.effect e) := by
  have hstays : ∀ {e'}, Stays e e' → e'.Tidy ∧ Fades e e' := fun hs => ⟨h.stays hs.toSameTasks, hs.fades⟩
  cases m with
  | meter m => exact hstays (.meter m e)
  | barrier b => exact hstays (.barrier b e)
  | launch bound => exact h.launch bound
  | complete t => exact h.complete t
  | settle which t => exact hstays (.settleBoundary which t e)
  | park deadline => exact hstays (.park deadline e)

end Engine.Tidy

namespace TaskTracker

variable {active : TaskId → Bool} {id : TaskId} {t : TaskTracker}

theorem nodup_trackPruned (h : t.ids.Nodup) : (t.trackPruned active id).ids.Nodup := by
  unfold trackPruned
  refine Distinct.nodup_add ?_
  split
  · exact h.filter _
  · exact h

/-- A tracker that has grown to the threshold keeps what is active and nothing else. -/
theorem size_trackPruned (active : TaskId → Bool) (id : TaskId) (t : TaskTracker) :
    (t.trackPruned active id).size ≤ max pruneThreshold (1 + (t.ids.filter active).length) := by
  have hadd : ∀ ids : List TaskId, (Distinct.add id ids).length ≤ ids.length + 1 := by
    intro ids
    unfold Distinct.add
    split
    · exact Nat.le_succ _
    · rw [List.length_append, List.length_singleton]
  unfold trackPruned
  split
  · refine Nat.le_trans (hadd _) (Nat.le_trans ?_ (Nat.le_max_right _ _))
    rw [prune, Nat.add_comm]
  · next hsmall => exact Nat.le_trans (hadd _) (Nat.le_trans (Nat.lt_of_not_le hsmall) (Nat.le_max_left _ _))

end TaskTracker

namespace Simulation

variable {β μ : Type} {s s' : Simulation β μ} {r r' : SchedulerRef} {id : TaskId}

/-! ## What is done with a scheduler -/

def tasksOf (r : SchedulerRef) (s : Simulation β μ) : List TaskId := (s.trackerOf (.scheduler r)).ids

theorem tasksOf_put (r : SchedulerRef) (tracker : TaskTracker) (r' : SchedulerRef) (s : Simulation β μ) :
    (s.putTracker (.scheduler r) tracker).tasksOf r' = if r' = r then tracker.ids else s.tasksOf r' := by
  change ((Entries.get? r' (Entries.put r tracker s.schedulers)).getD {}).ids = _
  by_cases hr : r' = r
  · subst hr
    rw [if_pos rfl, Entries.get?_put_self]
    rfl
  · rw [if_neg hr, Entries.get?_put_of_ne fun h => hr h.symm]
    rfl

/-- A scheduler has scheduled. -/
structure Enlists (r : SchedulerRef) (id : TaskId) (s s' : Simulation β μ) : Prop where
  next : id = ⟨s.engine.nextTask⟩
  count : s'.engine.nextTask = s.engine.nextTask + 1
  tidy : s'.engine.Tidy
  fades : s.engine.Fades s'.engine
  mine : s'.tasksOf r = ((s.trackerOf (.scheduler r)).trackPruned (s'.engine.isActive ·) id).ids
  others : ∀ r', r' ≠ r → s'.tasksOf r' = s.tasksOf r'

/-- A scheduler's work is refused, and nothing happens, or the scheduler has scheduled it. -/
theorem schedule_cases (h : s.engine.Tidy) (r : SchedulerRef) (job : Job β) (delay period : Nat) :
    (∃ error, schedule (.scheduler r) job delay period s = .ok (.error error, s)) ∨
    ∃ id s', schedule (.scheduler r) job delay period s = .ok (.ok id, s') ∧ s.Enlists r id s' := by
  cases he : s.engine.schedule job delay period with
  | error error => exact Or.inl ⟨error, schedule_of_error (o := .scheduler r) rfl he⟩
  | ok p =>
    obtain ⟨hnext, hcount, htidy, hfades, -⟩ := h.schedule he
    have hact := schedule_of_ok (s := s) (o := .scheduler r) rfl he
    refine Or.inr ⟨_, _, hact, hnext, hcount, htidy, hfades, ?_, fun r' hr => ?_⟩
    · rw [tasksOf_put, if_pos rfl]
      rfl
    · rw [tasksOf_put, if_neg hr]
      rfl

theorem cancelOwned_eq (h : id ∈ s.tasksOf r) : cancelOwned (.scheduler r) id s = .ok ((s.engine.cancel id).1,
    { s.putTracker (.scheduler r) ((s.trackerOf (.scheduler r)).untrack id) with
      engine := (s.engine.cancel id).2 }) :=
  cancelOwned_of_mem h

/-- A simulation whose engine may have taken tasks away, where a scheduler remembers none. -/
structure Emptied (r : SchedulerRef) (s s' : Simulation β μ) : Prop where
  rest : s' = { s with engine := s'.engine, schedulers := s'.schedulers }
  engine : s'.engine = (s.engine.cancelAll (s.tasksOf r)).2
  tasks : ∀ r', s'.tasksOf r' = if r' = r then [] else s.tasksOf r'

theorem cancelAllOwned_empties (r : SchedulerRef) (s : Simulation β μ) :
    ∃ n s', cancelAllOwned (.scheduler r) s = .ok (n, s') ∧ s.Emptied r s' :=
  ⟨_, _, cancelAllOwned_of_engine (o := .scheduler r) rfl, rfl, rfl, fun r' => tasksOf_put r {} r' s⟩

theorem tasksOf_of_absent (h : Entries.has r s.schedulers = false) : s.tasksOf r = [] := by
  have hnone : Entries.get? r s.schedulers = none := Option.isNone_iff_eq_none.mp (by
    rw [← Option.not_isSome, ← Entries.has, h]
    rfl)
  rw [tasksOf, trackerOf, hnone]
  rfl

theorem dropScheduler_empties (r : SchedulerRef) (s : Simulation β μ) :
    ∃ there s', dropScheduler r s = .ok (there, s') ∧ s.Emptied r s' := by
  cases hthere : Entries.has r s.schedulers with
  | false =>
    have htasks := tasksOf_of_absent hthere
    refine ⟨false, s, ?_, rfl, by rw [htasks]; rfl, fun r' => ?_⟩
    · unfold dropScheduler
      exact bind_of_ok (a := false) (congrArg (fun there => Except.ok (there, s)) hthere)
    · by_cases hr : r' = r
      · rw [if_pos hr, hr, htasks]
      · rw [if_neg hr]
  | true =>
    obtain ⟨n, s', hact, hrest, hengine, htasks⟩ := cancelAllOwned_empties r s
    refine ⟨true, { s' with schedulers := Entries.erase r s'.schedulers }, ?_, ?_, hengine, fun r' => ?_⟩
    · unfold dropScheduler
      refine (bind_of_ok (a := true) (congrArg (fun there => Except.ok (there, s)) hthere)).trans ?_
      exact bind_of_ok hact
    · rw [hrest]
    · rw [tasksOf, trackerOf]
      by_cases hr : r' = r
      · subst hr
        rw [Entries.get?_erase_self, if_pos rfl]
        rfl
      · rw [Entries.get?_erase_of_ne fun h => hr h.symm]
        exact htasks r'

theorem newScheduler_keeps (h : newScheduler s = .ok (r, s')) :
    s'.engine = s.engine ∧ ∀ r', s'.tasksOf r' = s.tasksOf r' := by
  cases h
  refine ⟨rfl, fun r' => ?_⟩
  rw [tasksOf, tasksOf, trackerOf, trackerOf, Entries.get?_append]
  cases Entries.get? r' s.schedulers with
  | some tracker => rfl
  | none =>
    rw [Option.none_or, Entries.get?]
    split <;> rfl

end Simulation

/-- A simulation with a record of what was scheduled through actor schedulers. -/
structure Bureau (β μ : Type) where
  sim : Simulation β μ
  /-- Every task that a scheduler has scheduled, with it. -/
  clients : List (TaskId × SchedulerRef) := []
  /-- How many tasks of a scheduler were active when it scheduled last. -/
  load : SchedulerRef → Nat := fun _ => 0

namespace Bureau

open Simulation

variable {β μ : Type} {b b' : Bureau β μ} {r : SchedulerRef} {id : TaskId}

/-- How many tasks of a scheduler are active. -/
def busy (r : SchedulerRef) (b : Bureau β μ) : Nat :=
  (b.clients.filter fun p => p.2 = r ∧ b.sim.engine.isActive p.1).length

/-- Something is done in the simulation: beside its engine and its schedulers, with the engine, by a tick,
by whoever drives the engine, or with a scheduler. -/
inductive Step (b : Bureau β μ) : Bureau β μ → Prop
  | aside (forest : Forest β) (standalone : Array (AttributeSet β)) (types : TypeRegistry β) (memory : μ) :
    Step b { b with sim := { b.sim with forest, standalone, types, memory } }
  | call (c : EngineCall (Job β)) : Step b { b with sim := b.sim.calling c }
  | move (m : TickMove (Job β)) : Step b { b with sim := b.sim.moving m }
  | drive {e : Engine (Job β)} (he : b.sim.engine.Stays e) :
    Step b { b with sim := { b.sim with engine := e } }
  | enlist {r : SchedulerRef} {job : Job β} {delay period : Nat} {id : TaskId} {s : Simulation β μ}
    (h : schedule (.scheduler r) job delay period b.sim = .ok (.ok id, s)) :
    Step b ⟨s, b.clients ++ [(id, r)], Function.update b.load r (b.busy r)⟩
  | dismiss {r : SchedulerRef} {id : TaskId} {flag : Bool} {s : Simulation β μ}
    (h : cancelOwned (.scheduler r) id b.sim = .ok (flag, s)) : Step b { b with sim := s }
  | dismissAll {r : SchedulerRef} {n : Nat} {s : Simulation β μ}
    (h : cancelAllOwned (.scheduler r) b.sim = .ok (n, s)) : Step b { b with sim := s }
  | found {r : SchedulerRef} {s : Simulation β μ} (h : newScheduler b.sim = .ok (r, s)) :
    Step b { b with sim := s }
  | disband {r : SchedulerRef} {there : Bool} {s : Simulation β μ}
    (h : dropScheduler r b.sim = .ok (there, s)) : Step b { b with sim := s }

def Reaches : Bureau β μ → Bureau β μ → Prop := Relation.ReflTransGen Step

/-- A new engine, and no scheduler yet. -/
def Opens (b : Bureau β μ) : Prop :=
  ∃ config s, Engine.create config = .ok s.engine ∧ s.schedulers = [] ∧ b = { sim := s }

def Reachable (b : Bureau β μ) : Prop := ∃ b₀ : Bureau β μ, b₀.Opens ∧ b₀.Reaches b

/-! ## What no step breaks -/

/-- Schedulers remember their own tasks, each once, among them all that are active, and few others. -/
structure Sound (b : Bureau β μ) : Prop where
  tidy : b.sim.engine.Tidy
  fresh : ∀ p ∈ b.clients, p.1.number < b.sim.engine.nextTask
  unique : (b.clients.map (·.1)).Nodup
  tracked : ∀ r, ∀ id ∈ b.sim.tasksOf r, (id, r) ∈ b.clients
  kept : ∀ id r, (id, r) ∈ b.clients → b.sim.engine.isActive id = true → id ∈ b.sim.tasksOf r
  distinct : ∀ r, (b.sim.tasksOf r).Nodup
  size : ∀ r, (b.sim.tasksOf r).length ≤ max TaskTracker.pruneThreshold (1 + b.load r)

namespace Sound

theorem opens (h : b.Opens) : b.Sound := by
  obtain ⟨config, s, he, hnone, rfl⟩ := h
  have htasks : ∀ r, s.tasksOf r = [] := by
    intro r
    rw [tasksOf, trackerOf, hnone]
    rfl
  refine ⟨.create he, by rintro _ ⟨⟩, List.nodup_nil, fun r id hid => ?_, by rintro _ _ ⟨⟩, fun r => ?_,
    fun r => ?_⟩
  · rw [htasks] at hid
    cases hid
  · rw [htasks]
    exact List.nodup_nil
  · rw [htasks]
    exact Nat.zero_le _

theorem owner_unique (h : b.Sound) {r' : SchedulerRef} (hr : (id, r) ∈ b.clients)
    (hr' : (id, r') ∈ b.clients) : r' = r :=
  congrArg Prod.snd (List.inj_on_of_nodup_map h.unique hr' hr rfl)

/-- A step through which no scheduler schedules, and after which each remembers those of its tasks that are
active still. -/
theorem keep (h : b.Sound) {s : Simulation β μ} (htidy : s.engine.Tidy) (hfades : b.sim.engine.Fades s.engine)
    (hsub : ∀ r, (s.tasksOf r).Sublist (b.sim.tasksOf r))
    (hkept : ∀ r, ∀ id ∈ b.sim.tasksOf r, s.engine.isActive id = true → id ∈ s.tasksOf r) :
    Sound { b with sim := s } where
  tidy := htidy
  fresh p hp := Nat.lt_of_lt_of_le (h.fresh p hp) hfades.next
  unique := h.unique
  tracked r _ hid := h.tracked r _ ((hsub r).subset hid)
  kept id r hid ha := hkept r id (h.kept id r hid (hfades.active id (h.fresh _ hid) ha)) ha
  distinct r := (h.distinct r).sublist (hsub r)
  size r := Nat.le_trans (hsub r).length_le (h.size r)

/-- A step that leaves the trackers alone. -/
theorem still (h : b.Sound) {s : Simulation β μ} (htidy : s.engine.Tidy)
    (hfades : b.sim.engine.Fades s.engine) (hsame : ∀ r, s.tasksOf r = b.sim.tasksOf r) : Sound { b with sim := s } :=
  h.keep htidy hfades (fun r => hsame r ▸ List.Sublist.refl _) fun r _ hid _ => (hsame r).symm ▸ hid

theorem emptied (h : b.Sound) {s : Simulation β μ} (hs : b.sim.Emptied r s) : Sound { b with sim := s } := by
  obtain ⟨htidy, hfades, hnone⟩ := h.tidy.cancelAll (b.sim.tasksOf r)
  rw [← hs.engine] at htidy hfades hnone
  refine h.keep htidy hfades (fun r' => ?_) fun r' id hid ha => ?_
  · rw [hs.tasks]
    split
    · exact List.nil_sublist _
    · exact List.Sublist.refl _
  · rw [hs.tasks, if_neg]
    · exact hid
    · rintro rfl
      rw [hnone id hid (h.fresh _ (h.tracked _ id hid))] at ha
      cases ha

theorem dismiss (h : b.Sound) {flag : Bool} {s : Simulation β μ}
    (hs : cancelOwned (.scheduler r) id b.sim = .ok (flag, s)) : Sound { b with sim := s } := by
  by_cases hid : id ∈ b.sim.tasksOf r
  · rw [cancelOwned_eq hid] at hs
    cases hs
    obtain ⟨htidy, hfades, hno⟩ := h.tidy.cancel id
    refine h.keep htidy hfades (fun r' => ?_) fun r' id' hid' ha => ?_
    · change (tasksOf r' (b.sim.putTracker _ _)).Sublist _
      rw [tasksOf_put]
      split
      · next hr =>
        rw [hr]
        exact List.filter_sublist
      · exact List.Sublist.refl _
    · change id' ∈ tasksOf r' (b.sim.putTracker _ _)
      rw [tasksOf_put]
      split
      · next hr =>
        subst hr
        refine TaskTracker.mem_untrack.mpr ⟨hid', ?_⟩
        rintro rfl
        rw [hno] at ha
        cases ha
      · exact hid'
  · rw [cancelOwned_of_not_mem hid] at hs
    cases hs
    exact h

/-- What is left of a scheduler's tasks when it has forgotten those that are not active. -/
theorem length_filter_le (h : b.Sound) {active : TaskId → Bool}
    (hactive : ∀ id ∈ b.sim.tasksOf r, active id = true → b.sim.engine.isActive id = true) :
    ((b.sim.tasksOf r).filter active).length ≤ b.busy r := by
  have hpaired : (((b.sim.tasksOf r).filter active).map (·, r)).Nodup :=
    List.Nodup.map (fun _ _ heq => congrArg Prod.fst heq) ((h.distinct r).filter _)
  have hsub : ((b.sim.tasksOf r).filter active).map (·, r) ⊆
      b.clients.filter fun p => p.2 = r ∧ b.sim.engine.isActive p.1 := by
    intro p hp
    obtain ⟨id, hid, rfl⟩ := List.mem_map.mp hp
    obtain ⟨hid, ha⟩ := List.mem_filter.mp hid
    exact List.mem_filter.mpr ⟨h.tracked r id hid, decide_eq_true ⟨rfl, hactive id hid ha⟩⟩
  have hlength := (List.subperm_of_subset hpaired hsub).length_le
  rwa [List.length_map] at hlength

theorem enlist (h : b.Sound) {s : Simulation β μ} (hs : b.sim.Enlists r id s) :
    Sound ⟨s, b.clients ++ [(id, r)], Function.update b.load r (b.busy r)⟩ := by
  have hold : ∀ {id' r'}, (id', r') ∈ b.clients →
      id' ≠ id ∧ (s.engine.isActive id' = true → id' ∈ b.sim.tasksOf r') := by
    intro id' r' hid
    refine ⟨?_, fun ha => h.kept id' r' hid (hs.fades.active id' (h.fresh _ hid) ha)⟩
    rintro rfl
    exact Nat.lt_irrefl _ (hs.next ▸ h.fresh _ hid)
  refine ⟨hs.tidy, fun p hp => ?_, ?_, fun r' id' hid => ?_, fun id' r' hid ha => ?_, fun r' => ?_,
    fun r' => ?_⟩
  · rw [hs.count]
    rcases List.mem_append.mp hp with hp | hp
    · exact Nat.lt_succ_of_lt (h.fresh p hp)
    · rw [List.mem_singleton.mp hp, hs.next]
      exact Nat.lt_succ_self _
  · rw [List.map_append]
    refine List.nodup_append.mpr ⟨h.unique, List.nodup_singleton _, fun id' hid id'' hnew => ?_⟩
    obtain ⟨p, hp, rfl⟩ := List.mem_map.mp hid
    rw [List.mem_singleton.mp hnew]
    exact (hold hp).1
  · by_cases hr : r' = r
    · subst hr
      rw [hs.mine] at hid
      rcases TaskTracker.mem_trackPruned.1 hid with hid | rfl
      · exact List.mem_append_left _ (h.tracked r' id' hid)
      · exact List.mem_append_right _ List.mem_cons_self
    · rw [hs.others r' hr] at hid
      exact List.mem_append_left _ (h.tracked r' id' hid)
  · rcases List.mem_append.mp hid with hclient | hnew
    · by_cases hr : r' = r
      · subst hr
        rw [hs.mine]
        exact TaskTracker.mem_trackPruned.2 (Or.inl ⟨(hold hclient).2 ha, ha⟩)
      · rw [hs.others r' hr]
        exact (hold hclient).2 ha
    · cases List.mem_singleton.mp hnew
      rw [hs.mine]
      exact TaskTracker.mem_trackPruned.2 (Or.inr rfl)
  · by_cases hr : r' = r
    · subst hr
      rw [hs.mine]
      exact TaskTracker.nodup_trackPruned (h.distinct r')
    · rw [hs.others r' hr]
      exact h.distinct r'
  · change (s.tasksOf r').length ≤ max TaskTracker.pruneThreshold (1 + Function.update b.load r (b.busy r) r')
    by_cases hr : r' = r
    · subst hr
      have hfull : ((b.sim.tasksOf r').filter (s.engine.isActive ·)).length ≤ b.busy r' :=
        h.length_filter_le fun id' hid => hs.fades.active id' (h.fresh _ (h.tracked r' id' hid))
      have hsize : (s.tasksOf r').length ≤ max TaskTracker.pruneThreshold
          (1 + ((b.sim.tasksOf r').filter (s.engine.isActive ·)).length) := by
        rw [hs.mine]
        exact TaskTracker.size_trackPruned _ _ _
      rw [Function.update_self]
      omega
    · rw [hs.others r' hr, Function.update_of_ne hr]
      exact h.size r'

theorem step (h : b.Sound) (hs : b.Step b') : b'.Sound := by
  cases hs with
  | aside => exact h.still h.tidy (.refl _) fun _ => rfl
  | call c => exact h.still (h.tidy.call c).1 (h.tidy.call c).2 fun _ => rfl
  | move m => exact h.still (h.tidy.move m).1 (h.tidy.move m).2 fun _ => rfl
  | drive he => exact h.still (h.tidy.stays he.toSameTasks) he.fades fun _ => rfl
  | @enlist r job delay period _ _ hs =>
    rcases schedule_cases h.tidy r job delay period with ⟨_, hact⟩ | ⟨_, _, hact, henlists⟩
    · cases hact.symm.trans hs
    · cases hact.symm.trans hs
      exact h.enlist henlists
  | dismiss hs => exact h.dismiss hs
  | @dismissAll r _ _ hs =>
    obtain ⟨_, _, hact, hempties⟩ := cancelAllOwned_empties r b.sim
    cases hact.symm.trans hs
    exact h.emptied hempties
  | found hs =>
    obtain ⟨hengine, htasks⟩ := newScheduler_keeps hs
    exact h.still (hengine ▸ h.tidy) (hengine ▸ .refl _) htasks
  | @disband r _ _ hs =>
    obtain ⟨_, _, hact, hempties⟩ := dropScheduler_empties r b.sim
    cases hact.symm.trans hs
    exact h.emptied hempties

theorem reaches (h : b.Sound) (hr : b.Reaches b') : b'.Sound := by
  induction hr with
  | refl => exact h
  | tail _ hs ih => exact ih.step hs

end Sound

theorem Reachable.sound (h : b.Reachable) : b.Sound := by
  obtain ⟨_, hopens, hr⟩ := h
  exact (Sound.opens hopens).reaches hr

/-! ## What operations lead to -/

/-- The bureau may come to have this simulation. -/
def Leads (b : Bureau β μ) (s : Simulation β μ) : Prop := ∃ b', b.Reaches b' ∧ b'.sim = s

theorem agrees_leads {α : Type} {act : Act β μ α} {fails : Halt → Prop}
    (h : ∀ b', b.Reaches b' → ∃ a b'', act b'.sim = .ok (a, b''.sim) ∧ b'.Reaches b'') :
    Agrees (Alone b.Leads) fails act := by
  refine agrees_alone.mpr fun s hs => ?_
  obtain ⟨b', hr, rfl⟩ := hs
  obtain ⟨_, b'', hact, hr'⟩ := h b' hr
  exact .of_ok hact ⟨b'', hr.trans hr', rfl⟩

theorem Sound.leads (h : b.Sound) (fails : Halt → Prop) : Upkeep b.Leads fails := by
  have hparallel : Parallel (Alone b.Leads) := by
    refine parallel_alone (fun s forest standalone types memory hs => ?_) fun s c hs => ?_
    · obtain ⟨b', hr, rfl⟩ := hs
      exact ⟨_, hr.tail (.aside forest standalone types memory), rfl⟩
    · obtain ⟨b', hr, rfl⟩ := hs
      exact ⟨_, hr.tail (.call c), rfl⟩
  constructor
  · constructor
    · exact hparallel
    · intro r job delay period
      refine agrees_leads fun b' hr => ?_
      rcases schedule_cases (h.reaches hr).tidy r job delay period with ⟨error, hact⟩ | ⟨id, s', hact, -⟩
      · exact ⟨_, b', hact, .refl⟩
      · exact ⟨_, _, hact, .single (.enlist hact)⟩
    · intro r id
      refine agrees_leads fun b' _ => ?_
      by_cases hid : id ∈ b'.sim.tasksOf r
      · exact ⟨_, _, cancelOwned_eq hid, .single (.dismiss (cancelOwned_eq hid))⟩
      · exact ⟨_, b', cancelOwned_of_not_mem hid, .refl⟩
    · intro r
      refine agrees_leads fun b' _ => ?_
      obtain ⟨_, s', hact, -⟩ := cancelAllOwned_empties r b'.sim
      exact ⟨_, _, hact, .single (.dismissAll hact)⟩
    · exact agrees_leads fun b' _ => ⟨_, _, rfl, .single (.found rfl)⟩
    · intro r
      refine agrees_leads fun b' _ => ?_
      obtain ⟨_, s', hact, -⟩ := dropScheduler_empties r b'.sim
      exact ⟨_, _, hact, .single (.disband hact)⟩
  · intro s m hs
    obtain ⟨b', hr, rfl⟩ := hs
    exact ⟨_, hr.tail (.move m), rfl⟩
  · intro s e hs he
    obtain ⟨b', hr, rfl⟩ := hs
    exact ⟨_, hr.tail (.drive he), rfl⟩

/-- The tasks of a scheduler are over, for good, and nobody else's are. -/
structure Vacates (b : Bureau β μ) (r : SchedulerRef) (s : Simulation β μ) : Prop where
  rest : s = { b.sim with engine := s.engine, schedulers := s.schedulers }
  inactive : ∀ id, (id, r) ∈ b.clients → s.engine.isActive id = false
  ended : ∀ id, (id, r) ∈ b.clients → ∀ w w' : World β, w.Reachable → w.engine = s.engine →
    w.Reaches (fun _ => True) w' → w'.engine.isActive id = false ∧ w'.begun.count id = w.begun.count id
  others : b.sim.engine.Leaves (fun id => (id, r) ∉ b.clients) s.engine
  trackers : ∀ r', s.tasksOf r' = if r' = r then [] else b.sim.tasksOf r'

theorem Sound.vacates (h : b.Sound) {s : Simulation β μ} (hs : b.sim.Emptied r s) : b.Vacates r s := by
  have hsound := h.emptied hs
  have hinactive : ∀ id, (id, r) ∈ b.clients → s.engine.isActive id = false := by
    intro id hid
    refine Bool.eq_false_iff.mpr fun ha => ?_
    have hkept : id ∈ s.tasksOf r := hsound.kept id r hid ha
    rw [hs.tasks, if_pos rfl] at hkept
    cases hkept
  refine ⟨hs.rest, hinactive, fun id hid w w' hw hengine hr => ?_, ?_, hs.tasks⟩
  · exact hw.sound.inactive_run hr (hengine ▸ hsound.fresh _ hid) (hengine ▸ hinactive id hid)
  · rw [hs.engine]
    exact Engine.cancelAll_leaves h.tidy _ fun id hid hkept => hkept (h.tracked r id hid)

end Bureau

open Simulation

/-- Whatever is done with an engine and its actor schedulers, by code of whatever kind: a scheduler remembers
those of its tasks that are active and none of another one; it neither cancels nor finds active what is
another one's; once its tasks are cancelled, or it is dropped, they are over for good, and nobody else's are;
work that is refused leaves no trace; and it remembers no more than the threshold, or than were active when
it last scheduled and one. -/
theorem schedulers_own_exactly_their_tasks {μ : Type} {b : Bureau (Code μ) μ} (hb : b.Reachable) :
    (∀ id r, (id, r) ∈ b.clients → b.sim.engine.isActive id = true → id ∈ b.sim.tasksOf r) ∧
    (∀ id r r', id ∈ b.sim.tasksOf r → id ∈ b.sim.tasksOf r' → r' = r) ∧
    (∀ id r r', (id, r) ∈ b.clients → r' ≠ r →
      cancelOwned (.scheduler r') id b.sim = .ok (false, b.sim) ∧
      b.sim.isActiveOwned (.scheduler r') id = false) ∧
    (∀ r, (∃ n s, cancelAllOwned (.scheduler r) b.sim = .ok (n, s) ∧ b.Vacates r s) ∧
      ∃ there s, dropScheduler r b.sim = .ok (there, s) ∧ b.Vacates r s) ∧
    (∀ r job delay period error s, schedule (.scheduler r) job delay period b.sim = .ok (.error error, s) →
      s = b.sim) ∧
    (∀ r, (b.sim.tasksOf r).length ≤ max TaskTracker.pruneThreshold (1 + b.load r)) ∧
    ∀ (n : Nat) {role : Role} (p : Program μ role) a s, execute n p b.sim = .ok (a, s) → b.Leads s := by
  have h := hb.sound
  have hapart : ∀ id r r', (id, r) ∈ b.clients → r' ≠ r → id ∉ b.sim.tasksOf r' :=
    fun id r r' hid hr hid' => hr (h.owner_unique hid (h.tracked r' id hid'))
  refine ⟨h.kept, fun id r r' hid hid' => ?_, fun id r r' hid hr => ⟨?_, ?_⟩, fun r => ⟨?_, ?_⟩, ?_,
    h.size, ?_⟩
  · exact h.owner_unique (h.tracked r id hid) (h.tracked r' id hid')
  · exact cancelOwned_of_not_mem (hapart id r r' hid hr)
  · have hnot : (b.sim.trackerOf (.scheduler r')).contains id = false :=
      Bool.eq_false_iff.mpr fun hin => hapart id r r' hid hr (List.contains_iff_mem.mp hin)
    rw [isActiveOwned, hnot]
    rfl
  · obtain ⟨n, s, hact, hempties⟩ := cancelAllOwned_empties r b.sim
    exact ⟨n, s, hact, h.vacates hempties⟩
  · obtain ⟨there, s, hact, hempties⟩ := dropScheduler_empties r b.sim
    exact ⟨there, s, hact, h.vacates hempties⟩
  · intro r job delay period error s hs
    rcases schedule_cases h.tidy r job delay period with ⟨_, hact⟩ | ⟨_, _, hact, -⟩
    · cases hact.symm.trans hs
      rfl
    · cases hact.symm.trans hs
  · intro n _ p a s hact
    have hleads := (h.leads (fun _ => True)).execute trivial trivial n p b.sim ⟨b, .refl, rfl⟩
    exact hleads.apply hact

def errand : Code Unit := Code.ofTask fun _ => .done .completed

/-- Two schedulers, without work as yet. -/
def offices : Simulation (Code Unit) Unit :=
  { blank false with schedulers := [(⟨0⟩, {}), (⟨1⟩, {})], nextScheduler := 2 }

theorem first_office_owns_its_task : ∃ b : Bureau (Code Unit) Unit, b.Reachable ∧ (⟨0⟩, ⟨0⟩) ∈ b.clients ∧
    b.sim.engine.isActive ⟨0⟩ = true ∧ ⟨0⟩ ∈ b.sim.tasksOf ⟨0⟩ ∧
    cancelOwned (.scheduler ⟨1⟩) ⟨0⟩ b.sim = .ok (false, b.sim) ∧
    ∃ n s, cancelAllOwned (.scheduler ⟨0⟩) b.sim = .ok (n, s) ∧ s.engine.isActive ⟨0⟩ = false := by
  obtain ⟨a, s, hact, hholds⟩ := endsWith_iff.mp (show
    endsWith (schedule (.scheduler ⟨0⟩) ⟨errand, .nobody⟩ 0 0) offices
      (fun a s => a.toOption == some ⟨0⟩ && s.engine.isActive ⟨0⟩) = true by decide +kernel)
  simp only [Bool.and_eq_true, beq_iff_eq] at hholds
  obtain ⟨hid, hactive⟩ := hholds
  rw [eq_ok_of_toOption hid] at hact
  have hopens : Bureau.Opens { sim := blank false } :=
    ⟨(EngineConfig.standard 1).withTicksPerSecond 10, blank false, rfl, rfl, rfl⟩
  have hfounded : Bureau.Reaches { sim := blank false } { sim := offices } :=
    .tail (.single (.found rfl)) (.found rfl)
  have hb := hfounded.tail (.enlist hact)
  obtain ⟨hkept, -, hforeign, hover, -⟩ := schedulers_own_exactly_their_tasks ⟨_, hopens, hb⟩
  have hclient : (⟨0⟩, ⟨0⟩) ∈ [((⟨0⟩ : TaskId), (⟨0⟩ : SchedulerRef))] := List.mem_cons_self
  obtain ⟨n, s', hcancel, hvacates⟩ := (hover ⟨0⟩).1
  exact ⟨_, ⟨_, hopens, hb⟩, hclient, hactive, hkept _ _ hclient hactive,
    (hforeign _ _ ⟨1⟩ hclient (by decide)).1, n, s', hcancel, hvacates.inactive _ hclient⟩

/-- Schedules time and again, and stops the engine. -/
def crowd (r : SchedulerRef) : Nat → Program Unit .listener
  | 0 => .request .stop fun _ => .done ()
  | n + 1 => .schedule (.scheduler r) .nobody errand 0 0 fun _ => crowd r n

/-- Tasks that have ended are forgotten only when another one has been scheduled. -/
theorem refused_work_prunes_nothing : ∃ s : Simulation (Code Unit) Unit,
    execute 3 (.request .newScheduler fun r => crowd r 65) (blank false) = .ok ((), s) ∧
    schedule (.scheduler ⟨0⟩) ⟨errand, .nobody⟩ 0 0 s = .ok (.error .shutdown, s) ∧
    s.tasksOf ⟨0⟩ = (List.range 65).map (⟨·⟩) ∧
    max TaskTracker.pruneThreshold (1 + ((s.tasksOf ⟨0⟩).filter (s.engine.isActive ·)).length) <
      (s.tasksOf ⟨0⟩).length := by
  obtain ⟨_, s, hact, hholds⟩ := endsWith_iff.mp (show
    endsWith (execute 3 (.request .newScheduler fun r => crowd r 65)) (blank false)
      (fun _ s => s.engine.state == .stopped && s.tasksOf ⟨0⟩ == (List.range 65).map (⟨·⟩) &&
        decide (max TaskTracker.pruneThreshold (1 + ((s.tasksOf ⟨0⟩).filter (s.engine.isActive ·)).length) <
          (s.tasksOf ⟨0⟩).length)) = true by decide +kernel)
  simp only [Bool.and_eq_true, beq_iff_eq, decide_eq_true_eq] at hholds
  obtain ⟨⟨hstopped, htasks⟩, hsize⟩ := hholds
  refine ⟨s, hact, ?_, htasks, hsize⟩
  exact schedule_of_error (o := .scheduler ⟨0⟩) rfl (Engine.schedule_of_stopped hstopped)

end Vivarium
