import Vivarium.Proofs.Killing
import Vivarium.Proofs.Sessions

/-! # Operations in lockstep

Two simulations may differ in how their engines are driven and in nothing else. Where every call of the
engine and every change of anything else leave them so, every operation does that begins no tick, as far
as the code that it runs does: it gives the same answer in both, or ends in neither.
-/

namespace Vivarium

namespace Engine

variable {β : Type} {running loopAlive : Bool}

/-- The engine with other signs of the loop that drives it. -/
def driven (running loopAlive : Bool) (e : Engine β) : Engine β := { e with running, loopAlive }

theorem schedule_driven (work : β) (delay period : Nat) (e : Engine β) :
    (e.driven running loopAlive).schedule work delay period =
      (e.schedule work delay period).map fun p => (p.1, p.2.driven running loopAlive) := by
  rw [schedule, schedule]
  change (if e.state = .stopped then _ else _) = _
  split <;> rfl

/-- Cancelling goes by the queue, the flight and the flags alone. -/
theorem cancel_beside {g : Engine β → Engine β} (id : TaskId) (e : Engine β) (hq : (g e).queue = e.queue)
    (hfly : (g e).inFlight = e.inFlight) (hflags : (g e).flagged = e.flagged)
    (hqueue : ∀ queue, { g e with queue } = g { e with queue })
    (hflagged : ∀ flagged, { g e with flagged } = g { e with flagged }) :
    (g e).cancel id = ((e.cancel id).1, g (e.cancel id).2) := by
  have hcancel : ∀ e : Engine β, e.cancel id =
      if (e.queue.remove id).1 = true then (true, { e with queue := (e.queue.remove id).2 })
      else if (Entries.has id e.inFlight && !e.isFlagged id) = true then (true, e.flag id) else (false, e) :=
    fun _ => rfl
  have hflag : (g e).flag id = g (e.flag id) := by
    rw [flag, hflags]
    exact hflagged _
  have hisFlagged : (g e).isFlagged id = e.isFlagged id := by rw [isFlagged, hflags, isFlagged]
  by_cases hqueued : (e.queue.remove id).1 = true
  · rw [hcancel e, if_pos hqueued, hcancel (g e), if_pos (by rw [hq]; exact hqueued), hq]
    exact congrArg (Prod.mk true) (hqueue _)
  · rw [hcancel e, if_neg hqueued, hcancel (g e), if_neg (by rw [hq]; exact hqueued), hfly, hisFlagged]
    split
    · exact congrArg (Prod.mk true) hflag
    · rfl

theorem cancel_driven (id : TaskId) (e : Engine β) :
    (e.driven running loopAlive).cancel id = ((e.cancel id).1, (e.cancel id).2.driven running loopAlive) :=
  cancel_beside id e rfl rfl rfl (fun _ => rfl) fun _ => rfl

theorem pause_driven (e : Engine β) :
    (e.driven running loopAlive).pause.map (fun _ => ()) = e.pause.map fun _ => () := by
  unfold pause enter
  change Except.map _ (if e.state = .paused then _ else (if e.state = .stopped then _
    else if e.state.canBecome .paused = true then _ else _) >>= _) = _
  cases e.state <;> rfl

theorem cancelAll_driven (ids : List TaskId) (e : Engine β) :
    (e.driven running loopAlive).cancelAll ids =
      ((e.cancelAll ids).1, (e.cancelAll ids).2.driven running loopAlive) := by
  have hcount : ∀ (ids : List TaskId) (n : Nat) (e : Engine β),
      ids.foldl (fun p id => (if (p.2.cancel id).1 then p.1 + 1 else p.1, (p.2.cancel id).2))
          (n, e.driven running loopAlive) =
        (fun p => (p.1, p.2.driven running loopAlive)) (ids.foldl (fun p id =>
          (if (p.2.cancel id).1 then p.1 + 1 else p.1, (p.2.cancel id).2)) (n, e)) := by
    intro ids
    induction ids with
    | nil => exact fun _ _ => rfl
    | cons id ids ih =>
      intro n e
      simp only [List.foldl_cons, cancel_driven]
      exact ih _ _
  exact hcount ids 0 e

end Engine

namespace Simulation

variable {β μ α γ ι : Type} {R : Simulation β μ → Simulation β μ → Prop} {fails : Halt → Prop}
  {s t : Simulation β μ}

def driven (running loopAlive : Bool) (s : Simulation β μ) : Simulation β μ :=
  { s with engine := s.engine.driven running loopAlive }

/-- The simulation after a call of its engine. -/
def calling (c : EngineCall (Job β)) (s : Simulation β μ) : Simulation β μ :=
  { s with engine := c.effect s.engine }

/-- Both have ended, with one answer and where they are related, or neither has, and both have the same
reason. -/
def Both (R : Simulation β μ → Simulation β μ → Prop) (fails : Halt → Prop) :
    Except Halt (α × Simulation β μ) → Except Halt (α × Simulation β μ) → Prop
  | .ok p, .ok q => p.1 = q.1 ∧ R p.2 q.2
  | .error why, .error why' => why = why' ∧ fails why
  | _, _ => False

/-- From where two simulations are related the operation leads to where they are, or ends in neither for one
of certain reasons. -/
def Agrees (R : Simulation β μ → Simulation β μ → Prop) (fails : Halt → Prop) (act : Act β μ α) : Prop :=
  ∀ s t, R s t → Both R fails (act s) (act t)

def RunAgrees (R : Simulation β μ → Simulation β μ → Prop) (fails : Halt → Prop) (run : Run β μ) : Prop :=
  ∀ o code, Agrees R fails (run o code)

/-- Simulations that differ in how they are driven, and that calls and changes of anything but the engine
and the actor schedulers leave so. -/
structure Parallel (R : Simulation β μ → Simulation β μ → Prop) : Prop where
  driven : ∀ {s t}, R s t → ∃ running loopAlive, t = s.driven running loopAlive
  aside : ∀ {s t}, R s t → ∀ forest standalone types memory,
    R { s with forest, standalone, types, memory } { t with forest, standalone, types, memory }
  call : ∀ {s t}, R s t → ∀ c, R (s.calling c) (t.calling c)

/-- What is done with actor schedulers leaves the simulations so too. -/
structure Aligned (R : Simulation β μ → Simulation β μ → Prop) (fails : Halt → Prop) : Prop
    extends Parallel R where
  enlist : ∀ r job delay period, Agrees R fails (Simulation.schedule (.scheduler r) job delay period)
  dismiss : ∀ r id, Agrees R fails (Simulation.cancelOwned (.scheduler r) id)
  dismissAll : ∀ r, Agrees R fails (Simulation.cancelAllOwned (.scheduler r))
  found : Agrees R fails Simulation.newScheduler
  disband : ∀ r, Agrees R fails (Simulation.dropScheduler r)

theorem Both.bind {Q : Simulation β μ → Simulation β μ → Prop} {act act' : Act β μ α}
    {next next' : α → Act β μ γ} (h : Both R fails (act s) (act' t))
    (hn : ∀ a s t, R s t → Both Q fails (next a s) (next' a t)) :
    Both Q fails ((act >>= next) s) ((act' >>= next') t) := by
  cases hs : act s with
  | error why =>
    cases ht : act' t with
    | error why' =>
      rw [hs, ht] at h
      rw [bind_of_error hs, bind_of_error ht]
      exact h
    | ok q =>
      rw [hs, ht] at h
      exact h.elim
  | ok p =>
    cases ht : act' t with
    | error why =>
      rw [hs, ht] at h
      exact h.elim
    | ok q =>
      rw [hs, ht] at h
      obtain ⟨hanswer, hrest⟩ := h
      rw [bind_of_ok hs, bind_of_ok ht, hanswer]
      exact hn q.1 p.2 q.2 hrest

theorem both_eq {x y : Except Halt (α × Simulation β μ)} : Both Eq (fun _ => True) x y ↔ x = y := by
  constructor
  · intro h
    cases x with
    | error why =>
      cases y with
      | error why' => exact congrArg Except.error h.1
      | ok q => exact h.elim
    | ok p =>
      cases y with
      | error why => exact h.elim
      | ok q => exact congrArg Except.ok (Prod.ext h.1 h.2)
  · rintro rfl
    cases x with
    | error why => exact ⟨rfl, trivial⟩
    | ok p => exact ⟨rfl, rfl⟩

namespace Agrees

variable {act : Act β μ α}

theorem bind {next : α → Act β μ γ} (h : Agrees R fails act) (hn : ∀ a, Agrees R fails (next a)) :
    Agrees R fails (act >>= next) := fun s t hst => (h s t hst).bind hn

/-- An operation that ends in both. -/
theorem change (h : ∀ s t, R s t → ∃ a s' t', act s = .ok (a, s') ∧ act t = .ok (a, t') ∧ R s' t') :
    Agrees R fails act := by
  intro s t hst
  obtain ⟨a, s', t', hs, ht, hrest⟩ := h s t hst
  rw [hs, ht]
  exact ⟨rfl, hrest⟩

theorem pure (a : α) : Agrees R fails (Pure.pure a : Act β μ α) :=
  .change fun _ _ hst => ⟨_, _, _, rfl, rfl, hst⟩

theorem halt {why : Halt} (h : fails why) : Agrees R fails (Simulation.halt why : Act β μ α) :=
  fun _ _ _ => ⟨rfl, h⟩

theorem ite {p : Prop} [Decidable p] {act' : Act β μ α} (h : Agrees R fails act) (h' : Agrees R fails act') :
    Agrees R fails (if p then act else act') := by
  split
  · exact h
  · exact h'

theorem forIn {f : ι → PUnit → Act β μ (ForInStep PUnit)} (xs : List ι) (h : ∀ x, Agrees R fails (f x ⟨⟩)) :
    Agrees R fails (ForIn.forIn xs PUnit.unit f) := by
  induction xs with
  | nil => exact .pure _
  | cons x xs ih =>
    rw [List.forIn_cons]
    refine .bind (h x) fun step => ?_
    cases step with
    | done => exact .pure _
    | yield => exact ih

/-- Code that is run for one after the other. -/
theorem runEach {run : Run β μ} (hrun : RunAgrees R fails run) (o : ι → Occasion) (code : ι → β)
    (xs : List ι) :
    Agrees R fails (ForIn.forIn xs PUnit.unit fun x _ =>
      run (o x) (code x) >>= fun _ => Pure.pure (.yield PUnit.unit)) :=
  .forIn xs fun _ => .bind (hrun _ _) fun _ => .pure _

end Agrees

/-! ## The parts of a simulation -/

namespace Parallel

variable (hR : Parallel R)

include hR

theorem ask {f : Simulation β μ → α}
    (hf : ∀ s running loopAlive, f (s.driven running loopAlive) = f s) :
    Agrees R fails (Simulation.ask f) := by
  refine .change fun s t hst => ⟨_, _, _, rfl, ?_, hst⟩
  obtain ⟨running, loopAlive, rfl⟩ := hR.driven hst
  rw [Simulation.ask, hf]

theorem onForest (f : Forest β → α × Forest β) : Agrees R fails (Simulation.onForest f : Act β μ α) := by
  intro s t hst
  have haside := hR.aside hst (f s.forest).2 s.standalone s.types s.memory
  obtain ⟨running, loopAlive, rfl⟩ := hR.driven hst
  exact ⟨rfl, haside⟩

theorem onTypes (f : TypeRegistry β → α × TypeRegistry β) :
    Agrees R fails (Simulation.onTypes f : Act β μ α) := by
  intro s t hst
  have haside := hR.aside hst s.forest s.standalone (f s.types).2 s.memory
  obtain ⟨running, loopAlive, rfl⟩ := hR.driven hst
  exact ⟨rfl, haside⟩

theorem onMemory (f : μ → μ) :
    Agrees R fails (modifyGet fun s => (s.memory, { s with memory := f s.memory }) : Act β μ μ) := by
  intro s t hst
  have haside := hR.aside hst s.forest s.standalone s.types (f s.memory)
  obtain ⟨running, loopAlive, rfl⟩ := hR.driven hst
  exact ⟨rfl, haside⟩

theorem onAttributes (h : Holder) (f : AttributeSet β → α × AttributeSet β) :
    Agrees R fails (Simulation.onAttributes h f : Act β μ α) := by
  intro s t hst
  cases h with
  | entity e =>
    have haside := hR.aside hst (s.forest.modify e fun x =>
      { x with attributes := (f (s.attributesOf (.entity e))).2 }) s.standalone s.types s.memory
    obtain ⟨running, loopAlive, rfl⟩ := hR.driven hst
    exact ⟨rfl, haside⟩
  | standalone i =>
    have haside := hR.aside hst s.forest (s.standalone.modify i fun _ =>
      (f (s.attributesOf (.standalone i))).2) s.types s.memory
    obtain ⟨running, loopAlive, rfl⟩ := hR.driven hst
    exact ⟨rfl, haside⟩

theorem newAttributes (owner : EntityId) :
    Agrees R fails (Simulation.newAttributes owner : Act β μ Holder) := by
  intro s t hst
  have haside := hR.aside hst s.forest (s.standalone.push ⟨owner, [], []⟩) s.types s.memory
  obtain ⟨running, loopAlive, rfl⟩ := hR.driven hst
  exact ⟨rfl, haside⟩

/-- A call that the engine is driven by no one makes alike, with its answer. -/
theorem onEngine {f : Engine (Job β) → α × Engine (Job β)} (c : Engine (Job β) → EngineCall (Job β))
    (heffect : ∀ e, (f e).2 = (c e).effect e)
    (halike : ∀ e running loopAlive, c (e.driven running loopAlive) = c e ∧
      (f (e.driven running loopAlive)).1 = (f e).1) : Agrees R fails (Simulation.onEngine f : Act β μ α) := by
  intro s t hst
  have hcall := hR.call hst (c s.engine)
  obtain ⟨running, loopAlive, rfl⟩ := hR.driven hst
  obtain ⟨hsame, hanswer⟩ := halike s.engine running loopAlive
  refine ⟨hanswer.symm, ?_⟩
  change R { s with engine := (f s.engine).2 }
    { s.driven running loopAlive with engine := (f (s.engine.driven running loopAlive)).2 }
  rw [heffect, heffect, hsame]
  exact hcall

/-- As `onEngine`, for a call that may be refused. -/
theorem tryEngine {f : Engine (Job β) → Except EngineError (α × Engine (Job β))}
    (c : Engine (Job β) → EngineCall (Job β))
    (heffect : ∀ e, (∀ p, f e = .ok p → p.2 = (c e).effect e) ∧
      ∀ error, f e = .error error → e = (c e).effect e)
    (halike : ∀ e running loopAlive, c (e.driven running loopAlive) = c e ∧
      (f (e.driven running loopAlive)).map (·.1) = (f e).map (·.1)) :
    Agrees R fails (Simulation.tryEngine f : Act β μ (Except EngineError α)) := by
  refine hR.onEngine c (fun e => ?_) fun e running loopAlive => ⟨(halike e running loopAlive).1, ?_⟩
  · obtain ⟨hok, herror⟩ := heffect e
    cases hf : f e with
    | ok p => exact hok p hf
    | error error => exact herror error hf
  · have hanswer := (halike e running loopAlive).2
    cases hf : f e <;> cases hf' : f (e.driven running loopAlive) <;> rw [hf, hf'] at hanswer
    · exact hanswer
    · cases hanswer
    · cases hanswer
    · exact hanswer

theorem cancel (id : TaskId) : Agrees R fails (Simulation.onEngine (·.cancel id) : Act β μ Bool) := by
  refine hR.onEngine (fun _ => .cancel id) (fun _ => rfl) fun e _ _ => ⟨rfl, ?_⟩
  rw [Engine.cancel_driven]

theorem cancelling (ids : List TaskId) (hst : R s t) :
    R { s with engine := (s.engine.cancelAll ids).2 } { t with engine := (t.engine.cancelAll ids).2 } := by
  induction ids generalizing s t with
  | nil => exact hst
  | cons id ids ih =>
    rw [Engine.cancelAll_cons, Engine.cancelAll_cons]
    exact ih (hR.call hst (.cancel id))

theorem cancelAll (ids : List TaskId) :
    Agrees R fails (Simulation.onEngine (·.cancelAll ids) : Act β μ Nat) := by
  intro s t hst
  have hrest := hR.cancelling ids hst
  obtain ⟨running, loopAlive, rfl⟩ := hR.driven hst
  exact ⟨(congrArg Prod.fst (Engine.cancelAll_driven ids s.engine)).symm, hrest⟩

theorem stop : Agrees R fails (Simulation.onEngine (·.stop) : Act β μ _) := by
  refine hR.onEngine (fun _ => .stop) (fun _ => rfl) fun e running loopAlive => ⟨rfl, ?_⟩
  unfold Engine.stop
  change (if e.state = .stopped then _ else _ : _ × _).1 = _
  split <;> rfl

theorem pause : Agrees R fails
    (Simulation.tryEngine fun e => (fun e => ((), e)) <$> e.pause : Act β μ (Except EngineError Unit)) := by
  refine hR.tryEngine (fun _ => .pause) (fun e => ?_) fun e _ _ => ⟨rfl, ?_⟩
  · rw [EngineCall.effect]
    cases e.pause with
    | error error => exact ⟨by rintro _ ⟨⟩, fun _ _ => rfl⟩
    | ok e' =>
      refine ⟨fun p hp => ?_, by rintro _ ⟨⟩⟩
      cases hp
      rfl
  · have hmap : ∀ x : Except EngineError (Engine (Job β)),
        ((fun e => ((), e)) <$> x).map (·.1) = x.map fun _ => () := by
      intro x
      cases x <;> rfl
    exact (hmap _).trans ((Engine.pause_driven e).trans (hmap _).symm)

theorem queue (job : Job β) (delay period : Nat) : Agrees R fails
    (Simulation.tryEngine (·.schedule job delay period) : Act β μ (Except EngineError TaskId)) := by
  refine hR.tryEngine (fun _ => .schedule job delay period) (fun e => ?_) fun e _ _ => ⟨rfl, ?_⟩
  · rw [EngineCall.effect]
    cases e.schedule job delay period with
    | error error => exact ⟨by rintro _ ⟨⟩, fun _ _ => rfl⟩
    | ok q =>
      refine ⟨fun p hp => ?_, by rintro _ ⟨⟩⟩
      cases hp
      rfl
  · rw [Engine.schedule_driven]
    cases e.schedule job delay period <;> rfl

theorem setBoundary (which : Boundary) (work : Option (Job β)) :
    Agrees R fails (Simulation.changeEngine (·.setBoundary which work) : Act β μ Unit) :=
  hR.onEngine (fun _ => .setBoundary which work) (fun _ => rfl) fun _ _ _ => ⟨rfl, rfl⟩

theorem flag (id : TaskId) : Agrees R fails (Simulation.changeEngine (·.flag id) : Act β μ Unit) :=
  hR.onEngine (fun _ => .flag id) (fun _ => rfl) fun _ _ _ => ⟨rfl, rfl⟩

theorem moveClock (f : Clock → Clock) : Agrees R fails (Simulation.moveClock f : Act β μ Nat) :=
  hR.onEngine (fun e => .setClock (f e.clock)) (fun _ => rfl) fun _ _ _ => ⟨rfl, rfl⟩

/-! ## Owned tasks -/

section

variable {o : Owner} (hput : ∀ {s t}, R s t → ∀ tracker, R (s.putTracker o tracker) (t.putTracker o tracker))

include hput

theorem changeTracker (f : TaskTracker → TaskTracker) :
    Agrees R fails (Simulation.changeTracker o f : Act β μ Unit) := by
  intro s t hst
  have hsame := hput hst (f (s.trackerOf o))
  obtain ⟨running, loopAlive, rfl⟩ := hR.driven hst
  refine ⟨rfl, ?_⟩
  cases o <;> exact hsame

/-- What is asked of the engine after the call is whether tasks are active. -/
theorem track (id : TaskId) :
    Agrees R fails (do
      let e ← Simulation.ask (·.engine)
      Simulation.changeTracker o (·.trackPruned (fun id => e.isActive id) id)
      return .ok id : Act β μ (Except EngineError TaskId)) := by
  intro s t hst
  have hsame := hput hst ((s.trackerOf o).trackPruned (fun id => s.engine.isActive id) id)
  obtain ⟨running, loopAlive, rfl⟩ := hR.driven hst
  refine ⟨rfl, ?_⟩
  cases o <;> exact hsame

theorem schedule_of_put (job : Job β) (delay period : Nat) :
    Agrees R fails (Simulation.schedule o job delay period : Act β μ _) := by
  refine .bind (hR.ask fun _ _ _ => by cases o <;> rfl) fun may => .ite (.pure _) ?_
  refine .bind (hR.queue job delay period) fun scheduled => ?_
  cases scheduled with
  | error error => exact .pure _
  | ok id => exact hR.track hput id

theorem cancelOwned_of_put (id : TaskId) : Agrees R fails (Simulation.cancelOwned o id : Act β μ _) := by
  refine .bind (hR.ask fun _ _ _ => by cases o <;> rfl) fun tracker =>
    .ite (.bind (hR.changeTracker hput _) fun _ => ?_) (.pure _)
  exact .bind (hR.ask fun _ _ _ => by cases o <;> rfl) fun engine => .ite (hR.cancel id) (.pure _)

theorem cancelAllOwned_of_put : Agrees R fails (Simulation.cancelAllOwned o : Act β μ _) := by
  refine .bind (hR.ask fun _ _ _ => by cases o <;> rfl) fun engine => .ite ?_ (.pure _)
  refine .bind (hR.ask fun _ _ _ => by cases o <;> rfl) fun tracker => ?_
  exact .bind (hR.changeTracker hput _) fun _ => hR.cancelAll _

end

/-- Whoever dies cancels its tasks, if an engine is bound. -/
theorem slay (e : EntityRef) (bound : Bool) (hst : R s t) : R (s.slay e bound) (t.slay e bound) := by
  have hcancelled :
      R { s with
          engine := if bound then (s.engine.cancelAll (s.forest.entity e).tasks.ids).2 else s.engine }
        { t with
          engine := if bound then (t.engine.cancelAll (s.forest.entity e).tasks.ids).2 else t.engine } := by
    cases bound with
    | true => exact hR.cancelling _ hst
    | false => exact hst
  have haside := hR.aside hcancelled (s.forest.fell e bound) s.standalone s.types s.memory
  obtain ⟨running, loopAlive, rfl⟩ := hR.driven hst
  exact haside

omit hR in
theorem put_nobody (hst : R s t) (tracker : TaskTracker) :
    R (s.putTracker .nobody tracker) (t.putTracker .nobody tracker) := hst

theorem put_entity (e : EntityRef) (hst : R s t) (tracker : TaskTracker) :
    R (s.putTracker (.entity e) tracker) (t.putTracker (.entity e) tracker) := by
  have haside := hR.aside hst (s.forest.modify e fun x => { x with tasks := tracker }) s.standalone s.types
    s.memory
  obtain ⟨running, loopAlive, rfl⟩ := hR.driven hst
  exact haside

/-- Where the schedulers may be changed in both as anything else may. -/
theorem aligned (hschedulers : ∀ {s t}, R s t → ∀ schedulers nextScheduler,
    R { s with schedulers, nextScheduler } { t with schedulers, nextScheduler }) : Aligned R fails := by
  have hput : ∀ r, ∀ {s t}, R s t → ∀ tracker,
      R (s.putTracker (.scheduler r) tracker) (t.putTracker (.scheduler r) tracker) := by
    intro r s t hst tracker
    have hchange := hschedulers hst (Entries.put r tracker s.schedulers) s.nextScheduler
    obtain ⟨running, loopAlive, rfl⟩ := hR.driven hst
    exact hchange
  refine ⟨hR, fun r => hR.schedule_of_put (hput r), fun r => hR.cancelOwned_of_put (hput r),
    fun r => hR.cancelAllOwned_of_put (hput r), ?_, fun r => ?_⟩
  · intro s t hst
    have hchange := hschedulers hst (s.schedulers ++ [(⟨s.nextScheduler⟩, ⟨[]⟩)]) (s.nextScheduler + 1)
    obtain ⟨running, loopAlive, rfl⟩ := hR.driven hst
    exact ⟨rfl, hchange⟩
  · refine .bind (hR.ask fun _ _ _ => rfl) fun there => .ite ?_ (.pure _)
    refine .bind (hR.cancelAllOwned_of_put (hput r)) fun _ => ?_
    refine .bind (fun s t hst => ?_) fun _ => .pure _
    have hchange := hschedulers hst (Entries.erase r s.schedulers) s.nextScheduler
    obtain ⟨running, loopAlive, rfl⟩ := hR.driven hst
    exact ⟨rfl, hchange⟩

end Parallel

namespace Aligned

variable (hR : Aligned R fails)

include hR

/-! ## Owned tasks -/

theorem schedule (o : Owner) (job : Job β) (delay period : Nat) :
    Agrees R fails (Simulation.schedule o job delay period : Act β μ _) := by
  cases o with
  | nobody => exact hR.schedule_of_put Parallel.put_nobody job delay period
  | entity e => exact hR.schedule_of_put (hR.put_entity e) job delay period
  | scheduler r => exact hR.enlist r job delay period

theorem cancelOwned (o : Owner) (id : TaskId) :
    Agrees R fails (Simulation.cancelOwned o id : Act β μ _) := by
  cases o with
  | nobody => exact hR.cancelOwned_of_put Parallel.put_nobody id
  | entity e => exact hR.cancelOwned_of_put (hR.put_entity e) id
  | scheduler r => exact hR.dismiss r id

theorem cancelAllOwned (o : Owner) : Agrees R fails (Simulation.cancelAllOwned o : Act β μ _) := by
  cases o with
  | nobody => exact hR.cancelAllOwned_of_put Parallel.put_nobody
  | entity e => exact hR.cancelAllOwned_of_put (hR.put_entity e)
  | scheduler r => exact hR.dismissAll r

end Aligned

namespace Aligned

variable (hR : Aligned R fails)

include hR

/-! ## Types and marks -/

theorem markAsType (e : EntityRef) (type : TypeName) :
    Agrees R fails (Simulation.markAsType e type : Act β μ _) := by
  refine .bind (hR.ask fun _ _ _ => rfl) fun ancestors => ?_
  cases ancestors with
  | error error => exact .pure _
  | ok ancestors =>
    refine .bind (hR.onForest _) fun added => .bind (.forIn _ fun a => ?_) fun _ => .pure _
    exact .bind (hR.onForest _) fun _ => .pure _

theorem unmarkAsType (e : EntityRef) (type : TypeName) :
    Agrees R fails (Simulation.unmarkAsType e type : Act β μ _) := by
  refine .bind (hR.ask fun _ _ _ => rfl) fun found => ?_
  cases found with
  | error error => exact .pure _
  | ok d =>
    refine .bind (hR.onForest _) fun removed => .bind (hR.ask fun _ _ _ => rfl) fun marks => ?_
    refine .bind (.forIn _ fun m => .bind (hR.ask fun _ _ _ => rfl) fun descends => ?_) fun _ => .pure _
    exact .ite (.bind (hR.onForest _) fun _ => .pure _) (.pure _)

theorem viewAs (e : EntityRef) (type : TypeName) : Agrees R fails (Simulation.viewAs e type : Act β μ _) :=
  .bind (hR.onTypes _) fun _ => .pure _

theorem viewAllAs (type : TypeName) (es : List EntityRef) :
    Agrees R fails (Simulation.viewAllAs type es : Act β μ _) := by
  induction es with
  | nil => exact .pure _
  | cons e es ih =>
    refine .bind (hR.viewAs e type) fun p => ?_
    cases p with
    | error error => exact .pure _
    | ok p => exact .bind ih fun _ => .pure _

theorem childAs (container : EntityRef) (id : EntityId) (type : TypeName) :
    Agrees R fails (Simulation.childAs container id type : Act β μ _) := by
  refine .bind (hR.ask fun _ _ _ => rfl) fun found => ?_
  cases found with
  | none => exact .pure _
  | some e => exact .bind (hR.viewAs e type) fun _ => .pure _

theorem childrenAs (container : EntityRef) (type : TypeName) :
    Agrees R fails (Simulation.childrenAs container type : Act β μ _) :=
  .bind (hR.ask fun _ _ _ => rfl) fun es => hR.viewAllAs type es

theorem callGetEntity (p : Proxy) (type : TypeName) (ofType : Bool) (id : EntityId) :
    Agrees R fails (Simulation.callGetEntity p type ofType id : Act β μ _) := by
  refine .bind (hR.ask fun _ _ _ => rfl) fun found => ?_
  cases found with
  | none => exact .pure _
  | some e =>
    refine .bind (hR.viewAs e type) fun seen => ?_
    cases seen <;> exact .pure _

theorem callGetEntities (p : Proxy) (type : TypeName) (ofType : Bool) :
    Agrees R fails (Simulation.callGetEntities p type ofType : Act β μ _) := by
  refine .bind (hR.ask fun _ _ _ => rfl) fun es => .bind (hR.viewAllAs type es) fun seen => ?_
  cases seen <;> exact .pure _

variable {run : Run β μ} {depth : Nat}

section

variable (hrun : RunAgrees R fails run)

include hrun

/-! ## Attributes -/

theorem notify (h : Holder) (k : AttributeKey) (v previous : Option Value) :
    Agrees R fails (Simulation.notify run h k v previous) :=
  .bind (hR.ask fun _ _ _ => rfl) fun _ => .bind (.runEach hrun _ _ _) fun _ => .pure _

theorem setAttribute (h : Holder) (k : AttributeKey) (v : Value) :
    Agrees R fails (Simulation.setAttribute run h k v) := by
  refine .ite (.pure _) (.bind (hR.onAttributes h _) fun previous => ?_)
  exact .bind (hR.notify hrun h k _ _) fun _ => .pure _

theorem removeAttribute (h : Holder) (k : AttributeKey) :
    Agrees R fails (Simulation.removeAttribute run h k) :=
  .bind (hR.onAttributes h _) fun _ => .ite
    (.bind (hR.notify hrun h k _ _) fun _ => .pure _) (.pure _)

theorem fireAttribute (h : Holder) (k : AttributeKey) :
    Agrees R fails (Simulation.fireAttribute run h k) := by
  refine .bind (hR.ask fun _ _ _ => rfl) fun attributes => ?_
  cases attributes.get? k with
  | some v => exact hR.notify hrun h k _ _
  | none => exact .pure _

/-! ## Creation and death -/

theorem announce (container : EntityRef) (event : EntityEvent) :
    Agrees R fails (Simulation.announce run container event) :=
  .bind (hR.ask fun _ _ _ => rfl) fun _ => .bind (.runEach hrun _ _ _) fun _ => .pure _

theorem insert (container : EntityRef) (id : EntityId) (values : List (AttributeKey × Value)) :
    Agrees R fails (Simulation.createEntity.insert run container values id) :=
  .bind (hR.onForest _) fun _ => .bind (hR.announce hrun container _) fun _ => .pure _

theorem enter (container : EntityRef) (values : List (AttributeKey × Value)) (f : Forest β) (id : EntityId) :
    Agrees R fails (Simulation.enter run container values f id) := by
  unfold Simulation.enter
  cases mismatch? values with
  | some error => exact .pure _
  | none =>
  refine .ite (.pure _) ?_
  cases f.limitOf container with
  | none => exact hR.insert hrun container id values
  | some limit => exact .ite (.pure _) (hR.insert hrun container id values)

theorem createEntity (container : EntityRef) (id : Option EntityId) (values : List (AttributeKey × Value)) :
    Agrees R fails (Simulation.createEntity run container id values) := by
  refine .bind (hR.ask fun _ _ _ => rfl) fun f => .ite (.pure _) ?_
  cases id with
  | some id => exact .bind (.pure id) (hR.enter hrun container values f)
  | none => exact .bind (hR.onForest _) (hR.enter hrun container values f)

theorem bury (bound : Bool) (e : EntityRef) (children : List EntityRef)
    (hdie : ∀ c, Agrees R fails (Simulation.die run bound depth c)) :
    Agrees R fails (Simulation.bury run bound depth e children) := by
  refine .bind (.forIn _ fun c => .bind (hdie c) fun _ => .pure _) fun _ => ?_
  refine .bind (hR.ask fun _ _ _ => rfl) fun listeners => .bind (.forIn _ fun c => ?_) fun _ => .pure _
  exact .bind (.runEach hrun _ _ _) fun _ => .pure _

theorem callSetAttribute (p : Proxy) (k : AttributeKey) (returnsPrevious : Bool) (args : List Arg) :
    Agrees R fails (Simulation.callSetAttribute run p k returnsPrevious args) := by
  unfold Simulation.callSetAttribute
  simp only
  split
  · refine .bind (hR.setAttribute hrun _ _ _) fun previous => ?_
    cases previous <;> exact .pure _
  · exact .bind (hR.removeAttribute hrun _ _) fun _ => .pure _
  · exact .pure _

variable (hdeep : fails .exhausted)

include hdeep

theorem die (bound : Bool) (depth : Nat) (e : EntityRef) :
    Agrees R fails (Simulation.die run bound depth e) := by
  induction depth generalizing e with
  | zero => exact .halt hdeep
  | succ depth ih =>
    intro s t hst
    have hforest : t.forest = s.forest := by
      obtain ⟨running, loopAlive, rfl⟩ := hR.driven hst
      rfl
    cases hlive : s.forest.isAlive e with
    | false =>
      rw [die_of_dead hlive, die_of_dead (hforest ▸ hlive)]
      exact ⟨rfl, hst⟩
    | true =>
      rw [die_of_alive hlive, die_of_alive (hforest ▸ hlive), hforest]
      exact hR.bury hrun bound e (s.forest.children e) ih _ _ (hR.slay e bound hst)

theorem killEntity (container : EntityRef) (id : EntityId) :
    Agrees R fails (Simulation.killEntity run depth container id) := by
  refine .bind (hR.ask fun _ _ _ => rfl) fun found => ?_
  cases found with
  | none => exact .pure _
  | some e =>
    refine .bind (hR.onForest _) fun _ => .bind (hR.ask fun _ _ _ => rfl) fun bound => ?_
    refine .bind (hR.die hrun hdeep bound depth e) fun _ => ?_
    exact .bind (hR.announce hrun container _) fun _ => .pure _

theorem killEntities (container : EntityRef) :
    Agrees R fails (Simulation.killEntities run depth container) := by
  refine .bind (hR.ask fun _ _ _ => rfl) fun ids => .bind (.forIn _ fun id => ?_) fun _ => .pure _
  exact .bind (hR.killEntity hrun hdeep container id) fun _ => .pure _

theorem kill (e : EntityRef) : Agrees R fails (Simulation.kill run depth e) := by
  refine .bind (hR.ask fun _ _ _ => rfl) fun parent => ?_
  cases parent with
  | none => exact .pure _
  | some p => exact .bind (hR.ask fun _ _ _ => rfl) fun id => hR.killEntity hrun hdeep p id

theorem shutdown : Agrees R fails (Simulation.shutdown run depth) :=
  .bind (hR.ask fun _ _ _ => rfl) fun bound => hR.die hrun hdeep bound depth Forest.root

/-! ## Calls of methods -/

theorem finishCreation (p : Proxy) (e : EntityRef) (type : TypeName) :
    Agrees R fails (Simulation.finishCreation run depth p e type) := by
  have hundone : ∀ answer : Except CallError Return, Agrees R fails (Simulation.ask (·.forest.idOf e) >>=
      fun id => Simulation.killEntity run depth p.entity id >>= fun _ => Pure.pure answer) := fun answer =>
    .bind (hR.ask fun _ _ _ => rfl) fun id => .bind (hR.killEntity hrun hdeep p.entity id) fun _ => .pure _
  refine .bind (hR.markAsType e type) fun marked => ?_
  cases marked with
  | error error => exact hundone _
  | ok _ =>
    refine .bind (hR.viewAs e type) fun typed => ?_
    cases typed with
    | ok q => exact .pure _
    | error error => exact hundone _

theorem callNewEntity (p : Proxy) (id : Option EntityId) (container : Option Holder)
    (type : Option TypeName) : Agrees R fails (Simulation.callNewEntity run depth p id container type) := by
  cases type with
  | none =>
    refine .bind (.bind (hR.ask fun _ _ _ => rfl) fun values => hR.createEntity hrun _ _ values)
      fun created => ?_
    cases created <;> exact .pure _
  | some type =>
    refine .bind (hR.onTypes _) fun resolved => ?_
    cases resolved with
    | error error => exact .pure _
    | ok _ =>
      refine .bind (.bind (hR.ask fun _ _ _ => rfl) fun values => hR.createEntity hrun _ _ values)
        fun created => ?_
      cases created with
      | error error => exact .pure _
      | ok e => exact hR.finishCreation hrun hdeep p e type

theorem perform (p : Proxy) (args : List Arg) (b : Binding β) :
    Agrees R fails (Simulation.perform run depth p args b) := by
  cases b with
  | getAttribute => exact .bind (hR.ask fun _ _ _ => rfl) fun _ => .pure _
  | setAttribute => exact hR.callSetAttribute hrun p _ _ args
  | getEntity type _ ofType id =>
    simp only [Simulation.perform]
    split
    · exact .pure _
    · exact hR.callGetEntity p type ofType _
  | getEntities type ofType => exact hR.callGetEntities p type ofType
  | newEntity id container type =>
    simp only [Simulation.perform]
    split
    · exact .pure _
    · exact hR.callNewEntity hrun hdeep p _ _ type
  | killEntity id returnsFlag =>
    simp only [Simulation.perform]
    split
    · exact .pure _
    · exact .bind (hR.killEntity hrun hdeep _ _) fun _ => .pure _
  | killEntities => exact .bind (hR.killEntities hrun hdeep _) fun _ => .pure _
  | markAsType type => exact .bind (hR.markAsType _ type) fun _ => .pure _
  | unmarkAsType type => exact .bind (hR.unmarkAsType _ type) fun _ => .pure _
  | scheduleForActor action delay period =>
    refine .bind (hR.schedule _ _ delay period) fun scheduled => ?_
    cases scheduled <;> exact .pure _
  | defaultMethod body => exact hrun (.method p args) body

theorem invoke (p : Proxy) (name : String) (args : List Arg) :
    Agrees R fails (Simulation.invoke run depth p name args) := by
  refine .bind (hR.onTypes _) fun resolved => ?_
  cases resolved with
  | error error => exact .pure _
  | ok t =>
    simp only
    split
    · exact .pure _
    · exact hR.perform hrun hdeep p args _

theorem invokeKey (p : Proxy) (k : MethodKey) (args : List Arg) :
    Agrees R fails (Simulation.invokeKey run depth p k args) := by
  refine .bind (hR.ask fun _ _ _ => rfl) fun table => ?_
  split
  · exact .pure _
  · exact .bind (hR.perform hrun hdeep p args _) fun _ => .pure _

theorem answer (bound : Nat) {q : Request} (hq : ¬q.IsTick) :
    Agrees R fails (Simulation.answer run bound q) := by
  cases q with
  | step | stepMany | stepWhileActive | tick => exact absurd trivial hq
  | advance span => exact hR.moveClock _
  | advanceTo time => exact hR.moveClock _
  | pause => exact hR.pause
  | stop => exact hR.stop
  | clearBoundary which => exact hR.setBoundary which none
  | flag id => exact hR.flag id
  | cancel id => exact hR.cancel id
  | newScheduler => exact hR.found
  | dropScheduler ref => exact hR.disband ref
  | cancelOwned owner id => exact hR.cancelOwned owner id
  | cancelAllOwned owner => exact hR.cancelAllOwned owner
  | create container id source =>
    exact .bind (hR.ask fun _ _ _ => rfl) fun values => hR.createEntity hrun _ _ values
  | killEntity container id => exact hR.killEntity hrun hdeep container id
  | killEntities container => exact hR.killEntities hrun hdeep container
  | kill ref => exact hR.kill hrun hdeep ref
  | shutdown => exact hR.shutdown hrun hdeep
  | bind bound => exact hR.onForest fun f => (f.bound, { f with bound })
  | unsubscribe container listener => exact hR.onForest (·.unsubscribe container listener)
  | mark ref type => exact hR.onForest (·.mark ref type)
  | unmark ref type => exact hR.onForest (·.unmark ref type)
  | newAttributes owner => exact hR.newAttributes owner
  | validateTree type => exact hR.onTypes (·.validateTree type)
  | setAttribute holder key value => exact hR.setAttribute hrun holder key value
  | removeAttribute holder key => exact hR.removeAttribute hrun holder key
  | fireAttribute holder key => exact hR.fireAttribute hrun holder key
  | clearAttributes holder => exact hR.onAttributes holder fun a => ((), a.clear)
  | unsubscribeFrom holder key listener => exact hR.onAttributes holder fun a => a.unsubscribe key listener
  | markAsType ref type => exact hR.markAsType ref type
  | unmarkAsType ref type => exact hR.unmarkAsType ref type
  | viewAs ref type => exact hR.viewAs ref type
  | childAs container id type => exact hR.childAs container id type
  | childrenAs container type => exact hR.childrenAs container type
  | invoke proxy method args => exact hR.invoke hrun hdeep proxy method args
  | invokeKey proxy key args => exact hR.invokeKey hrun hdeep proxy key args
  | _ => exact hR.ask fun _ _ _ => rfl

end

end Aligned

end Simulation

end Vivarium
