import Vivarium.Proofs.Boundaries
import Vivarium.Simulation.State

/-! # The conduct of the code of tasks

Code that keeps to a conduct acts on the engine by calls, and whatever it schedules keeps to the
conduct too. So all the code that a machine comes to run does.
-/

namespace Vivarium

/-- The code that keeps to the conduct, what the memory tells of the bodies that have begun, and how a
body may break off. -/
structure Conduct (β μ : Type) where
  good : β → Prop
  seen : μ → List TaskId → Prop
  fails : Halt → Prop

namespace EngineCall

variable {β : Type}

/-- The calls that a body may make: a flag is raised through the context of the body, and the code
that is passed on is good. -/
def IsFit (good : β → Prop) (own : TaskId) : EngineCall (Job β) → Prop
  | .schedule work _ _ => good work.code
  | .setBoundary _ (some work) => good work.code
  | .flag id => id = own
  | _ => True

theorem IsFit.mono {good good' : β → Prop} {own : TaskId} {c : EngineCall (Job β)}
    (h : c.IsFit good own) (hgood : ∀ code, good code → good' code) : c.IsFit good' own := by
  cases c with
  | schedule work delay period => exact hgood work.code h
  | setBoundary which work =>
    cases work with
    | none => trivial
    | some work => exact hgood work.code h
  | flag id => exact h
  | _ => trivial

def effects (calls : List (EngineCall β)) (e : Engine β) : Engine β :=
  calls.foldl (fun e c => c.effect e) e

end EngineCall

/-- A call of this kind, or a step of the machine's own, which moves the clock only at the end of a
tick. -/
inductive Machine.StepBy {β : Type} (ok : EngineCall β → Prop) (m : Machine β) : Machine β → Prop
  | call (c : EngineCall β) (hp : m.phase.listens = true) (hc : m.Allows c) (hok : ok c) :
    StepBy ok m (m.move (c.effect m.engine) m.phase (c.notes m.engine))
  | own {m' : Machine β} (hs : m.Step m')
    (hclock : (∀ k, m.phase ≠ .parking k) → m'.engine.clock = m.engine.clock) : StepBy ok m m'

theorem Machine.StepBy.step {β : Type} {ok : EngineCall β → Prop} {m m' : Machine β}
    (h : m.StepBy ok m') : m.Step m' := by
  cases h with
  | call c hp hc => exact .call c hp hc
  | own hs => exact hs

/-- Such a step inside an operation. -/
def Machine.InsideBy {β : Type} (ok : EngineCall β → Prop) (m m' : Machine β) : Prop :=
  m.phase ≠ .idle ∧ m.StepBy ok m'

namespace Conduct

variable {β μ : Type}

/-- Running good code breaks off as it may, or has acted on the engine by fit calls only. -/
def Obeys (c : Conduct β μ) (run : Run β μ) : Prop :=
  ∀ (x : TaskContext) (code : β) (s : Simulation β μ), c.good code →
    match run (.task x) code s with
    | .error why => c.fails why
    | .ok (_, s') =>
      (∀ ids, c.seen s.memory ids → c.seen s'.memory (ids ++ [x.id])) ∧
        ∃ calls : List (EngineCall (Job β)),
          (∀ call ∈ calls, call.IsFit c.good x.id) ∧ s'.engine = EngineCall.effects calls s.engine

/-- As `Obeys`, where the calls are of a certain kind. -/
def ObeysBy (c : Conduct β μ) (ok : EngineCall (Job β) → Prop) (run : Run β μ) : Prop :=
  ∀ (x : TaskContext) (code : β) (s : Simulation β μ), c.good code →
    match run (.task x) code s with
    | .error why => c.fails why
    | .ok (_, s') =>
      (∀ ids, c.seen s.memory ids → c.seen s'.memory (ids ++ [x.id])) ∧
        ∃ calls : List (EngineCall (Job β)),
          (∀ call ∈ calls, call.IsFit c.good x.id ∧ ok call) ∧
            s'.engine = EngineCall.effects calls s.engine

theorem Obeys.obeysBy {c : Conduct β μ} {run : Run β μ} (h : c.Obeys run) :
    c.ObeysBy (fun _ => True) run := by
  intro x code s hgood
  have hrun := h x code s hgood
  split at hrun
  · exact hrun
  · obtain ⟨hsees, calls, hfit, heffects⟩ := hrun
    exact ⟨hsees, calls, fun call hcall => ⟨hfit call hcall, trivial⟩, heffects⟩

end Conduct

namespace Machine

variable {β : Type} {good : β → Prop} {m m' : Machine (Job β)}

/-- All code that an engine may come to run is good. -/
structure Serves (good : β → Prop) (m : Machine (Job β)) : Prop where
  queue : ∀ t ∈ m.engine.queue.toList, good t.work.code
  pending : ∀ t ∈ m.phase.pending, good t.work.code
  boundary : ∀ which t, m.engine.boundary which = some t → good t.work.code

namespace Serves

theorem mono (h : m.Serves good) {good' : β → Prop} (hgood : ∀ code, good code → good' code) :
    m.Serves good' :=
  ⟨fun t ht => hgood _ (h.queue t ht), fun t ht => hgood _ (h.pending t ht),
    fun which t ht => hgood _ (h.boundary which t ht)⟩

theorem keep (h : m.Serves good) {e : Engine (Job β)} {p : Phase (Job β)} {ns : List (Note (Job β))}
    (hqueue : ∀ t ∈ e.queue.toList, t ∈ m.engine.queue.toList ∨ good t.work.code)
    (hpending : ∀ t ∈ p.pending, t ∈ m.phase.pending ∨ good t.work.code)
    (hslots : ∀ which t, e.boundary which = some t →
      m.engine.boundary which = some t ∨ good t.work.code) :
    (m.move e p ns).Serves good where
  queue t ht := (hqueue t ht).elim (h.queue t) id
  pending t ht := (hpending t ht).elim (h.pending t) id
  boundary which t ht := (hslots which t ht).elim (h.boundary which t) id

/-- A move that leaves the tasks of the engine and the turns to come as they are. -/
theorem same (h : m.Serves good) {e : Engine (Job β)} {p : Phase (Job β)} {ns : List (Note (Job β))}
    (hqueue : e.queue = m.engine.queue) (hfirst : e.first = m.engine.first)
    (hlast : e.last = m.engine.last) (hpending : p.pending = m.phase.pending) :
    (m.move e p ns).Serves good := by
  refine h.keep (fun t ht => Or.inl (hqueue ▸ ht)) (fun t ht => Or.inl (hpending ▸ ht)) ?_
  intro which t ht
  cases which with
  | first => exact Or.inl (hfirst.symm.trans ht)
  | last => exact Or.inl (hlast.symm.trans ht)

theorem schedule (h : m.Serves good) (hl : m.Ledger) {work : Job β} (hw : good work.code)
    (delay period : Nat) {ns : List (Note (Job β))} :
    (m.move (EngineCall.effect m.engine (.schedule work delay period)) m.phase ns).Serves good := by
  by_cases hs : m.engine.state = .stopped
  · simp only [EngineCall.effect, Engine.schedule_of_stopped hs]
    exact h.same rfl rfl rfl rfl
  · simp only [EngineCall.effect, Engine.schedule_ok hs]
    refine h.keep ?_ (fun _ => Or.inl) fun which t ht => ?_
    · intro t ht
      rcases List.mem_cons.mp ((hl.queue.toList_insert _).mem_iff.mp ht) with rfl | ht
      · exact Or.inr hw
      · exact Or.inl (List.mem_filter.mp ht).1
    · cases which <;> exact Or.inl ht

theorem cancel (h : m.Serves good) (hl : m.Ledger) (id : TaskId) {ns : List (Note (Job β))} :
    (m.move (m.engine.cancel id).2 m.phase ns).Serves good := by
  by_cases hid : id ∈ m.engine.queue.ids
  · rw [Engine.cancel_queued hl.queue hid]
    refine h.keep ?_ (fun _ => Or.inl) fun which t ht => ?_
    · intro t ht
      rw [hl.queue.toList_remove] at ht
      exact Or.inl (List.mem_filter.mp ht).1
    · cases which <;> exact Or.inl ht
  · rw [Engine.cancel_not_queued hl.queue hid]
    split <;> exact h.same rfl rfl rfl rfl

theorem setBoundary (h : m.Serves good) (which : Boundary) {work : Option (Job β)}
    (hw : ∀ j, work = some j → good j.code) {ns : List (Note (Job β))} :
    (m.move (m.engine.setBoundary which work) m.phase ns).Serves good := by
  refine h.keep ?_ (fun _ => Or.inl) fun w t ht => ?_
  · rw [(Engine.SameTasks.setBoundary which work m.engine).queue]
    exact fun _ => Or.inl
  · cases work with
    | none =>
      rw [Engine.setBoundary, Engine.boundary_putBoundary] at ht
      split at ht
      · cases ht
      · exact Or.inl ht
    | some j =>
      change (m.engine.putBoundary which _).boundary w = some t at ht
      rw [Engine.boundary_putBoundary] at ht
      split at ht
      · cases ht
        exact Or.inr (hw j rfl)
      · exact Or.inl ht

theorem stop (h : m.Serves good) {ns : List (Note (Job β))} :
    (m.move m.engine.stop.2 m.phase ns).Serves good := by
  by_cases hs : m.engine.state = .stopped
  · rw [Engine.stop_of_stopped hs]
    exact h.same rfl rfl rfl rfl
  · rw [(Engine.stop_of_live hs).2]
    exact h.keep (by rintro _ ⟨⟩) (fun _ => Or.inl) fun which t ht => by
      cases which <;> exact Or.inl ht

theorem call (h : m.Serves good) (hl : m.Ledger) {own : TaskId} {c : EngineCall (Job β)}
    (hc : c.IsFit good own) {ns : List (Note (Job β))} :
    (m.move (c.effect m.engine) m.phase ns).Serves good := by
  cases c with
  | schedule work delay period => exact h.schedule hl hc delay period
  | cancel id => exact h.cancel hl id
  | flag id => exact h.same rfl rfl rfl rfl
  | pause =>
    rcases Engine.effect_pause m.engine with heq | ⟨-, heq⟩ <;> rw [heq] <;>
      exact h.same rfl rfl rfl rfl
  | stop => exact h.stop
  | setBoundary which work =>
    refine h.setBoundary which fun j hj => ?_
    subst hj
    exact hc
  | setClock clock => exact h.same rfl rfl rfl rfl

theorem launch (h : m.Serves good) (hs : m.Sound) (bound : Nat) (k : TickFrame)
    {ns : List (Note (Job β))} :
    (m.move (m.engine.launch bound).2 (.turns k (m.engine.launch bound).1) ns).Serves good := by
  obtain ⟨hdue, heq⟩ := Engine.launch_eq hs.ledger.queue hs.ledger.held_nodup bound
  obtain ⟨-, hlist, -⟩ := hs.ledger.queue.popAllDue bound
  rw [hdue, heq]
  refine h.keep ?_ ?_ fun which t ht => ?_
  · intro t ht
    rw [hlist] at ht
    exact Or.inl (List.mem_filter.mp ht).1
  · exact fun t ht => Or.inr (h.queue t (List.mem_filter.mp ht).1)
  · cases which <;> exact Or.inl ht

theorem finish (h : m.Serves good) (hl : m.Ledger) {k : TickFrame} {t : Task (Job β)}
    {rest : List (Task (Job β))} (hp : m.phase.pending = t :: rest) {b : TickBarrier}
    {ns : List (Note (Job β))} :
    (m.move ({ m.engine with barrier := b }.finish t) (.turns k rest) ns).Serves good := by
  have hgood := h.pending
  rw [hp] at hgood
  rw [Engine.finish, Engine.complete_eq]
  refine h.keep ?_ ?_ fun which u hu => ?_
  · intro u hu
    change u ∈ TaskQueue.toList (ite _ _ _) at hu
    split at hu
    · rcases List.mem_cons.mp ((hl.queue.toList_insert _).mem_iff.mp hu) with rfl | hu
      · exact Or.inr (hgood t List.mem_cons_self)
      · exact Or.inl (List.mem_filter.mp hu).1
    · exact Or.inl hu
  · exact fun u hu => Or.inr (hgood u (List.mem_cons_of_mem _ hu))
  · cases which <;> exact Or.inl hu

theorem settleBoundary (h : m.Serves good) (which : Boundary) (t : Task (Job β)) {p : Phase (Job β)}
    (hp : p.pending = m.phase.pending) {ns : List (Note (Job β))} :
    (m.move (m.engine.settleBoundary which t) p ns).Serves good := by
  refine h.keep ?_ (fun u hu => Or.inl (hp ▸ hu)) fun w u hu => ?_
  · rw [(Engine.SameTasks.settleBoundary which t m.engine).queue]
    exact fun _ => Or.inl
  · exact Or.inl (Engine.boundary_settleBoundary hu).1

theorem park (h : m.Serves good) (deadline : Nat) {p : Phase (Job β)} (hp : p.pending = m.phase.pending)
    {ns : List (Note (Job β))} : (m.move (m.engine.endTick deadline) p ns).Serves good := by
  rcases Engine.park_cases deadline { m.engine with meter := m.engine.meter.endTick } with
    ⟨-, heq⟩ | ⟨-, heq⟩ <;> rw [Engine.endTick, heq] <;> exact h.same rfl rfl rfl hp

end Serves

end Machine

end Vivarium
