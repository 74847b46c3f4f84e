import Vivarium.Proofs.Synchrony

/-! # Engines that no loop drives

Whether the tick loop is there is told by one sign, and whether it is asked to run by another. Where nothing
is in progress no loop is there, and the engine is not asked to run.
-/

namespace Vivarium

namespace Engine

variable {β : Type} {alive : Bool} {e e' : Engine β}

/-- The loop is there or not, and an engine that is asked to run has one and is ticking or waiting. -/
structure Looped (alive : Bool) (e : Engine β) : Prop where
  loopAlive : e.loopAlive = alive
  running : e.running = true → alive = true ∧ e.state.isRunning = true

namespace Looped

theorem create {config : EngineConfig} (h : Engine.create config = .ok e) : e.Looped false := by
  obtain ⟨-, rfl⟩ := create_ok h
  exact ⟨rfl, by rintro ⟨⟩⟩

theorem idle (h : e.Looped false) : e.running = false := by
  cases hr : e.running with
  | true => cases (h.running hr).1
  | false => rfl

theorem rest (h : e.Looped alive) (hloop : e'.loopAlive = e.loopAlive) (hr : e'.running = false) :
    e'.Looped alive := by
  refine ⟨hloop.trans h.loopAlive, fun hr' => ?_⟩
  rw [hr] at hr'
  cases hr'

theorem of_running (h : e.Looped alive) (hloop : e'.loopAlive = e.loopAlive) (hr : e'.running = e.running)
    (hstate : e.state.isRunning = true → e'.state.isRunning = true) : e'.Looped alive := by
  refine ⟨hloop.trans h.loopAlive, fun hr' => ?_⟩
  obtain ⟨halive, hs⟩ := h.running (hr ▸ hr')
  exact ⟨halive, hstate hs⟩

theorem effect (h : e.Looped alive) (c : EngineCall β) : (c.effect e).Looped alive := by
  cases c with
  | pause =>
    rcases effect_pause e with heq | ⟨-, heq⟩ <;> rw [heq]
    · exact h
    · exact h.rest rfl rfl
  | stop =>
    rw [EngineCall.effect]
    by_cases hs : e.state = .stopped
    · rw [stop_of_stopped hs]
      exact h.rest rfl rfl
    · rw [(stop_of_live hs).2]
      exact h.rest rfl rfl
  | _ =>
    refine h.of_running (SameControl.effect (by rfl) e).loopAlive (SameControl.effect (by rfl) e).running ?_
    rw [(SameControl.effect (by rfl) e).state]
    exact fun hs => hs

theorem move (h : e.Looped alive) (m : TickMove β) : (m.effect e).Looped alive := by
  obtain ⟨hr, hloop, hstate⟩ := m.effect_control e
  refine h.of_running hloop hr fun hs => ?_
  rcases hstate with heq | ⟨-, heq⟩ <;> rw [heq]
  · exact hs
  · rfl

theorem rouse (h : e.Looped alive) : Looped alive { e with state := .ticking } :=
  h.of_running rfl rfl fun _ => rfl

theorem start {drives : Bool} (h : e.Looped alive) (he : e.start = .ok (drives, e')) :
    drives = !alive ∧ e'.Looped true := by
  obtain ⟨-, rfl, state, hs, rfl⟩ := start_ok he
  rw [h.loopAlive]
  exact ⟨rfl, rfl, fun _ => ⟨rfl, hs⟩⟩

theorem goes (h : e.Looped alive) (he : e.continues = (true, e')) : e'.Looped alive := by
  obtain ⟨-, -, rfl⟩ := continues_true he
  exact h.rouse

theorem ends (h : e.Looped alive) (he : e.continues = (false, e')) : e'.Looped false := by
  obtain ⟨hno, rfl⟩ := continues_false he
  refine ⟨rfl, fun hr => ?_⟩
  exact absurd ⟨hr, (h.running hr).2⟩ hno

end Looped

end Engine

namespace Simulation

variable {β μ : Type} {fails : Halt → Prop} {run : Run β μ} {s s' t : Simulation β μ} {alive : Bool}

def InLoop (alive : Bool) (s : Simulation β μ) : Prop := s.engine.Looped alive

theorem parallel_inLoop (alive : Bool) : Parallel (Alone (InLoop alive : Simulation β μ → Prop)) :=
  parallel_alone (fun _ _ _ _ _ hs => hs) fun _ c hs => Engine.Looped.effect hs c

theorem aligned_inLoop (alive : Bool) : Aligned (Alone (InLoop alive : Simulation β μ → Prop)) fails := by
  refine (parallel_inLoop alive).aligned fun hst _ _ => ?_
  obtain ⟨rfl, hs⟩ := hst
  exact ⟨rfl, hs⟩

theorem runTick_inLoop (hrun : RunAgrees (Alone (InLoop alive)) fails run) (hheld : fails .deadlock) :
    Brings (InLoop alive) (InLoop alive) fails (runTick run) := by
  have hmove : ∀ (s : Simulation β μ) m, InLoop alive s → InLoop alive (s.moving m) :=
    fun _ m hs => Engine.Looped.move hs m
  exact agrees_alone.mp ((parallel_inLoop alive).runTick (ticking_alone hmove) hrun hheld)

theorem step_inLoop (hrun : RunAgrees (Alone (InLoop alive)) (fun _ => True) run) :
    Brings (InLoop alive) (InLoop alive) (fun _ => True) (step run) :=
  step_brings (runTick_inLoop hrun trivial) fun _ hs _ _ => hs.rouse

/-- A loop that was driven to its end is gone, as it was before. -/
theorem tick_inLoop (hrun : ∀ alive, RunAgrees (Alone (InLoop alive)) (fun _ => True) run) (bound : Nat)
    (alive : Bool) : Brings (InLoop alive) (InLoop alive) (fun _ => True) (tick run bound) := by
  intro s hs
  by_cases hstopped : s.engine.state = .stopped
  · exact .of_ok (tick_of_stopped hstopped bound) hs
  · have hstart := Engine.start_of_live hstopped
    have hstarted := Engine.Looped.start hs hstart
    rw [hstarted.1] at hstart
    cases alive with
    | true => exact .of_ok (tick_of_alive hstart bound) hstarted.2
    | false =>
      have hloop : Brings (InLoop true) (InLoop false) (fun _ => True) (loop run bound) :=
        loop_brings (runTick_inLoop (hrun true) trivial) (fun _ _ hs he => hs.goes he)
          (fun _ _ hs he => hs.ends he) trivial bound
      rw [BringsTo, tick_of_driven hstart]
      refine BringsTo.bind (hloop _ ?_) fun _ => .pure _
      exact hstarted.2

/-- Every request leaves the loop as it was. -/
theorem answer_inLoop (hrun : ∀ alive, RunAgrees (Alone (InLoop alive)) (fun _ => True) run) (bound : Nat)
    (alive : Bool) (q : Request) : Agrees (Alone (InLoop alive)) (fun _ => True) (answer run bound q) :=
  answer_agrees (runTick_inLoop (hrun alive) trivial) (fun _ hs _ _ => hs.rouse) (aligned_inLoop alive)
    (hrun alive) trivial bound (tick_inLoop hrun bound alive) q

theorem runCode_inLoop {μ : Type} (n : Nat) (alive : Bool) :
    RunAgrees (Alone (InLoop alive)) (fun _ => True) (runCode (μ := μ) n) := by
  rw [← runWithin_all]
  exact runWithin_agrees (fun alive => aligned_inLoop alive) trivial
    (fun _ bound hrun alive q _ => answer_inLoop hrun bound alive q) n alive

theorem execute_inLoop {μ : Type} (n : Nat) (alive : Bool) {r : Role} (p : Program μ r) :
    Brings (InLoop alive) (InLoop alive) (fun _ => True) (execute n p) := by
  rw [← executeWithin_all, ← agrees_alone]
  exact executeWithin_agrees (fun alive => aligned_inLoop alive) trivial
    (fun _ bound hrun alive q _ => answer_inLoop hrun bound alive q) n alive p

/-- Where nothing is in progress no loop is there, and the engine is not asked to run. -/
theorem Lived.idle {μ : Type} {s : Simulation (Code μ) μ} (h : s.Lived) : s.engine.Looped false := by
  induction h with
  | new h =>
    obtain ⟨config, e, limit, he, rfl, -⟩ := h
    exact .create he
  | declare _ _ ih => exact ih
  | run _ hact ih => exact (execute_inLoop _ false _ _ ih).apply hact

end Simulation

end Vivarium
