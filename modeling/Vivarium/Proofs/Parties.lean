import Vivarium.Proofs.Carrying
import Vivarium.Proofs.Histories

/-! # The parties at the barrier

Every operation leaves the barrier with as many parties as it has found there, and the turn of a task adds
one for as long as it lasts. So a tick comes to its barrier with the parties that there were when it began.
-/

namespace Vivarium

namespace Engine

variable {β : Type} {n : Nat} {e e' : Engine β}

/-- What the operations of a tick keep; the number is that of the parties which are awaited. -/
structure TickKeeps (P : Nat → Engine β → Prop) : Prop where
  entered : ∀ {n e e'}, P n e → e.enter .ticking = .ok e' → P n e'
  started : ∀ {n e drives e'}, P n e → e.start = .ok (drives, e') → P n e'
  continued : ∀ {n e}, P n e → P n e.continues.2
  begun : ∀ {n e}, P n e → P n e.beginTick
  settled : ∀ {n e}, P n e → ∀ which t, P n (e.settleBoundary which t)
  launched : ∀ {n e}, P n e → ∀ bound, P n (e.launch bound).2
  registered : ∀ {n e}, P n e → P (n + 1) e.register
  completed : ∀ {n e}, P n e → ∀ t, P n (e.complete t)
  arrived : ∀ {n e}, P (n + 1) e → P n { e with barrier := e.barrier.arrive }
  passed : ∀ {n e passed b}, P n e → e.barrier.await? = some (passed, b) → P n { e with barrier := b }
  ended : ∀ {n e}, P n e → P n { e with meter := e.meter.endTick }
  parked : ∀ {n e}, P n e → ∀ deadline, P n (e.park deadline)

/-- So many parties have yet to arrive at the barrier, and it is terminated if and only if the engine is
stopped. -/
structure Awaits (n : Nat) (e : Engine β) : Prop where
  parties : e.barrier.registered = e.barrier.arrived + n
  terminated : e.barrier.terminated = true ↔ e.state = .stopped

namespace Awaits

theorem create {config : EngineConfig} (h : Engine.create config = .ok e) : e.Awaits 0 := by
  obtain ⟨-, rfl⟩ := create_ok h
  exact ⟨rfl, iff_of_false (by rintro ⟨⟩) (by rintro ⟨⟩)⟩

theorem pending (h : e.Awaits n) : e.barrier.pending = n := by
  have hparties := h.parties
  unfold TickBarrier.pending
  omega

/-- The tick is held up at its barrier if a party is missing, unless the engine is stopped. -/
theorem await?_eq_none (h : e.Awaits n) : e.barrier.await? = none ↔ n ≠ 0 ∧ e.state ≠ .stopped := by
  have hparties := h.parties
  have hblocks : e.barrier.blocks = true ↔ n ≠ 0 ∧ e.state ≠ .stopped := by
    rw [TickBarrier.blocks, Bool.and_eq_true, decide_eq_true_iff, Bool.not_eq_true', ← Bool.not_eq_true,
      h.terminated]
    exact and_congr_left fun _ => by omega
  rw [← hblocks, TickBarrier.await?]
  cases e.barrier.blocks <;> simp

theorem of_same (h : e.Awaits n) (hbarrier : e'.barrier = e.barrier)
    (hstopped : e'.state = .stopped ↔ e.state = .stopped) : e'.Awaits n := by
  constructor
  · rw [hbarrier]
    exact h.parties
  · rw [hbarrier, hstopped]
    exact h.terminated

theorem of_control (h : e.Awaits n) (he : SameControl e e') : e'.Awaits n :=
  h.of_same he.barrier (by rw [he.state])

/-- A move between two states of an engine that is not stopped. -/
theorem of_live (h : e.Awaits n) (hbarrier : e'.barrier = e.barrier) (hs : e.state ≠ .stopped)
    (hs' : e'.state ≠ .stopped) : e'.Awaits n :=
  h.of_same hbarrier (iff_of_false hs' hs)

theorem stop (h : e.Awaits n) : e.stop.2.Awaits n := by
  by_cases hs : e.state = .stopped
  · rw [stop_of_stopped hs]
    exact h.of_same rfl .rfl
  · rw [(stop_of_live hs).2]
    exact ⟨h.parties, iff_of_true rfl rfl⟩

theorem lasting : Lasting (Awaits (β := β) n) := by
  intro e c h
  cases c with
  | pause =>
    rcases effect_pause e with heq | ⟨hs, heq⟩ <;> rw [heq]
    · exact h
    · exact h.of_live rfl hs (by rintro ⟨⟩)
  | stop => exact h.stop
  | _ => exact h.of_control (.effect (by rfl) e)

/-! ## What a tick does -/

theorem enter {next : Lifecycle} (hn : next ≠ .stopped) (h : e.Awaits n) (he : e.enter next = .ok e') :
    e'.Awaits n := by
  obtain ⟨hs, rfl⟩ := enter_ok he
  exact h.of_live rfl hs hn

theorem start {drives : Bool} (h : e.Awaits n) (he : e.start = .ok (drives, e')) : e'.Awaits n := by
  obtain ⟨hs, -, state, hr, rfl⟩ := start_ok he
  refine h.of_live rfl hs ?_
  rintro rfl
  cases hr

theorem continues (h : e.Awaits n) : e.continues.2.Awaits n := by
  cases hc : e.continues with
  | mk goes e' =>
    cases goes with
    | true =>
      obtain ⟨-, hr, rfl⟩ := continues_true hc
      refine h.of_live rfl ?_ (by rintro ⟨⟩)
      intro hs
      rw [hs] at hr
      cases hr
    | false =>
      obtain ⟨-, rfl⟩ := continues_false hc
      exact h.of_same rfl .rfl

theorem park (h : e.Awaits n) (deadline : Nat) : (e.park deadline).Awaits n := by
  rcases park_cases deadline e with ⟨hr, heq⟩ | ⟨-, heq⟩ <;> rw [heq]
  · refine h.of_live rfl ?_ (by rintro ⟨⟩)
    intro hs
    rw [hs] at hr
    cases hr
  · exact h

theorem register (h : e.Awaits n) : e.register.Awaits (n + 1) := by
  have hparties := h.parties
  constructor
  · change e.barrier.registered + 1 = e.barrier.arrived + (n + 1)
    omega
  · exact h.terminated

theorem arrive (h : e.Awaits (n + 1)) : Awaits n { e with barrier := e.barrier.arrive } := by
  have hparties := h.parties
  constructor
  · change e.barrier.registered = e.barrier.arrived + 1 + n
    omega
  · exact h.terminated

theorem complete (h : e.Awaits n) (t : Task β) : (e.complete t).Awaits n := by
  rw [complete_eq]
  exact h.of_same rfl .rfl

theorem settleBoundary (h : e.Awaits n) (which : Boundary) (t : Task β) :
    (e.settleBoundary which t).Awaits n := h.of_control (.settleBoundary which t e)

/-- Whoever passes the barrier leaves it with the parties that there were. -/
theorem await (h : e.Awaits n) {passed : Bool} {b : TickBarrier} (hb : e.barrier.await? = some (passed, b)) :
    Awaits n { e with barrier := b } := by
  have hparties := h.parties
  cases passed with
  | false =>
    obtain ⟨-, rfl⟩ := TickBarrier.await?_false hb
    exact h
  | true =>
    have hcomplete := TickBarrier.complete_of_await? hb
    obtain ⟨-, rfl⟩ := TickBarrier.await?_true hb
    constructor
    · change 0 = 0 + n
      omega
    · exact h.terminated

theorem tickKeeps : TickKeeps (Awaits (β := β)) where
  entered h he := h.enter (by rintro ⟨⟩) he
  started h he := h.start he
  continued h := h.continues
  begun h := h.of_same rfl .rfl
  settled h which t := h.settleBoundary which t
  launched h _ := h.of_same rfl .rfl
  registered h := h.register
  completed h t := h.complete t
  arrived h := h.arrive
  passed h hb := h.await hb
  ended h := h.of_same rfl .rfl
  parked h deadline := h.park deadline

end Awaits

end Engine

namespace Simulation

variable {β μ : Type} {run : Run β μ} {n : Nat} {fails : Halt → Prop} {s s' : Simulation β μ}

/-! ## Ticks -/

/-- What a tick does before it comes to the barrier. The answer is its end. -/
def openTick (run : Run β μ) : Act β μ Nat := do
  let start ← ask (·.engine.now)
  let deadline ← ask fun s => Duration.after start s.engine.meter.interval
  changeEngine fun e => { e with meter := e.meter.beginTick start }
  runBoundary run .first
  let due ← onEngine (·.launch deadline)
  runDue run due
  return deadline

def closeTick (run : Run β μ) (deadline : Nat) : Act β μ Unit := do
  runBoundary run .last
  changeEngine fun e => { e with meter := e.meter.endTick }
  changeEngine (·.park deadline)

theorem runTick_eq (run : Run β μ) :
    runTick run = (do
      let deadline ← openTick run
      if ← passBarrier then closeTick run deadline) := by
  simp only [runTick, openTick, closeTick, bind_assoc, pure_bind]

namespace Carries

section

variable {P Q : Engine (Job β) → Prop}

theorem runTask (hrun : RunCarries P fails run) (t : Task (Job β)) :
    Carries P P fails (Simulation.runTask run t) :=
  .bind (.aside fun _ => ⟨_, rfl, rfl⟩) fun _ => .ite (.pure _) (.bind (hrun _ _) fun _ => .pure _)

theorem runBoundary (hrun : RunCarries P fails run)
    (hsettle : ∀ which t e, P e → P (e.settleBoundary which t)) (which : Boundary) :
    Carries P P fails (Simulation.runBoundary run which) := by
  refine .bind (.ask _) fun found => ?_
  cases found with
  | none => exact .pure _
  | some t => exact .bind (.runTask hrun t) fun _ => .changeEngine (hsettle which t)

/-- The body of a task is run while `Q` holds of the engine, and between the turns `P` does. -/
theorem runDue (hrun : RunCarries Q fails run) (hregister : ∀ e, P e → Q e.register)
    (hcomplete : ∀ t e, Q e → Q (e.complete t))
    (harrive : ∀ e, Q e → P { e with barrier := e.barrier.arrive }) (ts : List (Task (Job β))) :
    Carries P P fails (Simulation.runDue run ts) := by
  induction ts with
  | nil => exact .pure _
  | cons t rest ih =>
    refine .bind (.changeEngine hregister) fun _ => .bind (.runTask hrun t) fun _ => ?_
    refine .bind (.changeEngine (hcomplete t)) fun _ => ?_
    exact .bind (.changeEngine harrive) fun _ => ih

end

end Carries

end Simulation

/-! ## What ticks keep -/

namespace Engine.TickKeeps

open Simulation

variable {β μ : Type} {P : Nat → Engine (Job β) → Prop} {run : Run β μ} {n : Nat} {fails : Halt → Prop}
  (hP : TickKeeps P)

include hP

section

variable (hrun : ∀ n, RunCarries (P n) fails run)

include hrun

theorem openTick : Carries (P n) (P n) fails (Simulation.openTick run) := by
  intro s hs
  have hbegun : P n s.engine.beginTick := hP.begun hs
  unfold Simulation.openTick
  rw [bind_of_ok rfl, bind_of_ok rfl, bind_of_ok rfl]
  refine (Carries.runBoundary (hrun n) (fun which t _ h => hP.settled h which t) .first _ hbegun).bind ?_
  refine fun _ => .bind (.onEngine fun _ h => hP.launched h _) fun due => ?_
  -- In a turn one party more is awaited, so `hrun` is used for `n + 1`.
  exact .bind (.runDue (hrun (n + 1)) (fun _ h => hP.registered h) (fun t _ h => hP.completed h t)
    (fun _ h => hP.arrived h) due) fun _ => .pure _

theorem closeTick (deadline : Nat) : Carries (P n) (P n) fails (Simulation.closeTick run deadline) := by
  refine .bind (.runBoundary (hrun n) (fun which t _ h => hP.settled h which t) .last) fun _ => ?_
  exact .bind (.changeEngine fun _ h => hP.ended h) fun _ => .changeEngine fun _ h => hP.parked h deadline

variable (hheld : ∀ e, P n e → e.barrier.await? = none → fails .deadlock)

include hheld

omit hrun in
theorem passBarrier : Carries (P n) (P n) fails (Simulation.passBarrier : Act β μ Bool) := by
  intro s hs
  cases hb : s.engine.barrier.await? with
  | none =>
    rw [passBarrier_of_held hb]
    exact hheld s.engine hs hb
  | some p =>
    rw [passBarrier_of_await hb]
    exact hP.passed hs hb

theorem runTick : Carries (P n) (P n) fails (Simulation.runTick run) := by
  rw [runTick_eq]
  refine .bind (hP.openTick hrun) fun deadline => .bind (hP.passBarrier hheld) fun passed => ?_
  exact .ite (hP.closeTick hrun deadline) (.pure _)

theorem step : Carries (P n) (P n) fails (Simulation.step run) := by
  refine .bind (.ask _) fun running => .ite (.pure _) (.bind (.tryEngine fun e _ e' he h => ?_) ?_)
  · cases henter : e.enter .ticking with
    | error error =>
      rw [henter] at he
      cases he
    | ok e₁ =>
      rw [henter] at he
      cases he
      exact hP.entered h henter
  · intro entered
    cases entered with
    | error error => exact .pure _
    | ok _ => exact .bind (hP.runTick hrun hheld) fun _ => .pure _

theorem stepMany (k : Nat) : Carries (P n) (P n) fails (Simulation.stepMany run k) := by
  induction k with
  | zero => exact .pure _
  | succ k ih =>
    refine .bind (.ask _) fun state => .ite (.pure _) (.bind (hP.step hrun hheld) fun stepped => ?_)
    cases stepped with
    | error error => exact .pure _
    | ok _ => exact ih

variable (hdeep : fails .exhausted)

include hdeep

theorem stepWhileActive (id : TaskId) (bound : Nat) :
    Carries (P n) (P n) fails (Simulation.stepWhileActive run id bound) := by
  induction bound with
  | zero => exact .halt hdeep
  | succ bound ih =>
    exact .bind (.ask _) fun active => .ite (.bind (hP.step hrun hheld) fun _ => ih) (.pure _)

theorem loop (bound : Nat) : Carries (P n) (P n) fails (Simulation.loop run bound) := by
  induction bound with
  | zero => exact .halt hdeep
  | succ bound ih =>
    refine .bind (.onEngine fun _ h => hP.continued h) fun goes => ?_
    exact .ite (.bind (hP.runTick hrun hheld) fun _ => ih) (.pure _)

theorem tick (bound : Nat) : Carries (P n) (P n) fails (Simulation.tick run bound) := by
  refine .bind (.tryEngine fun e drives e' he h => hP.started h he) fun started => ?_
  cases started with
  | error error => exact .pure _
  | ok drives => exact .ite (.bind (hP.loop hrun hheld hdeep bound) fun _ => .pure _) (.pure _)

/-- A request that begins ticks. -/
theorem ticks (bound : Nat) {q : Request} (hq : q.IsTick) :
    Carries (P n) (P n) fails (Simulation.answer run bound q) := by
  cases q with
  | step => exact hP.step hrun hheld
  | stepMany k => exact hP.stepMany hrun hheld k
  | stepWhileActive id => exact hP.stepWhileActive hrun hheld hdeep id bound
  | tick => exact hP.tick hrun hheld hdeep bound
  | _ => exact hq.elim

end

end Engine.TickKeeps

namespace Simulation.Carries

variable {β μ : Type} {run : Run β μ} {n : Nat} {fails : Halt → Prop}
  (hrun : ∀ n, RunCarries (Engine.Awaits n) fails run)

include hrun

theorem openTick : Carries (Engine.Awaits n) (Engine.Awaits n) fails (Simulation.openTick run) :=
  Engine.Awaits.tickKeeps.openTick hrun

variable (hheld : n ≠ 0 → fails .deadlock)

include hheld

theorem step : Carries (Engine.Awaits n) (Engine.Awaits n) fails (Simulation.step run) :=
  Engine.Awaits.tickKeeps.step hrun fun _ he hb => hheld (he.await?_eq_none.mp hb).1

/-- A request of any kind, made where the ticks that it begins would not be held up. -/
theorem request (hdeep : fails .exhausted) (bound : Nat) (q : Request) :
    Carries (Engine.Awaits n) (Engine.Awaits n) fails (Simulation.answer run bound q) := by
  by_cases hq : q.IsTick
  · exact Engine.Awaits.tickKeeps.ticks hrun (fun _ he hb => hheld (he.await?_eq_none.mp hb).1) hdeep bound hq
  · intro s hs
    exact answer_keeps (hrun n) Engine.Awaits.lasting.enduring hdeep bound hq hs fun c _ =>
      Engine.Awaits.lasting s.engine c hs

end Simulation.Carries

end Vivarium
