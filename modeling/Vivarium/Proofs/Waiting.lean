import Vivarium.Proofs.Evolution
import Vivarium.Proofs.Parties

/-! # Whether the engine waits for itself

There is one thread, so a tick that is held up at its barrier never ends. Only a tick that was begun in the
turn of a task can be: the barrier waits for the task, and the task for the tick.
-/

namespace Vivarium

/-- A step runs a tick of the engine as it is. An engine that is asked to run is left to its loop, and a
stopped one ticks no more. -/
def Engine.steps {β : Type} (e : Engine β) : Bool := !e.running && decide (e.state ≠ .stopped)

/-- The request begins a tick of the engine as it is. -/
def Request.begins {β : Type} (e : Engine β) : Request → Bool
  | .step => e.steps
  | .stepMany n => n != 0 && e.steps
  | .stepWhileActive id => e.isActive id && e.steps
  | .tick => !e.loopAlive && decide (e.state ≠ .stopped)
  | _ => false

/-- It is not that the request begins a tick in the turn of a task. -/
def Request.isApart {β : Type} (q : Request) (e : Engine β) : Bool :=
  !q.begins e || e.barrier.pending == 0

namespace Simulation

variable {μ : Type}

/-- Runs a program up to a tick that it, or code that it runs, would begin in the turn of a task. -/
def executeApart (bound : Nat) {r : Role} (p : Program μ r) : Act (Code μ) μ r.Answer :=
  executeWhere Request.isApart bound p

end Simulation

/-! ## Requests that begin no tick -/

namespace Simulation

variable {β μ : Type} {run : Run β μ} {bound n : Nat} {fails : Halt → Prop} {q : Request}
  {s s' : Simulation β μ}

theorem step_of_running (h : s.engine.running = true) : step run s = .ok (.ok (), s) := by
  unfold step
  change (if s.engine.running = true then _ else _ : Act β μ (Except EngineError Unit)) s = _
  rw [if_pos h]
  rfl

theorem step_begins_none (run : Run β μ) (h : s.engine.steps = false) : ∃ a, step run s = .ok (a, s) := by
  cases hr : s.engine.running with
  | true => exact ⟨_, step_of_running hr⟩
  | false =>
    rw [Engine.steps, hr, Bool.not_false, Bool.true_and, decide_eq_false_iff_not, not_not] at h
    exact ⟨_, step_of_stopped hr h⟩

theorem stepMany_begins_none (run : Run β μ) (h : s.engine.steps = false) (n : Nat) :
    ∃ a, stepMany run n s = .ok (a, s) := by
  induction n with
  | zero => exact ⟨_, rfl⟩
  | succ n ih =>
    by_cases hs : s.engine.state = .stopped
    · exact ⟨_, stepMany_of_stopped hs n⟩
    · have hr : s.engine.running = true := by simpa [Engine.steps, hs] using h
      obtain ⟨a, hmany⟩ := ih
      refine ⟨a, ?_⟩
      rw [stepMany]
      refine (bind_of_ok rfl).trans ?_
      rw [if_neg hs]
      exact (bind_of_ok (step_of_running hr)).trans hmany

theorem stepWhileActive_of_inactive {id : TaskId} (h : s.engine.isActive id = false) :
    stepWhileActive run id (bound + 1) s = .ok ((), s) := by
  rw [stepWhileActive]
  refine (bind_of_ok rfl).trans ?_
  simp only [h, Bool.false_eq_true, if_false]
  rfl

/-- Ticks that are asked for where none is begun: the task stays active for good. -/
theorem stepWhileActive_begins_none (h : s.engine.steps = false) {id : TaskId}
    (hactive : s.engine.isActive id = true) (bound : Nat) :
    stepWhileActive run id bound s = .error .exhausted := by
  induction bound with
  | zero => rfl
  | succ bound ih =>
    obtain ⟨a, hstep⟩ := step_begins_none run h
    rw [stepWhileActive]
    refine (bind_of_ok rfl).trans ?_
    simp only [hactive, if_true]
    exact (bind_of_ok hstep).trans ih

theorem tick_of_alive {e : Engine (Job β)} (h : s.engine.start = .ok (false, e)) (bound : Nat) :
    tick run bound s = .ok (.ok (), { s with engine := e }) := by
  unfold tick
  exact bind_of_ok (tryEngine_ok (μ := μ) (f := (·.start)) h)

/-- A request for a tick that is not begun does no more than ask the loop to run. -/
theorem answer_begins_none {P : Engine (Job β) → Prop} (hq : q.IsTick) (hbegins : q.begins s.engine = false)
    (hs : P s.engine) (hstart : ∀ e, s.engine.start = .ok (false, e) → P e) (hdeep : fails .exhausted) :
    Lands P fails (answer run bound q s) := by
  cases q with
  | step =>
    obtain ⟨a, hstep⟩ := step_begins_none run hbegins
    rw [answer, hstep]
    exact hs
  | stepMany k =>
    cases k with
    | zero => exact hs
    | succ k =>
      obtain ⟨a, hmany⟩ := stepMany_begins_none run hbegins (k + 1)
      rw [answer, hmany]
      exact hs
  | stepWhileActive id =>
    cases hactive : s.engine.isActive id with
    | true =>
      rw [Request.begins, hactive, Bool.true_and] at hbegins
      rw [answer, stepWhileActive_begins_none hbegins hactive]
      exact hdeep
    | false =>
      cases bound with
      | zero => exact hdeep
      | succ bound =>
        rw [answer, stepWhileActive_of_inactive hactive]
        exact hs
  | tick =>
    by_cases hstopped : s.engine.state = .stopped
    · rw [answer, tick_of_stopped hstopped]
      exact hs
    · have halive : s.engine.loopAlive = true := by simpa [Request.begins, hstopped] using hbegins
      have hasked := Engine.start_of_live hstopped
      rw [halive] at hasked
      rw [answer, tick_of_alive hasked]
      exact hstart _ hasked
  | _ => exact hq.elim

/-- A request leaves the barrier with the parties that it finds there, unless it begins a tick that is held
up by them. -/
theorem answer_lands (hrun : ∀ n, RunCarries (Engine.Awaits n) fails run) (hdeep : fails .exhausted)
    (hs : s.engine.Awaits n) (hheld : q.begins s.engine = true → n ≠ 0 → fails .deadlock) :
    Lands (Engine.Awaits n) fails (answer run bound q s) := by
  by_cases hq : q.IsTick
  · cases hbegins : q.begins s.engine with
    | true => exact Carries.request hrun (hheld hbegins) hdeep bound q s hs
    | false => exact answer_begins_none hq hbegins hs (fun _ => hs.start) hdeep
  · exact answer_keeps (hrun n) Engine.Awaits.lasting.enduring hdeep bound hq hs fun c _ =>
      Engine.Awaits.lasting s.engine c hs

/-! ## Programs -/

variable {may : Request → Engine (Job (Code μ)) → Bool}

/-- What every request keeps that may be made, a program keeps that makes no others. -/
theorem execWhere_keeps {P : Engine (Job (Code μ)) → Prop} (hP : Engine.Enduring P)
    (hdeep : fails .exhausted) {run : Run (Code μ) μ} {bound : Nat}
    (hanswer : ∀ q s, may q s.engine = true → P s.engine → Lands P fails (answer run bound q s))
    {r : Role} (p : Program μ r) : Carries P P fails (p.execWhere may run bound) := by
  induction p with
  | done answer => exact .pure answer
  | request q next ih =>
    intro s hs
    rw [Program.execWhere]
    cases hq : may q s.engine with
    | false =>
      rw [bind_of_ok (a := false) (by rw [← hq]; rfl)]
      exact hdeep
    | true =>
      rw [bind_of_ok (a := true) (by rw [← hq]; rfl)]
      exact (hanswer q s hq hs).bind ih
  | memory change next ih => exact .bind (.aside fun _ => ⟨_, rfl, rfl⟩) ih
  | schedule owner actor code delay period next _ ih =>
    exact .bind (.schedule hP owner _ delay period) ih
  | setBoundary which code next _ ih =>
    exact .bind (.changeEngine fun e => hP e (.setBoundary which (some ⟨code, .nobody⟩)) rfl) fun _ => ih
  | subscribe container listener code next _ ih => exact .bind (.onForest _) ih
  | subscribeTo holder key listener code next _ ih => exact .bind (.onAttributes holder _) ih

section

variable (hdeep : fails .exhausted)
  (hmay : ∀ q n e, may q e = true → e.Awaits n → q.begins e = true → n ≠ 0 → fails .deadlock)

include hdeep hmay

theorem execWhere_carries {run : Run (Code μ) μ} (hrun : ∀ n, RunCarries (Engine.Awaits n) fails run)
    (bound : Nat) {r : Role} (p : Program μ r) :
    Carries (Engine.Awaits n) (Engine.Awaits n) fails (p.execWhere may run bound) :=
  execWhere_keeps Engine.Awaits.lasting.enduring hdeep
    (fun q s hq hs => answer_lands hrun hdeep hs (hmay q n s.engine hq hs)) p

theorem runWhere_carries (bound n : Nat) :
    RunCarries (Engine.Awaits n) fails (runWhere (μ := μ) may bound) := by
  -- Code that runs within code runs less deep, and may do so in a turn, where `n` is greater.
  induction bound generalizing n with
  | zero => exact fun _ _ => .halt hdeep
  | succ bound ih => exact fun o code => execWhere_carries hdeep hmay ih bound (code o)

theorem executeWhere_carries (bound : Nat) {r : Role} (p : Program μ r) :
    Carries (Engine.Awaits n) (Engine.Awaits n) fails (executeWhere may bound p) :=
  execWhere_carries hdeep hmay (runWhere_carries hdeep hmay bound) bound p

end

theorem runCode_carries (bound n : Nat) :
    RunCarries (Engine.Awaits n) (fun _ => True) (runCode (μ := μ) bound) := by
  rw [← runWhere_all]
  exact runWhere_carries trivial (fun _ _ _ _ _ _ _ => trivial) bound n

theorem execute_carries (bound n : Nat) {r : Role} (p : Program μ r) :
    Carries (Engine.Awaits n) (Engine.Awaits n) (fun _ => True) (execute bound p) := by
  rw [← executeWhere_all]
  exact executeWhere_carries trivial (fun _ _ _ _ _ _ _ => trivial) bound p

/-- No tick that is begun outside the turns of tasks is held up. -/
theorem executeApart_carries (bound n : Nat) {r : Role} (p : Program μ r) :
    Carries (Engine.Awaits n) (Engine.Awaits n) (· = .exhausted) (executeApart bound p) := by
  refine executeWhere_carries (by rfl) (fun q n e hapart he hbegins hn => ?_) bound p
  rw [Request.isApart, hbegins, he.pending, Bool.not_true, Bool.false_or, beq_iff_eq] at hapart
  exact absurd hapart hn

theorem Lived.awaits {s : Simulation (Code μ) μ} (h : s.Lived) : s.engine.Awaits 0 := by
  induction h with
  | new h =>
    obtain ⟨config, e, limit, he, rfl, -⟩ := h
    exact .create he
  | declare _ _ ih => exact ih
  | run _ hact ih => exact (execute_carries _ 0 _).of_ok ih hact

end Simulation

open Simulation

/-- The barrier of a tick waits for the parties that there were when the tick was begun, in whose turns it
was, and for nobody else. So a tick is held up if and only if it was begun in a turn and the engine is not
stopped before it comes to the barrier; a program that begins no tick in a turn, and runs no code that does,
is never held up; and a step outside of turns returns if the code that it runs does. -/
theorem tick_is_held_up_only_in_a_turn {μ : Type} {s : Simulation (Code μ) μ} (h : s.Lived) (bound : Nat) :
    (∀ {r : Role} (p : Program μ r), executeApart bound p s ≠ .error .deadlock ∧
      ∀ a s', executeApart bound p s = .ok (a, s') → execute bound p s = .ok (a, s')) ∧
    (∀ run : Run (Code μ) μ, (∀ n, RunCarries (Engine.Awaits n) (fun _ => False) run) →
      ∃ a s', step run s = .ok (a, s')) ∧
    ∀ n, ∀ t : Simulation (Code μ) μ, t.engine.Awaits n → ∀ deadline t',
      openTick (runCode bound) t = .ok (deadline, t') → t'.engine.Awaits n ∧
        (t'.engine.barrier.await? = none ↔ n ≠ 0 ∧ t'.engine.state ≠ .stopped) := by
  refine ⟨fun p => ⟨fun hact => ?_, fun a s' hact => ?_⟩, fun run hrun => ?_, ?_⟩
  · cases (executeApart_carries bound 0 p).of_error h.awaits hact
  · have hfollows : Follows (fun _ => True) (executeApart bound p) (execute bound p) :=
      executeWhere_follows trivial trivial (fun _ _ _ => trivial) bound p
    exact (hfollows s a s' hact).1
  · have hstep := Carries.step (n := 0) hrun (fun hn => absurd rfl hn) s h.awaits
    cases hact : step run s with
    | error why =>
      rw [hact] at hstep
      exact hstep.elim
    | ok p => exact ⟨p.1, p.2, rfl⟩
  · intro n t ht deadline t' hact
    have hawaits := (Carries.openTick (runCode_carries bound)).of_ok ht hact
    exact ⟨hawaits, hawaits.await?_eq_none⟩

/-- The last action of the only tick that is asked for steps once more. -/
def encore : Program Unit .listener :=
  .setBoundary .last (Code.ofTask fun _ =>
    .request (.clearBoundary .last) fun _ => .request .step fun _ => .done .completed) <|
  .request .step fun _ => .done ()

/-- Two ticks, one inside the other, outside of turns; a step with idle code; and a tick that is begun in a
turn. -/
theorem encore_is_not_held_up : ∃ s' : Simulation (Code Unit) Unit,
    execute 3 encore (blank false) = .ok ((), s') ∧ s'.engine.meter.count = 2 ∧
      (∃ a s', step (fun o (_ : Code Unit) => pure o.role.idle) (blank false) = .ok (a, s')) ∧
      ∃ (t t' : Simulation (Code Unit) Unit) (deadline : Nat), t.engine.Awaits 1 ∧
        openTick (runCode 3) t = .ok (deadline, t') ∧ t'.engine.barrier.await? = none := by
  have hlived : (blank false).Lived := .new (blank_new false) rfl
  obtain ⟨happly, hreturns, hheld⟩ := tick_is_held_up_only_in_a_turn hlived 3
  obtain ⟨_, s', hact, hcount⟩ := endsWith_iff.mp (show endsWith (executeApart 3 encore) (blank false)
    (fun _ s => s.engine.meter.count == 2) = true by decide +kernel)
  obtain ⟨deadline, t', hopen, hlive⟩ := endsWith_iff.mp (show endsWith (openTick (runCode 3))
    { blank false with engine := (blank false).engine.register }
    (fun _ t => t.engine.state != .stopped) = true by decide +kernel)
  have hturn : (blank false).engine.register.Awaits 1 := hlived.awaits.register
  have hwaits := (hheld 1 _ hturn deadline t' hopen).2.mpr ⟨by decide, by simpa using hlive⟩
  exact ⟨s', (happly encore).2 _ s' hact, by simpa using hcount, hreturns _ fun n o code => .pure _,
    _, t', deadline, hturn, hopen, hwaits⟩

/-- A task that pauses the loop in which it has its turn, and then steps. -/
def relapse : Program Unit .listener :=
  .schedule .nobody .nobody (Code.ofTask fun _ =>
    .request .pause fun _ => .request .step fun _ => .done .completed) 0 0 fun _ =>
  .request .tick fun _ => .done ()

theorem relapse_is_held_up :
    (blank false).Lived ∧ execute 3 relapse (blank false) = .error .deadlock := by
  refine ⟨.new (blank_new false) rfl, ?_⟩
  have hact : (execute 3 relapse (blank false)).map (fun _ => ()) = .error .deadlock := by decide +kernel
  cases hexec : execute 3 relapse (blank false) with
  | error why =>
    rw [hexec] at hact
    cases hact
    rfl
  | ok p =>
    rw [hexec] at hact
    cases hact

end Vivarium
