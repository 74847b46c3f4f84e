import Vivarium.Proofs.Announcing
import Vivarium.Proofs.Idling

/-! # Two ways to drive an engine

The loop of `tick` and single steps enter their ticks in different ways. Code that begins no tick cannot
tell one from the other, so the loop does what steps do that are taken until the engine is paused or stopped.
A step enters its tick in the same way whether the engine is paused or not, so a pause before it goes
unnoticed.
-/

namespace Vivarium

/-- The request begins no tick. -/
def Request.isQuiet : Request → Bool
  | .step | .stepMany _ | .stepWhileActive _ | .tick => false
  | _ => true

theorem Request.not_isTick {q : Request} (h : q.isQuiet = true) : ¬q.IsTick := by
  intro hq
  cases q with
  | step | stepMany | stepWhileActive | tick => cases h
  | _ => exact hq

namespace EngineCall

variable {β : Type}

theorem effect_pause_eq (e : Engine β) : EngineCall.effect e .pause =
    if e.state = .paused ∨ e.state = .stopped then e else { e with state := .paused, running := false } := by
  rw [effect, Engine.pause, Engine.enter]
  cases hs : e.state <;> simp [bind, Except.bind, Lifecycle.canBecome]

/-- Calls do the same to an engine that is driven by no loop, but for what they leave of the signs of one. -/
theorem effect_undriven (c : EngineCall β) (e : Engine β) :
    c.effect (e.driven false false) = (c.effect e).driven false false := by
  cases c with
  | schedule work delay period =>
    rw [effect, effect, Engine.schedule_driven]
    cases e.schedule work delay period <;> rfl
  | cancel id => rw [effect, effect, Engine.cancel_driven]
  | flag | setClock => rfl
  | pause =>
    rw [effect_pause_eq, effect_pause_eq]
    by_cases hs : e.state = .paused ∨ e.state = .stopped
    · rw [if_pos hs]
      exact if_pos hs
    · rw [if_neg hs]
      exact if_neg hs
  | stop =>
    rw [effect, effect]
    by_cases hs : e.state = .stopped
    · have hs' : (e.driven false false).state = .stopped := hs
      rw [Engine.stop_of_stopped hs, Engine.stop_of_stopped hs']
      rfl
    · have hs' : (e.driven false false).state ≠ .stopped := hs
      rw [(Engine.stop_of_live hs).2, (Engine.stop_of_live hs').2]
      rfl
  | setBoundary which work => cases which <;> cases work <;> rfl

end EngineCall

namespace Engine

variable {β : Type} {e e' : Engine β}

/-- The loop drives the engine: it is there, and asked to run for as long as the engine ticks or waits. -/
structure Rolling (e : Engine β) : Prop where
  loopAlive : e.loopAlive = true
  running : e.running = e.state.isRunning
  begun : e.state ≠ .created

/-- The engine is paused or stopped. -/
def rests (e : Engine β) : Bool := e.state == .paused || e.state == .stopped

theorem rests_of_running (h : e.state.isRunning = true) : e.rests = false := by
  unfold rests
  cases hs : e.state <;> rw [hs] at h <;> first | rfl | cases h

/-- The engine as it is, in another state of its lifecycle. -/
def inState (state : Lifecycle) (e : Engine β) : Engine β := { e with state }

namespace Rolling

theorem of_same (h : e.Rolling) (hsame : SameControl e e') : e'.Rolling :=
  ⟨hsame.loopAlive.trans h.loopAlive, by rw [hsame.running, hsame.state, h.running],
    hsame.state.symm ▸ h.begun⟩

theorem effect (h : e.Rolling) (c : EngineCall β) : (c.effect e).Rolling := by
  cases c with
  | pause =>
    rcases effect_pause e with heq | ⟨-, heq⟩ <;> rw [heq]
    · exact h
    · exact ⟨h.loopAlive, rfl, by rintro ⟨⟩⟩
  | stop =>
    rw [EngineCall.effect]
    by_cases hs : e.state = .stopped
    · rw [stop_of_stopped hs]
      refine ⟨h.loopAlive, ?_, h.begun⟩
      rw [hs]
      rfl
    · rw [(stop_of_live hs).2]
      exact ⟨h.loopAlive, rfl, by rintro ⟨⟩⟩
  | _ => exact h.of_same (SameControl.effect (by rfl) e)

theorem move (h : e.Rolling) (m : TickMove β) : (m.effect e).Rolling := by
  obtain ⟨hr, hloop, hstate⟩ := m.effect_control e
  rcases hstate with heq | ⟨hs, heq⟩
  · exact ⟨hloop.trans h.loopAlive, by rw [hr, heq, h.running], heq.symm ▸ h.begun⟩
  · refine ⟨hloop.trans h.loopAlive, ?_, by rw [heq]; rintro ⟨⟩⟩
    rw [hr, h.running, hs, heq]
    rfl

theorem rouse (h : e.Rolling) (hs : e.state.isRunning = true) : Rolling { e with state := .ticking } :=
  ⟨h.loopAlive, h.running.trans hs, by rintro ⟨⟩⟩

theorem isRunning_eq (h : e.Rolling) : e.state.isRunning = !e.rests := by
  have hbegun := h.begun
  unfold rests
  cases hs : e.state with
  | created => exact absurd hs hbegun
  | _ => decide

theorem goes (h : e.Rolling) (hrests : e.rests = false) :
    e.continues = (true, { e with state := .ticking }) := by
  have hstate : e.state.isRunning = true := by rw [h.isRunning_eq, hrests, Bool.not_false]
  exact if_pos ⟨h.running.trans hstate, hstate⟩

theorem ends (h : e.Rolling) (hrests : e.rests = true) : e.continues = (false, e.driven false false) := by
  have hstate : e.state.isRunning = false := by rw [h.isRunning_eq, hrests, Bool.not_true]
  have hr : e.running = false := h.running.trans hstate
  unfold continues
  rw [hr, if_neg (fun hgoes => Bool.false_ne_true hgoes.1), driven]

end Rolling

end Engine

namespace Simulation

variable {β μ α : Type} {fails : Halt → Prop} {run run' : Run β μ} {s s' t : Simulation β μ} {bound n : Nat}

/-! ## In the loop and out of it -/

/-- The loop drives the engine of the first, and none that of the second. They are the same but for that. -/
def Abreast (s t : Simulation β μ) : Prop := s.engine.Rolling ∧ t = s.driven false false

theorem parallel_abreast : Parallel (Abreast : Simulation β μ → Simulation β μ → Prop) := by
  refine ⟨fun hst => ⟨false, false, hst.2⟩, ?_, ?_⟩
  · intro s t hst forest standalone types memory
    obtain ⟨hrolling, rfl⟩ := hst
    exact ⟨hrolling, rfl⟩
  · intro s t hst c
    obtain ⟨hrolling, rfl⟩ := hst
    refine ⟨hrolling.effect c, ?_⟩
    exact congrArg (fun engine => { s with engine }) (c.effect_undriven s.engine)

theorem aligned_abreast : Aligned (Abreast : Simulation β μ → Simulation β μ → Prop) fails := by
  refine parallel_abreast.aligned fun hst _ _ => ?_
  obtain ⟨hrolling, rfl⟩ := hst
  exact ⟨hrolling, rfl⟩

theorem ticking_abreast : Ticking (Abreast : Simulation β μ → Simulation β μ → Prop) := by
  intro s t hst m
  obtain ⟨hrolling, rfl⟩ := hst
  refine ⟨hrolling.move m, ?_⟩
  exact congrArg (fun engine => { s with engine }) (m.effect_driven s.engine)

def inState (state : Lifecycle) (s : Simulation β μ) : Simulation β μ :=
  { s with engine := s.engine.inState state }

/-- Code that begins no tick cannot tell one from the other. -/
theorem quiet_abreast {μ : Type} (n : Nat) :
    RunAgrees Abreast (fun _ => True) (runWithin (μ := μ) Request.isQuiet n) := by
  refine runWithin_agrees (fun _ : Unit => aligned_abreast) trivial (fun run bound hrun k q hq => ?_) n ()
  exact aligned_abreast.answer (hrun k) trivial bound (Request.not_isTick hq)

/-- Steps at least once, and then until the engine is paused or stopped, at most as often as `bound` says. -/
def stepToRest (run : Run β μ) : (bound : Nat) → Act β μ (Except EngineError Unit)
  | 0 => halt .exhausted
  | bound + 1 => do
    match ← step run with
    | .error e => return .error e
    | .ok () => if ← ask (·.engine.rests) then return .ok () else stepToRest run bound

/-- As `stepToRest`, where one step has been taken already. -/
def goOn (run : Run β μ) (bound : Nat) : Act β μ (Except EngineError Unit) := do
  if ← ask (·.engine.rests) then return .ok () else stepToRest run bound

theorem stepToRest_of_live (hr : s.engine.running = false) (hs : s.engine.state ≠ .stopped) :
    stepToRest run (bound + 1) s = (runTick run >>= fun _ => goOn run bound)
      { s with engine := { s.engine with state := .ticking } } := by
  rw [stepToRest]
  cases htick : runTick run { s with engine := { s.engine with state := .ticking } } with
  | error why =>
    rw [bind_of_error htick]
    exact bind_of_error ((step_of_live hr hs).trans (bind_of_error htick))
  | ok p =>
    rw [bind_of_ok htick]
    exact bind_of_ok ((step_of_live hr hs).trans (bind_of_ok htick))

theorem goOn_of_rest (h : s.engine.rests = true) : goOn run bound s = .ok (.ok (), s) := by
  refine (bind_of_ok (a := true) (congrArg (fun b => Except.ok (b, s)) h)).trans ?_
  rfl

theorem goOn_of_running (h : s.engine.rests = false) : goOn run bound s = stepToRest run bound s :=
  bind_of_ok (a := false) (congrArg (fun b => Except.ok (b, s)) h)

theorem rest_iff (hrolling : s.engine.Rolling) (hrests : s.engine.rests = true) :
    loop run (bound + 1) s = .ok ((), s') ↔ goOn run bound (s.driven false false) = .ok (.ok (), s') := by
  have hrests' : (s.driven false false).engine.rests = true := hrests
  rw [loop_of_rest (hrolling.ends hrests), goOn_of_rest hrests']
  constructor
  · rintro ⟨⟩
    rfl
  · rintro ⟨⟩
    rfl

/-- A tick of the loop and a tick of a step lead on alike. -/
theorem tick_iff (hrun : RunAgrees Abreast (fun _ => True) run)
    (hon : ∀ {s t}, Abreast s t →
      (loop run (bound + 1) s = .ok ((), s') ↔ goOn run bound t = .ok (.ok (), s')))
    (hst : Abreast s t) :
    (runTick run >>= fun _ => loop run (bound + 1)) s = .ok ((), s') ↔
      (runTick run >>= fun _ => goOn run bound) t = .ok (.ok (), s') := by
  have hboth := parallel_abreast.runTick ticking_abreast hrun trivial s t hst
  cases hs : runTick run s with
  | error why =>
    cases ht : runTick run t with
    | error why' =>
      rw [bind_of_error hs, bind_of_error ht]
      exact iff_of_false (by rintro ⟨⟩) (by rintro ⟨⟩)
    | ok q =>
      rw [hs, ht] at hboth
      exact hboth.elim
  | ok p =>
    cases ht : runTick run t with
    | error why =>
      rw [hs, ht] at hboth
      exact hboth.elim
    | ok q =>
      rw [hs, ht] at hboth
      rw [bind_of_ok hs, bind_of_ok ht]
      exact hon hboth.2

/-- Where the loop comes to its end, and where steps do, the loop does. -/
theorem loop_iff_goOn (hrun : RunAgrees Abreast (fun _ => True) run) (hst : Abreast s t) :
    loop run (bound + 1) s = .ok ((), s') ↔ goOn run bound t = .ok (.ok (), s') := by
  induction bound generalizing s t with
  | zero =>
    obtain ⟨hrolling, rfl⟩ := hst
    cases hrests : s.engine.rests with
    | true => exact rest_iff hrolling hrests
    | false =>
      have hrests' : (s.driven false false).engine.rests = false := hrests
      rw [loop_of_continues (hrolling.goes hrests), goOn_of_running hrests']
      refine iff_of_false (fun hloop => ?_) (by rintro ⟨⟩)
      obtain ⟨_, _, -, hloop⟩ := bind_ok hloop
      cases hloop
  | succ bound ih =>
    obtain ⟨hrolling, rfl⟩ := hst
    cases hrests : s.engine.rests with
    | true => exact rest_iff hrolling hrests
    | false =>
      have hrests' : (s.driven false false).engine.rests = false := hrests
      have hlive : (s.driven false false).engine.state ≠ .stopped := by
        intro hs
        rw [Engine.rests, hs] at hrests'
        cases hrests'
      rw [loop_of_continues (hrolling.goes hrests), goOn_of_running hrests', stepToRest_of_live rfl hlive]
      exact tick_iff hrun ih ⟨hrolling.rouse (by rw [hrolling.isRunning_eq, hrests, Bool.not_false]), rfl⟩

/-- From where no loop drives the engine, the loop does what steps do. -/
theorem tick_iff_stepToRest (hrun : RunAgrees Abreast (fun _ => True) run) (hidle : s.engine.Looped false)
    (hs : s.engine.state ≠ .stopped) :
    tick run (bound + 1) s = .ok (.ok (), s') ↔ stepToRest run bound s = .ok (.ok (), s') := by
  have hstart := Engine.start_of_live hs
  obtain ⟨-, -, state, hstate, heq⟩ := Engine.start_ok hstart
  rw [heq, hidle.loopAlive] at hstart
  have hbegun : state ≠ .stopped := by
    rintro rfl
    cases hstate
  have habreast : Abreast ((s.inState state).driven true true) (s.inState state) := by
    refine ⟨⟨rfl, hstate.symm, by rintro rfl; cases hstate⟩, ?_⟩
    obtain ⟨⟨_⟩⟩ := s
    cases hidle.loopAlive
    cases hidle.idle
    rfl
  have hsteps : goOn run bound (s.inState state) = stepToRest run bound s := by
    rw [goOn_of_running (Engine.rests_of_running hstate)]
    cases bound with
    | zero => rfl
    | succ bound =>
      rw [stepToRest_of_live hidle.idle hs]
      exact stepToRest_of_live hidle.idle hbegun
  rw [tick_of_driven hstart, ← hsteps, ← loop_iff_goOn hrun habreast]
  constructor
  · intro htick
    obtain ⟨_, s₁, hloop, hpure⟩ := bind_ok htick
    cases hpure
    exact hloop
  · exact fun hloop => bind_of_ok hloop

theorem tick_ok {a : Except EngineError Unit} (hs : s.engine.state ≠ .stopped)
    (htick : tick run bound s = .ok (a, s')) : a = .ok () := by
  have hstart := Engine.start_of_live hs
  cases halive : s.engine.loopAlive with
  | true =>
    rw [halive] at hstart
    rw [tick_of_alive hstart bound] at htick
    cases htick
    rfl
  | false =>
    rw [halive] at hstart
    rw [tick_of_driven hstart] at htick
    obtain ⟨_, _, -, hpure⟩ := bind_ok htick
    cases hpure
    rfl

theorem stepToRest_rests (hsteps : stepToRest run bound s = .ok (.ok (), s')) : s'.engine.rests = true := by
  induction bound generalizing s with
  | zero => cases hsteps
  | succ bound ih =>
    obtain ⟨stepped, s₁, -, hsteps⟩ := bind_ok hsteps
    cases stepped with
    | error error => cases hsteps
    | ok _ =>
      cases hrests : s₁.engine.rests with
      | true =>
        have hgo := (goOn_of_rest hrests).symm.trans hsteps
        cases hgo
        exact hrests
      | false => exact ih ((goOn_of_running hrests).symm.trans hsteps)

theorem Follows.stepToRest {ok : Deed → Prop} (hother : ok .other) (hrun : RunFollows ok run run')
    (bound : Nat) : Follows ok (Simulation.stepToRest run bound) (Simulation.stepToRest run' bound) := by
  induction bound with
  | zero => exact .halt _ _
  | succ bound ih =>
    refine .bind (.step hother hrun) fun stepped => ?_
    cases stepped with
    | error error => exact .pure _
    | ok _ => exact .bind (.ask _) fun rests => .ite (fun _ => .pure _) fun _ => ih

/-! ## Who watches -/

/-- Code that is noted in the memory, with what it is run for, before it is run. -/
def watched (watch : Occasion → β → μ → μ) (run : Run β μ) : Run β μ := fun o code => do
  let _ ← modifyGet fun s => (s.memory, { s with memory := watch o code s.memory })
  run o code

theorem watched_agrees {R : Simulation β μ → Simulation β μ → Prop} (hR : Parallel R)
    (watch : Occasion → β → μ → μ) (hrun : RunAgrees R fails run) : RunAgrees R fails (watched watch run) :=
  fun o code => .bind (hR.onMemory (watch o code)) fun _ => hrun o code

theorem watched_follows {ok : Deed → Prop} (watch : Occasion → β → μ → μ) (hrun : RunFollows ok run run') :
    RunFollows ok (watched watch run) (watched watch run') := by
  refine fun o code => .bind (.aside fun s a s' hact => ?_) fun _ => hrun o code
  cases hact
  exact ⟨rfl, rfl⟩

end Simulation

/-! ## Pauses between steps -/

/-- What is done with an engine from outside. -/
inductive Errand (β : Type)
  | step
  | call (c : EngineCall (Job β))

def Errand.isPause {β : Type} : Errand β → Bool
  | .call .pause => true
  | _ => false

/-- Calls but for a pause do the same from whatever state of the lifecycle, unless just one is stopped. -/
theorem EngineCall.effect_inState {β : Type} {c : EngineCall β} {e : Engine β} {state : Lifecycle}
    (hc : c ≠ .pause) (hstate : state = .stopped ↔ e.state = .stopped) :
    ∃ state' : Lifecycle, c.effect (e.inState state) = (c.effect e).inState state' ∧
      (state' = .stopped ↔ (c.effect e).state = .stopped) := by
  by_cases hs : e.state = .stopped
  · refine ⟨(c.effect e).state, ?_, Iff.rfl⟩
    rw [hstate.mpr hs, ← hs]
    rfl
  have hs' : (e.inState state).state ≠ .stopped := fun h => hs (hstate.mp h)
  cases c with
  | schedule work delay period =>
    refine ⟨state, ?_, ?_⟩
    · rw [effect, effect, Engine.schedule_ok hs, Engine.schedule_ok hs']
      rfl
    · rw [effect, Engine.schedule_ok hs]
      exact hstate
  | cancel id =>
    refine ⟨state, ?_, ?_⟩
    · exact congrArg Prod.snd (Engine.cancel_beside id e rfl rfl rfl (fun _ => rfl) fun _ => rfl)
    · rw [(Engine.SameControl.effect (by rfl) e).state]
      exact hstate
  | flag id => exact ⟨state, rfl, hstate⟩
  | setClock clock => exact ⟨state, rfl, hstate⟩
  | pause => exact absurd rfl hc
  | stop =>
    refine ⟨.stopped, ?_, ?_⟩
    · rw [effect, effect, (Engine.stop_of_live hs).2, (Engine.stop_of_live hs').2]
      rfl
    · rw [effect, (Engine.stop_of_live hs).2]
  | setBoundary which work =>
    refine ⟨state, ?_, ?_⟩
    · cases which <;> cases work <;> rfl
    · rw [(Engine.SameControl.effect (by rfl) e).state]
      exact hstate

namespace Simulation

variable {β μ α γ : Type} {run : Run β μ} {s t : Simulation β μ}

/-- Errands one after the other, with what the steps answer. -/
def errands (run : Run β μ) : List (Errand β) → Act β μ (List (Except EngineError Unit))
  | [] => return []
  | .step :: rest => do
    let stepped ← step run
    return stepped :: (← errands run rest)
  | .call c :: rest => do
    changeEngine c.effect
    errands run rest

theorem bind_of_eq {act : Act β μ α} {next : α → Act β μ γ} (h : act s = act t) :
    (act >>= next) s = (act >>= next) t :=
  congrArg (fun x : Except Halt (α × Simulation β μ) => x >>= fun p => next p.1 p.2) h

theorem errands_append (es fs : List (Errand β)) :
    errands run (es ++ fs) = errands run es >>= fun as => errands run fs >>= fun bs => pure (as ++ bs) := by
  induction es with
  | nil => exact (bind_pure _).symm
  | cons e es ih =>
    cases e with
    | step => rw [List.cons_append, errands, errands, ih]; simp
    | call c => rw [List.cons_append, errands, errands, ih, bind_assoc]

/-- No loop drives the engine, and the second is the first in another state of its lifecycle. -/
structure Alike (s t : Simulation β μ) : Prop where
  idle : s.engine.Looped false
  same : ∃ state, t = s.inState state ∧ (state = .stopped ↔ s.engine.state = .stopped)

theorem Alike.refl (h : s.engine.Looped false) : Alike s s := ⟨h, s.engine.state, rfl, Iff.rfl⟩

theorem Alike.paused (h : Alike s t) : Alike (s.calling .pause) t := by
  obtain ⟨hidle, state, rfl, hstate⟩ := h
  refine ⟨hidle.effect .pause, ?_⟩
  rcases Engine.effect_pause s.engine with heq | ⟨hs, heq⟩
  · exact ⟨state, by rw [calling, heq], by rw [calling, heq]; exact hstate⟩
  · refine ⟨state, ?_, ?_⟩
    · rw [calling, heq, ← hidle.idle]
      rfl
    · rw [calling, heq]
      exact iff_of_false (fun h => hs (hstate.mp h)) (by rintro ⟨⟩)

theorem Alike.call (h : Alike s t) {c : EngineCall (Job β)} (hc : c ≠ .pause) :
    Alike (s.calling c) (t.calling c) := by
  obtain ⟨hidle, state, rfl, hstate⟩ := h
  obtain ⟨state', heq, hstate'⟩ := EngineCall.effect_inState hc hstate
  exact ⟨hidle.effect c, state', congrArg (fun engine => { s with engine }) heq, hstate'⟩

/-- A step goes by nothing of the state but whether the engine is stopped. -/
theorem Alike.step_eq (h : Alike s t) : step run t = step run s := by
  obtain ⟨hidle, state, rfl, hstate⟩ := h
  by_cases hs : s.engine.state = .stopped
  · rw [hstate.mpr hs, ← hs]
    rfl
  · rw [step_of_live hidle.idle hs]
    exact step_of_live hidle.idle fun h => hs (hstate.mp h)

section

variable (hstep : Brings (InLoop false) (InLoop false) (fun _ => True) (step run))

include hstep

/-- Pauses between the steps are told by the state that the engine is left in, if they are told at all. -/
theorem errands_without_pauses (es : List (Errand β)) (hst : Alike s t) :
    Both Alike (fun _ => True) (errands run es s) (errands run (es.filter (!·.isPause)) t) := by
  induction es generalizing s t with
  | nil => exact ⟨rfl, hst⟩
  | cons e rest ih =>
    cases e with
    | step =>
      have hsteps : Both Alike (fun _ => True) (step run s) (step run t) := by
        have hbrings := hstep s hst.idle
        rw [hst.step_eq]
        cases hs : step run s with
        | error why => exact ⟨rfl, trivial⟩
        | ok p => exact ⟨rfl, .refl (hbrings.apply hs)⟩
      rw [List.filter_cons_of_pos (by rfl)]
      refine hsteps.bind fun stepped s' t' hst' => (ih hst').bind fun answers _ _ hrest => ?_
      exact ⟨rfl, hrest⟩
    | call c =>
      by_cases hc : c = .pause
      · subst hc
        rw [List.filter_cons_of_neg Bool.false_ne_true]
        exact ih hst.paused
      · rw [List.filter_cons_of_pos (by cases c <;> first | rfl | exact absurd rfl hc)]
        exact ih (hst.call hc)

/-- After one step more they are not told at all. -/
theorem errands_and_step (es : List (Errand β)) (hidle : s.engine.Looped false) :
    errands run (es ++ [.step]) s = errands run (es.filter (!·.isPause) ++ [.step]) s := by
  rw [errands_append, errands_append, ← both_eq]
  refine (errands_without_pauses hstep es (.refl hidle)).bind fun answers s' t' hst' => both_eq.mpr ?_
  exact bind_of_eq (bind_of_eq hst'.step_eq.symm)

end

end Simulation

open Simulation

/-- The loop is iterated steps. Where it returns, it has been paused or stopped by code that it ran, and
steps from where it was begun, until the engine is paused or stopped, run the same code for the same
occasions, as whoever watches may tell, and lead to the same simulation. Pauses between steps leave the
engine in another state of its lifecycle at most, and after the next step not even that. -/
theorem tick_is_iterated_step {μ : Type} {s : Simulation (Code μ) μ} (hs : s.Lived)
    (watch : Occasion → Code μ → μ → μ) (n : Nat) :
    (s.engine.state ≠ .stopped → ∀ bound a s',
      tick (watched watch (runWithin Request.isQuiet n)) (bound + 1) s = .ok (a, s') →
        a = .ok () ∧ s'.engine.rests = true ∧
        tick (watched watch (runCode n)) (bound + 1) s = .ok (a, s') ∧
        stepToRest (watched watch (runCode n)) bound s = .ok (a, s')) ∧
    (∀ es, Both Alike (fun _ => True) (errands (watched watch (runCode n)) es s)
      (errands (watched watch (runCode n)) (es.filter (!·.isPause)) s)) ∧
    ∀ es, errands (watched watch (runCode n)) (es ++ [.step]) s =
      errands (watched watch (runCode n)) (es.filter (!·.isPause) ++ [.step]) s := by
  have hstep : Brings (InLoop false) (InLoop false) (fun _ => True) (step (watched watch (runCode n))) :=
    step_inLoop (watched_agrees (parallel_inLoop false) watch (runCode_inLoop n false))
  refine ⟨fun hlive bound a s' htick => ?_, fun es => ?_, fun es => ?_⟩
  · have hquiet := watched_agrees parallel_abreast watch (quiet_abreast n)
    have hfollows : RunFollows (fun _ => True) (watched watch (runWithin Request.isQuiet n))
        (watched watch (runCode n)) := by
      rw [runWithin_eq]
      exact watched_follows watch (runWhere_follows trivial trivial (fun _ _ _ => trivial) n)
    obtain rfl := tick_ok hlive htick
    have hsteps := (tick_iff_stepToRest hquiet hs.idle hlive).mp htick
    exact ⟨rfl, stepToRest_rests hsteps, (Follows.tick trivial hfollows (bound + 1) s _ s' htick).1,
      (Follows.stepToRest trivial hfollows bound s _ s' hsteps).1⟩
  · exact errands_without_pauses hstep es (.refl hs.idle)
  · exact errands_and_step hstep es hs.idle

/-- Two tasks a tick apart, of which the second pauses the engine. -/
def shift : Program (List TaskContext) .listener :=
  .schedule .nobody .nobody (Code.ofTask fun _ => .done .completed) 0 0 fun _ =>
  .schedule .nobody .nobody (Code.ofTask fun _ => .request .pause fun _ => .done .completed)
    (Duration.ofMillis 100) 0 fun _ => .done ()

def rollCall : Occasion → Code (List TaskContext) → List TaskContext → List TaskContext
  | .task context, _, told => told ++ [context]
  | _, _, told => told

theorem shift_is_stepped : ∃ s s' : Simulation (Code (List TaskContext)) (List TaskContext),
    s.Lived ∧ s.engine.state ≠ .stopped ∧
      tick (watched rollCall (runWithin Request.isQuiet 3)) 4 s = .ok (.ok (), s') ∧
      s'.memory.map (·.id) = [⟨0⟩, ⟨1⟩] ∧ s'.engine.rests = true ∧
      stepToRest (watched rollCall (runCode 3)) 3 s = .ok (.ok (), s') := by
  obtain ⟨_, s, hact, hholds⟩ := endsWith_iff.mp (show endsWith (execute 3 shift) (unheard TaskContext)
    (fun _ s => s.engine.state != .stopped &&
      endsWith (tick (watched rollCall (runWithin Request.isQuiet 3)) 4) s fun a s' =>
        a.isOk && s'.memory.map (·.id) == [⟨0⟩, ⟨1⟩]) = true by decide +kernel)
  simp only [Bool.and_eq_true, bne_iff_ne, beq_iff_eq, endsWith_iff] at hholds
  obtain ⟨hlive, a, s', htick, -, hids⟩ := hholds
  have hlived : s.Lived := (unheard_lived TaskContext).run hact
  obtain ⟨rfl, hrests, -, hsteps⟩ := (tick_is_iterated_step hlived rollCall 3).1 hlive 3 a s' htick
  exact ⟨s, s', hlived, hlive, htick, hids, hrests, hsteps⟩

end Vivarium
