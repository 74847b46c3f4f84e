import Vivarium.Proofs.Sessions

/-! # After a stop

A stopped engine stays stopped and empty. What is left of the tick in which it was stopped starts no
body, and counts as a tick only if its last action had been reached.
-/

namespace Vivarium

/-- The tick counts at its end: its last action is running or over. -/
def Phase.closes {β : Type} : Phase β → Bool
  | .boundary _ .last _ | .parking _ => true
  | _ => false

theorem Phase.closes_leave {β : Type} (k : TickFrame) : (leave k : Phase β).closes = false := by
  rcases leave_cases (β := β) k with ⟨h, -⟩ | ⟨h, -⟩ <;> rw [h] <;> rfl

theorem Engine.meter_settleBoundary {β : Type} (which : Boundary) (t : Task β) (e : Engine β) :
    (e.settleBoundary which t).meter = e.meter := by
  unfold settleBoundary
  split
  · cases which <;> rfl
  · rfl

namespace EngineCall

variable {β : Type}

theorem meter_effect (c : EngineCall β) (e : Engine β) : (c.effect e).meter = e.meter := by
  cases c with
  | schedule work delay period =>
    by_cases hs : e.state = .stopped
    · simp only [effect, Engine.schedule_of_stopped hs]
    · simp only [effect, Engine.schedule_ok hs]
  | cancel id =>
    simp only [effect, Engine.cancel]
    split
    · rfl
    · split <;> rfl
  | flag id => rfl
  | pause =>
    rcases Engine.effect_pause e with heq | ⟨-, heq⟩ <;> rw [heq]
  | stop =>
    by_cases hs : e.state = .stopped
    · simp only [effect, Engine.stop_of_stopped hs]
    · simp only [effect, (Engine.stop_of_live hs).2]
  | setBoundary which work => cases which <;> cases work <;> rfl
  | setClock clock => rfl

end EngineCall

namespace Machine

variable {β : Type} {m m' : Machine β}

/-- What a stopped engine is like. -/
structure Ended (m : Machine β) : Prop where
  state : m.engine.state = .stopped
  queue : m.engine.queue.toList = []
  flight : m.engine.inFlight = []
  inactive : ∀ id, m.engine.isActive id = false
  cancel : ∀ id, m.engine.cancel id = (false, m.engine)
  schedule : ∀ work delay period, m.engine.schedule work delay period = .error .shutdown
  start : m.engine.start = .error .shutdown
  pause : m.engine.pause = .error .shutdown
  enter : m.engine.enter .ticking = .error .shutdown

theorem Sound.ended (h : m.Sound) (hs : m.engine.state = .stopped) : m.Ended := by
  obtain ⟨hids, hkeys⟩ := List.append_eq_nil_iff.mp (h.ledger.emptied hs)
  have hnot : ∀ id, id ∉ m.engine.queue.ids := fun id hid => by
    rw [hids] at hid
    cases hid
  have hfly : m.engine.inFlight = [] := List.map_eq_nil_iff.mp hkeys
  have hinactive : ∀ id, m.engine.isActive id = false := fun id => by
    rw [Bool.eq_false_iff, ne_eq, Engine.isActive_iff h.ledger.queue, hkeys]
    rintro (hid | ⟨hid, -⟩)
    · exact hnot id hid
    · cases hid
  exact {
    state := hs
    queue := List.map_eq_nil_iff.mp hids
    flight := hfly
    inactive := hinactive
    cancel := fun id => by
      rw [Engine.cancel_not_queued h.ledger.queue (hnot id), hfly]
      rfl
    schedule := fun _ _ _ => Engine.schedule_of_stopped hs
    start := Engine.start_of_stopped hs
    pause := Engine.pause_of_stopped hs
    enter := Engine.enter_of_stopped hs }

/-- Stopping is for good. -/
theorem Sound.stopped_reaches (h : m.Sound) (hs : m.engine.state = .stopped) (hr : m.Reaches m') :
    m'.engine.state = .stopped := by
  refine (h.reaches hr).ledger.stops_ne_nil_iff.mp fun hnil => ?_
  obtain ⟨rest, hrest⟩ := hr.stops
  rw [hnil, List.append_eq_nil_iff] at hrest
  exact h.ledger.stops_ne_nil_iff.mpr hs hrest.1

/-- No step of a stopped engine starts a body. -/
theorem Sound.stopped_begun (h : m.Sound) (hs : m.engine.state = .stopped) (hstep : m.Step m') :
    m'.begun = m.begun := by
  cases hstep with
  | call c => exact begun_move_of_nil (c.begun_notes _)
  | enter hp => exact absurd hs (h.control.facing _ _ hp)
  | @start k t rest hp hf =>
    have hflag := h.control.flagged hs t (by rw [hp]; exact List.mem_cons_self)
    rw [hf] at hflag
    cases hflag
  | skip => exact begun_move_of_nil (Engine.filterMap_begun_finishNote _ _)
  | finish => exact begun_move_of_nil (Engine.filterMap_begun_finishNote _ _)
  | _ => exact begun_move_of_nil rfl

/-- The count of the ticks after a stop, by where it was when the engine was stopped. -/
def CountsOn (m m' : Machine β) : Prop :=
  m'.engine.meter.count = m.engine.meter.count ∧ (m'.phase.closes = true → m.phase.closes = true) ∨
    m.phase.closes = true ∧ m'.phase.closes = false ∧
      m'.engine.meter.count = (m.engine.meter.count + 1) % UInt64.size

theorem Sound.stopped_count (h : m.Sound) (hs : m.engine.state = .stopped) (hstep : m.Step m') :
    m.CountsOn m' := by
  cases hstep with
  | call c => exact Or.inl ⟨congrArg (·.count) (c.meter_effect _), id⟩
  | step _ _ he => exact absurd hs (Engine.enter_ok he).1
  | tick _ he => exact absurd hs (Engine.start_ok he).1
  | again _ he =>
    have hr := (Engine.continues_true he).2.1
    rw [hs] at hr
    cases hr
  | leave _ he =>
    obtain ⟨-, rfl⟩ := Engine.continues_false he
    exact Or.inl ⟨rfl, by rintro ⟨⟩⟩
  | absent hp => exact absurd hs (h.control.facing _ _ hp)
  | pass hp => exact absurd hs (h.control.facing _ _ hp)
  | enter hp => exact absurd hs (h.control.facing _ _ hp)
  | @settle k which t hp =>
    refine Or.inl ⟨congrArg (·.count) (Engine.meter_settleBoundary which t _), fun hc => ?_⟩
    rw [hp]
    cases which with
    | first => cases hc
    | last => rfl
  | launch => exact Or.inl ⟨rfl, by rintro ⟨⟩⟩
  | start => exact Or.inl ⟨rfl, by rintro ⟨⟩⟩
  | skip =>
    rw [Engine.finish, Engine.complete_eq]
    exact Or.inl ⟨rfl, by rintro ⟨⟩⟩
  | finish =>
    rw [Engine.finish, Engine.complete_eq]
    exact Or.inl ⟨rfl, by rintro ⟨⟩⟩
  | advance => exact Or.inl ⟨rfl, by rintro ⟨⟩⟩
  | @release k =>
    exact Or.inl ⟨rfl, fun e => absurd ((Phase.closes_leave k).symm.trans e) (by decide)⟩
  | @park k hp =>
    refine Or.inr ⟨by rw [hp]; rfl, Phase.closes_leave k, ?_⟩
    rcases Engine.park_cases k.deadline { m.engine with meter := m.engine.meter.endTick } with
      ⟨-, heq⟩ | ⟨-, heq⟩ <;> rw [Engine.endTick, heq] <;> rfl

theorem CountsOn.trans {m₁ m₂ m₃ : Machine β} (h : m₁.CountsOn m₂) (h' : m₂.CountsOn m₃) :
    m₁.CountsOn m₃ := by
  rcases h with ⟨hn, hc⟩ | ⟨hc, hno, hn⟩
  · rcases h' with ⟨hn', hc'⟩ | ⟨hc', hno', hn'⟩
    · exact Or.inl ⟨hn'.trans hn, fun e => hc (hc' e)⟩
    · exact Or.inr ⟨hc hc', hno', by rw [hn', hn]⟩
  · rcases h' with ⟨hn', hc'⟩ | ⟨hc', -, -⟩
    · refine Or.inr ⟨hc, ?_, hn'.trans hn⟩
      rw [Bool.eq_false_iff]
      intro e
      rw [hc' e] at hno
      cases hno
    · rw [hc'] at hno
      cases hno

theorem Sound.stopped_run (h : m.Sound) (hs : m.engine.state = .stopped) (hr : m.Reaches m') :
    m'.begun = m.begun ∧ m.CountsOn m' := by
  induction hr with
  | refl => exact ⟨rfl, Or.inl ⟨rfl, id⟩⟩
  | tail hr hstep ih =>
    have hs' := h.stopped_reaches hs hr
    have h' := h.reaches hr
    exact ⟨(h'.stopped_begun hs' hstep).trans ih.1, ih.2.trans (h'.stopped_count hs' hstep)⟩

end Machine

namespace Simulation

variable {β μ : Type}

/-- Every operation fails with the error of a stopped engine and changes nothing. -/
structure Refuses (run : Run β μ) (s : Simulation β μ) : Prop where
  step : step run s = .ok (.error .shutdown, s)
  stepMany : ∀ n, stepMany run (n + 1) s = .ok (.error .shutdown, s)
  tick : ∀ bound, tick run bound s = .ok (.error .shutdown, s)
  pause : ∀ bound, answer run bound .pause s = .ok (.error .shutdown, s)
  schedule : ∀ job delay period, schedule .nobody job delay period s = .ok (.error .shutdown, s)
  cancel : ∀ bound id, answer run bound (.cancel id) s = .ok (false, s)
  isActive : ∀ bound id, answer run bound (.isActive id) s = .ok (false, s)

theorem refuses {m : Machine (Job β)} {s : Simulation β μ} (run : Run β μ) (h : m.Sound)
    (hp : m.phase = .idle) (hs : m.engine.state = .stopped) (he : s.engine = m.engine) :
    s.Refuses run := by
  have hended := h.ended hs
  rw [← he] at hs
  have hr : s.engine.running = false := he ▸ h.control.not_running hp
  exact {
    step := step_of_stopped hr hs
    stepMany := stepMany_of_stopped hs
    tick := tick_of_stopped hs
    pause := fun _ => tryEngine_error (by rw [he, hended.pause]; rfl)
    schedule := fun _ _ _ => schedule_nobody_error (Engine.schedule_of_stopped hs)
    cancel := fun _ id => by
      have hcancel : s.engine.cancel id = (false, s.engine) := he ▸ hended.cancel id
      change onEngine (·.cancel id) s = _
      unfold onEngine
      simp only [hcancel]
    isActive := fun _ id => by
      change ask (·.engine.isActive id) s = _
      unfold ask
      simp only [he, hended.inactive id] }

end Simulation

/-- Stopping is final: at every later point of every run the engine is stopped and empty, and no body
has begun since. The tick in which the engine was stopped still counts only if it was stopped from the
last action. Every operation is refused. -/
theorem stop_is_final {β μ : Type} :
    (∀ m : Machine β, m.Reachable → m.phase.listens = true → ∀ m', (m.calls [.stop]).Reaches m' →
      m'.Ended ∧ m'.begun = m.begun ∧
        (m'.engine.meter.count = m.engine.meter.count ∨
          (∃ k t, m.phase = .boundary k .last t) ∧
            m'.engine.meter.count = (m.engine.meter.count + 1) % UInt64.size)) ∧
      (∀ (run : Run β μ) (m : Machine (Job β)) (s : Simulation β μ), m.Reachable → m.phase = .idle →
        m.stops ≠ [] → s.engine = m.engine → s.Refuses run) ∧
      ∀ s : Simulation (Code μ) μ, s.Ends →
        ∃ m : Machine (Job (Code μ)), m.Reachable ∧ m.phase = .idle ∧ m.engine = s.engine := by
  refine ⟨?_, ?_, fun _ hs => hs.reachable⟩
  · intro m hm hp m' hr
    have hstep : m.Step (m.calls [.stop]) := .call .stop hp trivial
    have hsound := hm.sound.step hstep
    have hs : (m.calls [.stop]).engine.state = .stopped := by
      refine hsound.ledger.stops_ne_nil_iff.mp ?_
      have heq : (m.calls [.stop]).stops = m.stops ++ [m.engine.stop.1] := Machine.stops_move _ _ _ _
      rw [heq]
      exact List.append_ne_nil_of_right_ne_nil _ (List.cons_ne_nil _ _)
    obtain ⟨hbegun, hcount⟩ := hsound.stopped_run hs hr
    have hbegun₁ : (m.calls [.stop]).begun = m.begun :=
      Machine.begun_move_of_nil (EngineCall.begun_notes .stop _)
    have hmeter : (m.calls [.stop]).engine.meter = m.engine.meter := EngineCall.meter_effect .stop _
    refine ⟨(hsound.reaches hr).ended (hsound.stopped_reaches hs hr), hbegun.trans hbegun₁, ?_⟩
    rcases hcount with ⟨hn, -⟩ | ⟨hcloses, -, hn⟩
    · exact Or.inl (by rw [hn, hmeter])
    · refine Or.inr ⟨?_, by rw [hn, hmeter]⟩
      change m.phase.closes = true at hcloses
      cases hphase : m.phase with
      | boundary k which t =>
        cases which with
        | first => rw [hphase] at hcloses; cases hcloses
        | last => exact ⟨k, t, rfl⟩
      | parking k => rw [hphase] at hp; cases hp
      | _ => rw [hphase] at hcloses; cases hcloses
  · intro run m s hm hp hstops he
    exact Simulation.refuses run hm.sound hp (hm.sound.ledger.stops_ne_nil_iff.mp hstops) he

theorem rivals_ended :
    (Machine.rivals.calls [.stop]).stops.map (·.map (·.id)) = [[⟨0⟩, ⟨1⟩]] ∧
      (Machine.rivals.calls [.stop]).Ended :=
  ⟨by decide, (stop_is_final (μ := Unit) |>.1 _ Machine.rivals_reachable rfl _ .refl).1⟩

end Vivarium
