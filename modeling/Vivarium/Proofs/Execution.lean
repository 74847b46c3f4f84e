import Vivarium.Proofs.Conduct
import Vivarium.Simulation.Ticking

/-! # Executions follow the machine

A tick that runs code of a conduct takes the steps of the machine, one after the other, and ends where
the machine ends. It is never held up at its barrier.
-/

namespace Vivarium

theorem EngineCall.begun_notes {β : Type} (c : EngineCall β) (e : Engine β) :
    (c.notes e).filterMap Note.begun? = [] := by
  cases c <;> simp only [notes]
  · split <;> rfl
  · split <;> rfl
  all_goals rfl

theorem Phase.listens_of_running {β : Type} {p : Phase β} {id : TaskId} (h : p.running? = some id) :
    p.listens = true ∧ p ≠ .idle := by
  cases p with
  | boundary k which t => exact ⟨rfl, by rintro ⟨⟩⟩
  | body k t rest => exact ⟨rfl, by rintro ⟨⟩⟩
  | _ => cases h

namespace Simulation

variable {β μ : Type} {run : Run β μ} {t : Task (Job β)} {s : Simulation β μ}

/-- An operation that gives a result at once. -/
theorem bind_of_ok {α γ : Type} {act : Act β μ α} {next : α → Act β μ γ} {a : α} {s' : Simulation β μ}
    (h : act s = .ok (a, s')) : (act >>= next) s = next a s' := by
  change (act s >>= fun p => next p.1 p.2) = next a s'
  rw [h]
  rfl

theorem tryEngine_ok {α : Type} {f : Engine (Job β) → Except EngineError (α × Engine (Job β))} {a : α}
    {e : Engine (Job β)} (h : f s.engine = .ok (a, e)) :
    tryEngine f s = .ok (.ok a, { s with engine := e }) := by
  unfold tryEngine onEngine
  simp only [h]

theorem tryEngine_error {α : Type} {f : Engine (Job β) → Except EngineError (α × Engine (Job β))}
    {error : EngineError} (h : f s.engine = .error error) : tryEngine f s = .ok (.error error, s) := by
  unfold tryEngine onEngine
  simp only [h]

theorem runTask_of_flagged (h : s.engine.isFlagged t.id = true) : runTask run t s = .ok ((), s) := by
  unfold runTask
  change (if s.engine.isFlagged t.id = true then _ else _ : Act β μ Unit) s = _
  rw [if_pos h]
  rfl

theorem runTask_of_unflagged (h : s.engine.isFlagged t.id = false) :
    runTask run t s =
      (run (.task ⟨t.id, t.period, s.engine.report, t.work.actor⟩) t.work.code >>=
        fun _ => pure ()) s := by
  unfold runTask
  change (if s.engine.isFlagged t.id = true then _ else _ : Act β μ Unit) s = _
  rw [if_neg (by rw [h]; decide)]

theorem passBarrier_of_held (h : s.engine.barrier.await? = none) : passBarrier s = .error .deadlock := by
  rw [passBarrier]
  refine (bind_of_ok rfl).trans ?_
  rw [h]
  rfl

theorem passBarrier_of_await {passed : Bool} {b : TickBarrier}
    (h : s.engine.barrier.await? = some (passed, b)) :
    passBarrier s = .ok (passed, { s with engine := { s.engine with barrier := b } }) := by
  rw [passBarrier]
  refine (bind_of_ok rfl).trans ?_
  rw [h]
  rfl

/-- An engine that is not stopped and is driven by no loop begins a tick. -/
theorem step_of_live (hr : s.engine.running = false) (hs : s.engine.state ≠ .stopped) :
    step run s = (runTick run >>= fun _ => pure (.ok ()))
      { s with engine := { s.engine with state := .ticking } } := by
  unfold step
  change (if s.engine.running = true then _ else _ : Act β μ (Except EngineError Unit)) s = _
  rw [hr, if_neg Bool.false_ne_true]
  exact bind_of_ok (tryEngine_ok (by rw [Engine.enter_ticking hs]; rfl))

/-! ## Stopped engines -/

theorem step_of_stopped (hr : s.engine.running = false) (hs : s.engine.state = .stopped) :
    step run s = .ok (.error .shutdown, s) := by
  have henter := tryEngine_error (μ := μ) (f := fun e => (fun e => ((), e)) <$> e.enter .ticking)
    (by rw [Engine.enter_of_stopped hs]; rfl)
  unfold step
  change (if s.engine.running = true then _ else _ : Act β μ (Except EngineError Unit)) s = _
  rw [hr, if_neg (by decide)]
  exact bind_of_ok henter

theorem stepMany_of_stopped (hs : s.engine.state = .stopped) (n : Nat) :
    stepMany run (n + 1) s = .ok (.error .shutdown, s) := by
  unfold stepMany
  change (if s.engine.state = .stopped then _ else _ : Act β μ (Except EngineError Unit)) s = _
  rw [if_pos hs]
  rfl

theorem tick_of_stopped (hs : s.engine.state = .stopped) (bound : Nat) :
    tick run bound s = .ok (.error .shutdown, s) := by
  have hstart := tryEngine_error (μ := μ) (f := (·.start)) (Engine.start_of_stopped hs)
  unfold tick
  exact bind_of_ok hstart

end Simulation

namespace Conduct

variable {β μ α γ : Type} {c : Conduct β μ} {m m' : Machine (Job β)} {s s' : Simulation β μ}

/-- A machine and a simulation with the same engine, whose memory tells what has begun. -/
structure Tied (c : Conduct β μ) (m : Machine (Job β)) (s : Simulation β μ) : Prop where
  sound : m.Sound
  serves : m.Serves c.good
  engine : s.engine = m.engine
  seen : c.seen s.memory m.begun

/-- The machine moves as the operation does. -/
def Leads (c : Conduct β μ) (r : Machine (Job β) → Machine (Job β) → Prop) (act : Act β μ α)
    (m : Machine (Job β)) (s : Simulation β μ) (post : α → Machine (Job β) → Prop) : Prop :=
  match act s with
  | .error why => c.fails why
  | .ok (a, s') => ∃ m', Relation.ReflTransGen r m m' ∧ c.Tied m' s' ∧ post a m'

namespace Leads

variable {r : Machine (Job β) → Machine (Job β) → Prop} {act : Act β μ α}
  {post : α → Machine (Job β) → Prop}

theorem of_run (h : c.Leads r act m s post) {a : α} (hact : act s = .ok (a, s')) :
    ∃ m', Relation.ReflTransGen r m m' ∧ c.Tied m' s' ∧ post a m' := by
  unfold Leads at h
  rwa [hact] at h

theorem of_halt (h : c.Leads r act m s post) {why : Halt} (hact : act s = .error why) : c.fails why := by
  unfold Leads at h
  rwa [hact] at h

theorem pure {a : α} (ht : c.Tied m s) (h : post a m) :
    c.Leads r (Pure.pure a : Act β μ α) m s post := ⟨m, .refl, ht, h⟩

theorem bind {next : α → Act β μ γ} {post' : γ → Machine (Job β) → Prop}
    (h : c.Leads r act m s post)
    (hn : ∀ a m' s', c.Tied m' s' → post a m' → c.Leads r (next a) m' s' post') :
    c.Leads r (act >>= next) m s post' := by
  unfold Leads
  change match (act s >>= fun p => next p.1 p.2) with | .error why => _ | .ok (a, s') => _
  cases hact : act s with
  | error why => exact h.of_halt hact
  | ok p =>
    obtain ⟨a, s'⟩ := p
    obtain ⟨m', hr, ht, hp⟩ := h.of_run hact
    have hnext := hn a m' s' ht hp
    unfold Leads at hnext
    change match next a s' with | .error why => _ | .ok (a, s') => _
    split at hnext
    · exact hnext
    · obtain ⟨m'', hr', ht', hp'⟩ := hnext
      exact ⟨m'', hr.trans hr', ht', hp'⟩

theorem mono {post' : α → Machine (Job β) → Prop} (h : c.Leads r act m s post)
    (hp : ∀ a m', post a m' → post' a m') : c.Leads r act m s post' := by
  unfold Leads
  split
  · next why hact => exact h.of_halt hact
  · next a s' hact =>
    obtain ⟨m', hr, ht, hpost⟩ := h.of_run hact
    exact ⟨m', hr, ht, hp a m' hpost⟩

/-- Steps may be taken before an operation moves the machine. -/
theorem after {m₀ : Machine (Job β)} (hr : Relation.ReflTransGen r m₀ m) (h : c.Leads r act m s post) :
    c.Leads r act m₀ s post := by
  unfold Leads
  split
  · next why hact => exact h.of_halt hact
  · next a s' hact =>
    obtain ⟨m', hr', ht, hpost⟩ := h.of_run hact
    exact ⟨m', hr.trans hr', ht, hpost⟩

theorem along {r' : Machine (Job β) → Machine (Job β) → Prop} (h : c.Leads r act m s post)
    (hr : ∀ m m', r m m' → r' m m') : c.Leads r' act m s post := by
  unfold Leads
  split
  · next why hact => exact h.of_halt hact
  · next a s' hact =>
    obtain ⟨m', hreach, ht, hpost⟩ := h.of_run hact
    exact ⟨m', Relation.ReflTransGen.mono hr _ _ hreach, ht, hpost⟩

theorem reaches {ok : EngineCall (Job β) → Prop} (h : c.Leads (Machine.InsideBy ok) act m s post) :
    c.Leads (Machine.StepBy ok) act m s post := h.along fun _ _ hs => hs.2

theorem ok_bind {next : α → Act β μ γ} {post' : γ → Machine (Job β) → Prop} {a : α}
    (hact : act s = .ok (a, s')) (hn : c.Leads r (next a) m s' post') :
    c.Leads r (act >>= next) m s post' := by
  unfold Leads at hn ⊢
  rw [Simulation.bind_of_ok hact]
  exact hn

theorem of_ok {a : α} (hact : act s = .ok (a, s')) (hr : Relation.ReflTransGen r m m')
    (ht : c.Tied m' s') (hp : post a m') : c.Leads r act m s post := by
  unfold Leads
  rw [hact]
  exact ⟨m', hr, ht, hp⟩

end Leads

/-- One step of the machine that changes the engine as an operation does. -/
theorem Tied.move (ht : c.Tied m s) {e e' : Engine (Job β)} {p : Phase (Job β)}
    {ns : List (Note (Job β))} (hs : m.Step (m.move e p ns)) (hserves : (m.move e p ns).Serves c.good)
    (hbegun : ns.filterMap Note.begun? = []) (he : e' = e) :
    c.Tied (m.move e p ns) { s with engine := e' } := by
  refine ⟨ht.sound.step hs, hserves, he, ?_⟩
  rw [Machine.begun_move_of_nil hbegun]
  exact ht.seen

/-! ## Bodies -/

theorem Tied.call (ht : c.Tied m s) {own : TaskId} {call : EngineCall (Job β)}
    (hp : m.phase.listens = true) (hallow : m.Allows call) (hfit : call.IsFit c.good own) :
    c.Tied (m.move (call.effect m.engine) m.phase (call.notes m.engine))
      { s with engine := call.effect m.engine } :=
  ht.move (.call call hp hallow) (ht.serves.call ht.sound.ledger hfit) (call.begun_notes _) rfl

/-- A body stays where it is while it acts on the engine. -/
theorem calls_lead {ok : EngineCall (Job β) → Prop} {own : TaskId} (hsound : m.Sound)
    (hserves : m.Serves c.good) (hrun : m.phase.running? = some own)
    {calls : List (EngineCall (Job β))} (hfit : ∀ call ∈ calls, call.IsFit c.good own ∧ ok call) :
    ∃ m', Relation.ReflTransGen (Machine.InsideBy ok) m m' ∧ m'.Sound ∧ m'.Serves c.good ∧
      m'.phase = m.phase ∧ m'.begun = m.begun ∧ m'.engine = EngineCall.effects calls m.engine := by
  induction calls generalizing m with
  | nil => exact ⟨m, .refl, hsound, hserves, rfl, rfl, rfl⟩
  | cons call calls ih =>
    obtain ⟨hlistens, hidle⟩ := Phase.listens_of_running hrun
    obtain ⟨hcall, hok⟩ := hfit call List.mem_cons_self
    have hallow : m.Allows call := by
      cases call with
      | flag id => exact Or.inr (hrun.trans (congrArg some (Eq.symm hcall)))
      | _ => trivial
    have hstep := Machine.Step.call call hlistens hallow
    obtain ⟨m', hworks, hsound', hserves', hphase, hbegun, hengine⟩ :=
      ih (hsound.step hstep) (hserves.call hsound.ledger hcall) hrun
        fun call h => hfit call (List.mem_cons_of_mem _ h)
    exact ⟨m', .head ⟨hidle, .call call hlistens hallow hok⟩ hworks, hsound', hserves', hphase,
      hbegun.trans (Machine.begun_move_of_nil (call.begun_notes _)), hengine⟩

/-- A body that has just begun runs to its end. -/
theorem runTask_leads {ok : EngineCall (Job β) → Prop} {run : Run β μ} (hobeys : c.ObeysBy ok run)
    {t : Task (Job β)} (hsound : m.Sound) (hserves : m.Serves c.good) (hengine : s.engine = m.engine)
    (hrun : m.phase.running? = some t.id) (hflag : m.engine.isFlagged t.id = false)
    (hgood : c.good t.work.code) {ids : List TaskId} (hbegun : m.begun = ids ++ [t.id])
    (hseen : c.seen s.memory ids) :
    c.Leads (Machine.InsideBy ok) (Simulation.runTask run t) m s fun _ m' => m'.phase = m.phase := by
  have hbody := hobeys ⟨t.id, t.period, s.engine.report, t.work.actor⟩ t.work.code s hgood
  have hlead : c.Leads (Machine.InsideBy ok)
      (run (.task ⟨t.id, t.period, s.engine.report, t.work.actor⟩) t.work.code) m s
      fun _ m' => m'.phase = m.phase := by
    unfold Leads
    split at hbody
    · next why hact => rwa [hact]
    · next a s' hact =>
      rw [hact]
      obtain ⟨hsees, calls, hfit, heffects⟩ := hbody
      obtain ⟨m', hworks, hsound', hserves', hphase, hbegun', hengine'⟩ :=
        calls_lead hsound hserves hrun hfit
      refine ⟨m', hworks, ⟨hsound', hserves', ?_, ?_⟩, hphase⟩
      · rw [heffects, hengine, hengine']
      · rw [hbegun', hbegun]
        exact hsees ids hseen
  unfold Leads
  rw [Simulation.runTask_of_unflagged (hengine ▸ hflag)]
  exact hlead.bind fun _ _ _ ht hphase => .pure ht hphase

/-! ## Ticks -/

theorem passBarrier_leads {ok : EngineCall (Job β) → Prop} (ht : c.Tied m s) {k : TickFrame}
    (hp : m.phase = .turns k []) :
    c.Leads (Machine.InsideBy ok) Simulation.passBarrier m s
      fun passed m' => m'.phase = if passed then .facing k .last else .leave k := by
  have hidle : m.phase ≠ .idle := by rw [hp]; rintro ⟨⟩
  have hparties : m.engine.barrier.registered = m.engine.barrier.arrived := by
    have h := ht.sound.control.parties
    rw [hp] at h
    exact h
  have hawait := TickBarrier.await?_of_complete hparties
  obtain ⟨passed, b, hpass⟩ : ∃ passed b, m.engine.barrier.pass = (passed, b) := ⟨_, _, rfl⟩
  rw [hpass] at hawait
  refine .ok_bind rfl ?_
  simp only [ht.engine, hawait]
  cases passed with
  | true =>
    have hstep := Machine.Step.advance hp hawait
    exact .of_ok rfl (.single ⟨hidle, .own hstep fun _ => rfl⟩)
      (ht.move hstep (ht.serves.same rfl rfl rfl (by rw [hp]; rfl)) rfl (by rw [ht.engine])) rfl
  | false =>
    have hstep := Machine.Step.release hp hawait
    exact .of_ok rfl (.single ⟨hidle, .own hstep fun _ => rfl⟩)
      (ht.move hstep (ht.serves.same rfl rfl rfl (by rw [hp]; simp; rfl)) rfl (by rw [ht.engine])) rfl

section

variable {ok : EngineCall (Job β) → Prop} {run : Run β μ} (hobeys : c.ObeysBy ok run)

include hobeys

theorem runBoundary_leads (ht : c.Tied m s) {k : TickFrame} {which : Boundary}
    (hp : m.phase = .facing k which) :
    c.Leads (Machine.InsideBy ok) (Simulation.runBoundary run which) m s
      fun _ m' => m'.phase = .past k which := by
  have hidle : m.phase ≠ .idle := by rw [hp]; rintro ⟨⟩
  refine .ok_bind rfl ?_
  simp only [ht.engine]
  cases hb : m.engine.boundary which with
  | none =>
    have hstep := Machine.Step.absent hp hb
    exact .of_ok rfl (.single ⟨hidle, .own hstep fun _ => rfl⟩)
      (ht.move hstep (ht.serves.same rfl rfl rfl (by rw [hp]; simp; rfl)) rfl ht.engine) rfl
  | some t =>
    have hflag := ht.sound.boundaries.unflagged (by rw [hp]; rfl) hb
    have hstep := Machine.Step.enter hp hb hflag
    have hbody := runTask_leads hobeys (ht.sound.step hstep) (ht.serves.same rfl rfl rfl (by rw [hp]; rfl))
      ht.engine rfl hflag (ht.serves.boundary which t hb) List.filterMap_append ht.seen
    refine .after (.single ⟨hidle, .own hstep fun _ => rfl⟩) (.bind hbody ?_)
    intro _ m' s' ht' hp'
    have hidle' : m'.phase ≠ .idle := by rw [hp']; rintro ⟨⟩
    have hstep' := Machine.Step.settle hp'
    exact .of_ok rfl (.single ⟨hidle', .own hstep' fun _ => Engine.clock_settleBoundary which t _⟩)
      (ht'.move hstep' (ht'.serves.settleBoundary which t (by rw [hp']; simp; rfl)) rfl
        (by rw [ht'.engine])) rfl

theorem runDue_leads {ts : List (Task (Job β))} (ht : c.Tied m s) {k : TickFrame}
    (hp : m.phase = .turns k ts) :
    c.Leads (Machine.InsideBy ok) (Simulation.runDue run ts) m s fun _ m' => m'.phase = .turns k [] := by
  induction ts generalizing m s with
  | nil => exact .pure ht hp
  | cons t rest ih =>
    have hidle : m.phase ≠ .idle := by rw [hp]; rintro ⟨⟩
    have hpending : m.phase.pending = t :: rest := by rw [hp]; rfl
    refine .ok_bind rfl ?_
    cases hf : m.engine.isFlagged t.id with
    | true =>
      have hstep := Machine.Step.skip hp hf
      have hclock := Engine.clock_finish t m.engine.register
      refine .ok_bind (Simulation.runTask_of_flagged (by rw [ht.engine]; exact hf)) ?_
      refine .ok_bind rfl (.ok_bind rfl ?_)
      refine .after (.single ⟨hidle, .own hstep fun _ => hclock⟩) (ih ?_ rfl)
      exact ht.move hstep (ht.serves.finish ht.sound.ledger (b := m.engine.register.barrier) hpending)
        (Engine.filterMap_begun_finishNote t _) (by rw [ht.engine]; rfl)
    | false =>
      have hstep := Machine.Step.start hp hf
      have hbody := runTask_leads (s := { s with engine := s.engine.register }) hobeys (ht.sound.step hstep)
        (ht.serves.same rfl rfl rfl (by rw [hp]; rfl)) (by rw [ht.engine]; rfl) rfl hf
        (ht.serves.pending t (hpending ▸ List.mem_cons_self)) List.filterMap_append ht.seen
      refine .after (.single ⟨hidle, .own hstep fun _ => rfl⟩) (.bind hbody ?_)
      intro _ m' s' ht' hp'
      have hidle' : m'.phase ≠ .idle := by rw [hp']; rintro ⟨⟩
      have hpending' : m'.phase.pending = t :: rest := by rw [hp']; rfl
      have hstep' := Machine.Step.finish hp'
      have hclock := Engine.clock_finish t m'.engine
      refine .ok_bind rfl (.ok_bind rfl ?_)
      refine .after (.single ⟨hidle', .own hstep' fun _ => hclock⟩) (ih ?_ rfl)
      exact ht'.move hstep' (ht'.serves.finish ht'.sound.ledger (b := m'.engine.barrier) hpending')
        (Engine.filterMap_begun_finishNote t _) (by rw [ht'.engine]; rfl)

/-- A tick that has just begun runs to its end. -/
theorem runTick_leads {looped : Bool} (ht : c.Tied m { s with engine := s.engine.beginTick })
    (hp : m.phase = .facing (s.engine.frame looped) .first) :
    c.Leads (Machine.InsideBy ok) (Simulation.runTick run) m s
      fun _ m' => m'.phase = .leave (s.engine.frame looped) := by
  generalize hk : s.engine.frame looped = k at hp ⊢
  have hdeadline : Duration.after s.engine.now s.engine.meter.interval = k.deadline := by
    rw [← hk]
    rfl
  refine .ok_bind rfl (.ok_bind rfl (.ok_bind rfl ?_))
  simp only [hdeadline]
  refine .bind (runBoundary_leads hobeys ht hp) ?_
  intro _ m₁ s₁ ht₁ hp₁
  have hidle₁ : m₁.phase ≠ .idle := by rw [hp₁]; rintro ⟨⟩
  have hlaunch := Machine.Step.launch hp₁
  have hdue := ht₁.move hlaunch (ht₁.serves.launch ht₁.sound _ k) rfl rfl
  have hinside : Machine.InsideBy ok m₁ _ := ⟨hidle₁, .own hlaunch fun _ => rfl⟩
  rw [← ht₁.engine] at hinside hdue
  refine .ok_bind rfl (.after (.single hinside) (.bind (runDue_leads hobeys hdue rfl) ?_))
  intro _ m₂ s₂ ht₂ hp₂
  refine .bind (passBarrier_leads ht₂ hp₂) ?_
  intro passed m₃ s₃ ht₃ hp₃
  cases passed with
  | false => exact .pure ht₃ hp₃
  | true =>
    refine .bind (runBoundary_leads hobeys ht₃ hp₃) ?_
    intro _ m₄ s₄ ht₄ hp₄
    have hidle₄ : m₄.phase ≠ .idle := by rw [hp₄]; rintro ⟨⟩
    have hpark := Machine.Step.park hp₄
    exact .ok_bind rfl (.of_ok rfl (.single ⟨hidle₄, .own hpark fun hne => absurd hp₄ (hne k)⟩)
      (ht₄.move hpark (ht₄.serves.park _ (by rw [hp₄]; simp)) rfl (by rw [ht₄.engine]; rfl)) rfl)

theorem step_runs (ht : c.Tied m s) (hp : m.phase = .idle) (hs : m.engine.state ≠ .stopped) :
    m.Step m.beginStep ∧ c.Leads (Machine.InsideBy ok) (Simulation.step run) m.beginStep s
      fun a m' => a = .ok () ∧ m'.phase = .idle := by
  have hr := ht.sound.control.not_running hp
  have henter := Engine.enter_ticking hs
  have hstep : m.Step m.beginStep := .step hp hr henter
  have hserves : m.beginStep.Serves c.good := ht.serves.same rfl rfl rfl (by rw [hp]; rfl)
  have htick := runTick_leads hobeys (s := { s with engine := { m.engine with state := .ticking } })
    (ht.move hstep hserves rfl rfl) rfl
  refine ⟨hstep, .ok_bind rfl ?_⟩
  simp only [ht.engine, hr, Bool.false_eq_true, if_false]
  refine .ok_bind (Simulation.tryEngine_ok (by rw [ht.engine, henter]; rfl)) (.bind htick ?_)
  exact fun _ _ _ ht' hp' => .pure ht' ⟨rfl, hp'⟩

theorem step_leads (ht : c.Tied m s) (hp : m.phase = .idle) :
    c.Leads (Machine.StepBy ok) (Simulation.step run) m s fun _ m' => m'.phase = .idle := by
  by_cases hs : m.engine.state = .stopped
  · refine .of_ok (Simulation.step_of_stopped ?_ ?_) .refl ht hp
    · rw [ht.engine]
      exact ht.sound.control.not_running hp
    · rw [ht.engine]
      exact hs
  · obtain ⟨hstep, hlead⟩ := step_runs hobeys ht hp hs
    exact .after (.single (.own hstep fun _ => rfl)) (hlead.reaches.mono fun _ _ h => h.2)

theorem stepMany_leads (ht : c.Tied m s) (hp : m.phase = .idle) (n : Nat) :
    c.Leads (Machine.StepBy ok) (Simulation.stepMany run n) m s fun _ m' => m'.phase = .idle := by
  induction n generalizing m s with
  | zero => exact .pure ht hp
  | succ n ih =>
    refine .ok_bind rfl ?_
    split
    · exact .pure ht hp
    · refine .bind (step_leads hobeys ht hp) ?_
      intro a m' s' ht' hp'
      cases a with
      | error error => exact .pure ht' hp'
      | ok => exact ih ht' hp'

theorem stepWhileActive_leads (hfails : c.fails .exhausted) (ht : c.Tied m s) (hp : m.phase = .idle)
    (id : TaskId) (bound : Nat) :
    c.Leads (Machine.StepBy ok) (Simulation.stepWhileActive run id bound) m s
      fun _ m' => m'.phase = .idle := by
  induction bound generalizing m s with
  | zero => exact hfails
  | succ bound ih =>
    refine .ok_bind rfl ?_
    split
    · exact .bind (step_leads hobeys ht hp) fun _ _ _ ht' hp' => ih ht' hp'
    · exact .pure ht hp

theorem loop_leads (hfails : c.fails .exhausted) (ht : c.Tied m s) (hp : m.phase = .between)
    (bound : Nat) :
    c.Leads (Machine.InsideBy ok) (Simulation.loop run bound) m s fun _ m' => m'.phase = .idle := by
  induction bound generalizing m s with
  | zero => exact hfails
  | succ bound ih =>
    have hidle : m.phase ≠ .idle := by rw [hp]; rintro ⟨⟩
    obtain ⟨goes, e, he⟩ : ∃ goes e, m.engine.continues = (goes, e) := ⟨_, _, rfl⟩
    have hact : Simulation.onEngine (μ := μ) (·.continues) s = .ok (goes, { s with engine := e }) := by
      unfold Simulation.onEngine
      simp only [ht.engine, he]
    refine .ok_bind hact ?_
    cases goes with
    | true =>
      have hstep := Machine.Step.again hp he
      obtain ⟨hserves, hclock⟩ : (m.move e.beginTick (.facing (e.frame true) .first) []).Serves c.good ∧
          e.clock = m.engine.clock := by
        obtain ⟨-, -, rfl⟩ := Engine.continues_true he
        exact ⟨ht.serves.same rfl rfl rfl (by rw [hp]; rfl), rfl⟩
      have htick := runTick_leads hobeys (s := { s with engine := e })
        (ht.move hstep hserves rfl rfl) rfl
      exact .after (.single ⟨hidle, .own hstep fun _ => hclock⟩)
        (.bind htick fun _ _ _ ht' hp' => ih ht' hp')
    | false =>
      have hstep := Machine.Step.leave hp he
      obtain ⟨hserves, hclock⟩ : (m.move e .idle []).Serves c.good ∧ e.clock = m.engine.clock := by
        obtain ⟨-, rfl⟩ := Engine.continues_false he
        exact ⟨ht.serves.same rfl rfl rfl (by rw [hp]; rfl), rfl⟩
      exact .of_ok rfl (.single ⟨hidle, .own hstep fun _ => hclock⟩)
        (ht.move hstep hserves rfl rfl) rfl

theorem tick_leads (hfails : c.fails .exhausted) (ht : c.Tied m s) (hp : m.phase = .idle) (bound : Nat) :
    c.Leads (Machine.StepBy ok) (Simulation.tick run bound) m s fun _ m' => m'.phase = .idle := by
  cases hstart : m.engine.start with
  | error error =>
    exact .ok_bind (Simulation.tryEngine_error (by rw [ht.engine]; exact hstart)) (.pure ht hp)
  | ok p =>
    obtain ⟨drives, e⟩ := p
    have hstep := Machine.Step.tick hp hstart
    obtain ⟨hserves, hclock⟩ : (m.move e (if drives then .between else .idle) []).Serves c.good ∧
        e.clock = m.engine.clock := by
      obtain ⟨-, -, _, -, rfl⟩ := Engine.start_ok hstart
      exact ⟨ht.serves.same rfl rfl rfl (by rw [hp]; cases drives <;> rfl), rfl⟩
    have ht' := ht.move hstep hserves rfl rfl
    refine .ok_bind (Simulation.tryEngine_ok (by rw [ht.engine]; exact hstart))
      (.after (.single (.own hstep fun _ => hclock)) ?_)
    cases drives with
    | true =>
      exact .bind (loop_leads hobeys hfails ht' rfl bound).reaches fun _ _ _ ht' hp' => .pure ht' hp'
    | false => exact .pure ht' rfl

end

/-- A step of an engine that is not stopped is a whole tick. -/
theorem step_works {run : Run β μ} (hobeys : c.Obeys run) (ht : c.Tied m s) (hp : m.phase = .idle)
    (hs : m.engine.state ≠ .stopped) :
    m.Step m.beginStep ∧ c.Leads Machine.Inside (Simulation.step run) m.beginStep s
      fun a m' => a = .ok () ∧ m'.phase = .idle :=
  (step_runs hobeys.obeysBy ht hp hs).imp_right fun hlead =>
    hlead.along fun _ _ h => ⟨h.1, h.2.step⟩

end Conduct

end Vivarium
