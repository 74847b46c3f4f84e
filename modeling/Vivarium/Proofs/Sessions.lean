import Vivarium.Proofs.Execution
import Vivarium.Simulation.Program

/-! # Sessions

A session is a program that is run from outside and uses nothing but the engine: it schedules, calls
and ticks. The code that it schedules uses the engine as well, but does not tick. Every session ends
in a machine that some run leads to.
-/

namespace Vivarium

namespace Request

/-- Requests that call the engine or read it. -/
def IsCall : Request → Prop
  | .now | .advance _ | .advanceTo _ | .status | .pause | .stop | .clearBoundary _ | .isFlagged _
  | .cancel _ | .isActive _ | .taskStatus _ => True
  | _ => False

def IsTick : Request → Prop
  | .step | .stepMany _ | .stepWhileActive _ | .tick => True
  | _ => False

def Inside (own : TaskId) (q : Request) : Prop := q.IsCall ∨ q = .flag own

def Outside (q : Request) : Prop := q.IsCall ∨ q.IsTick

/-- The request leaves the clock alone. -/
def IsStill : Request → Prop
  | .advance _ | .advanceTo _ => False
  | _ => True

/-- The call that a request makes. -/
def call? {β : Type} (e : Engine β) : Request → Option (EngineCall β)
  | .advance span => some (.setClock (e.clock.advance span))
  | .advanceTo time => some (.setClock (e.clock.advanceTo time))
  | .pause => some .pause
  | .stop => some .stop
  | .clearBoundary which => some (.setBoundary which none)
  | .flag id => some (.flag id)
  | .cancel id => some (.cancel id)
  | _ => none

end Request

namespace Program

variable {μ : Type}

/-- A program that makes no other requests of its own than these, and schedules only code that keeps
to what code inside a tick may do. -/
def Asks : (Request → Prop) → {r : Role} → Program μ r → Prop
  | _, _, .done _ => True
  | may, _, .request q next => may q ∧ ∀ a, (next a).Asks may
  | may, _, .memory _ next => ∀ m, (next m).Asks may
  | may, _, .schedule owner _ code _ _ next =>
    owner = .nobody ∧ (∀ x : TaskContext, (code (.task x)).Asks (Request.Inside x.id)) ∧
      ∀ a, (next a).Asks may
  | may, _, .setBoundary _ code next =>
    (∀ x : TaskContext, (code (.task x)).Asks (Request.Inside x.id)) ∧ next.Asks may
  | _, _, .subscribe _ _ _ _ => False
  | _, _, .subscribeTo _ _ _ _ _ => False

/-- Neither the program nor code for tasks that it passes on moves the clock. -/
def Still : {r : Role} → Program μ r → Prop
  | _, .request q next => q.IsStill ∧ ∀ a, (next a).Still
  | _, .memory _ next => ∀ m, (next m).Still
  | _, .schedule _ _ code _ _ next =>
    (∀ x : TaskContext, (code (.task x)).Still) ∧ ∀ a, (next a).Still
  | _, .setBoundary _ code next => (∀ x : TaskContext, (code (.task x)).Still) ∧ next.Still
  | _, _ => True

end Program

namespace Code

variable {μ : Type}

def IsBody (code : Code μ) : Prop :=
  ∀ x : TaskContext, (code (.task x)).Asks (Request.Inside x.id)

/-- The conduct of bodies that are programs. They break off only when they nest too deep. -/
def conduct (μ : Type) : Conduct (Code μ) μ where
  good := IsBody
  seen _ _ := True
  fails why := why = .exhausted

def IsStill (code : Code μ) : Prop := ∀ x : TaskContext, (code (.task x)).Still

/-- The conduct of bodies that are programs, and leave the clock alone if they have to. -/
def keeping (strict : Prop) (μ : Type) : Conduct (Code μ) μ :=
  { conduct μ with good code := IsBody code ∧ (strict → IsStill code) }

/-- The conduct of bodies that never break off. -/
def total (μ : Type) : Conduct (Code μ) μ := { conduct μ with fails _ := False }

end Code

namespace Simulation

variable {β μ : Type} {run : Run β μ} {bound : Nat} {s : Simulation β μ}

theorem answer_pause :
    ∃ a, answer run bound .pause s =
      .ok (a, { s with engine := EngineCall.effect s.engine .pause }) := by
  simp only [EngineCall.effect]
  cases hp : s.engine.pause with
  | error error => exact ⟨_, tryEngine_error (by rw [hp]; rfl)⟩
  | ok e => exact ⟨_, tryEngine_ok (by rw [hp]; rfl)⟩

theorem answer_call (run : Run β μ) (bound : Nat) (s : Simulation β μ) {own : TaskId} {q : Request}
    (hq : q.Inside own) :
    ∃ a, answer run bound q s =
      .ok (a, { s with engine := EngineCall.effects (q.call? s.engine).toList s.engine }) := by
  rcases hq with hq | rfl
  · cases q with
    | pause => exact answer_pause
    | now | advance | advanceTo | status | stop | clearBoundary | isFlagged | cancel | isActive
    | taskStatus => exact ⟨_, rfl⟩
    | _ => exact hq.elim
  · exact ⟨_, rfl⟩

theorem schedule_nobody_eq (job : Job β) (delay period : Nat) :
    schedule .nobody job delay period s =
      (tryEngine (fun e => e.schedule job delay period) >>= fun answer =>
        match answer with
        | .error error => return .error error
        | .ok id => do
          let e ← ask (·.engine)
          changeTracker .nobody (·.trackPruned (fun id => e.isActive id) id)
          return .ok id) s := rfl

theorem schedule_nobody_error {job : Job β} {delay period : Nat} {error : EngineError}
    (h : s.engine.schedule job delay period = .error error) :
    schedule .nobody job delay period s = .ok (.error error, s) :=
  (schedule_nobody_eq job delay period).trans (bind_of_ok (tryEngine_error h))

theorem schedule_nobody_ok {job : Job β} {delay period : Nat} {id : TaskId} {e : Engine (Job β)}
    (h : s.engine.schedule job delay period = .ok (id, e)) :
    schedule .nobody job delay period s = .ok (.ok id, { s with engine := e }) :=
  (schedule_nobody_eq job delay period).trans (bind_of_ok (tryEngine_ok h))

theorem schedule_nobody (job : Job β) (delay period : Nat) :
    ∃ a, schedule .nobody job delay period s =
      .ok (a, { s with engine := EngineCall.effect s.engine (.schedule job delay period) }) := by
  simp only [EngineCall.effect]
  cases hs : s.engine.schedule job delay period with
  | error error => exact ⟨.error error, schedule_nobody_error hs⟩
  | ok p => exact ⟨.ok p.1, schedule_nobody_ok hs⟩

end Simulation

namespace Program

variable {μ : Type}

theorem fit_of_inside {good : Code μ → Prop} {own : TaskId} {q : Request} (hq : q.Inside own)
    (e : Engine (Job (Code μ))) (call : EngineCall (Job (Code μ))) (hc : call ∈ (q.call? e).toList) :
    call.IsFit good own := by
  rw [Option.mem_toList] at hc
  rcases hq with hq | rfl
  · cases q with
    | flag => exact hq.elim
    | advance | advanceTo | pause | stop | clearBoundary | cancel =>
      cases hc
      trivial
    | _ => cases hc
  · cases hc
    rfl

theorem still_of_call {q : Request} (hq : q.IsStill) (e : Engine (Job (Code μ)))
    (call : EngineCall (Job (Code μ))) (hc : call ∈ (q.call? e).toList) : call.isStill = true := by
  rw [Option.mem_toList] at hc
  cases q with
  | advance | advanceTo => exact hq.elim
  | pause | stop | clearBoundary | flag | cancel =>
    cases hc
    rfl
  | _ => cases hc

/-- A body always ends, and has acted on the engine by fit calls only. -/
theorem exec_inside (strict : Prop) (run : Run (Code μ) μ) (bound : Nat) {r : Role} (p : Program μ r)
    {own : TaskId} (hp : p.Asks (Request.Inside own)) (hstill : strict → p.Still)
    (s : Simulation (Code μ) μ) :
    ∃ a s' calls, p.exec run bound s = .ok (a, s') ∧
      (∀ call ∈ calls, EngineCall.IsFit (Code.keeping strict μ).good own call ∧
        (strict → call.isStill = true)) ∧ s'.engine = EngineCall.effects calls s.engine := by
  induction p generalizing s with
  | done answer => exact ⟨answer, s, [], rfl, by rintro _ ⟨⟩, rfl⟩
  | request q next ih =>
    obtain ⟨hq, hnext⟩ := hp
    obtain ⟨a, ha⟩ := Simulation.answer_call run bound s hq
    obtain ⟨b, s', calls, hexec, hfit, hengine⟩ := ih a (hnext a) (fun h => (hstill h).2 a) _
    refine ⟨b, s', (q.call? s.engine).toList ++ calls, ?_, ?_, ?_⟩
    · exact (Simulation.bind_of_ok ha).trans hexec
    · intro call hc
      rcases List.mem_append.mp hc with hc | hc
      · exact ⟨fit_of_inside hq s.engine call hc, fun h => still_of_call (hstill h).1 s.engine call hc⟩
      · exact hfit call hc
    · rw [hengine, EngineCall.effects, EngineCall.effects, EngineCall.effects, List.foldl_append]
  | memory change next ih =>
    obtain ⟨b, s', calls, hexec, hfit, hengine⟩ := ih s.memory (hp s.memory)
      (fun h => hstill h s.memory) { s with memory := change s.memory }
    exact ⟨b, s', calls, hexec, hfit, hengine⟩
  | schedule owner actor code delay period next _ ih =>
    obtain ⟨rfl, hcode, hnext⟩ := hp
    obtain ⟨a, ha⟩ := Simulation.schedule_nobody (s := s) ⟨code, actor⟩ delay period
    obtain ⟨b, s', calls, hexec, hfit, hengine⟩ := ih a (hnext a) (fun h => (hstill h).2 a)
      { s with engine := EngineCall.effect s.engine (.schedule ⟨code, actor⟩ delay period) }
    refine ⟨b, s', .schedule ⟨code, actor⟩ delay period :: calls, ?_, ?_, hengine⟩
    · exact (Simulation.bind_of_ok ha).trans hexec
    · exact List.forall_mem_cons.mpr ⟨⟨⟨hcode, fun h => (hstill h).1⟩, fun _ => rfl⟩, hfit⟩
  | setBoundary which code next _ ih =>
    obtain ⟨hcode, hnext⟩ := hp
    obtain ⟨b, s', calls, hexec, hfit, hengine⟩ := ih hnext (fun h => (hstill h).2)
      { s with engine := s.engine.setBoundary which (some ⟨code, .nobody⟩) }
    refine ⟨b, s', .setBoundary which (some ⟨code, .nobody⟩) :: calls, hexec, ?_, hengine⟩
    exact List.forall_mem_cons.mpr ⟨⟨⟨hcode, fun h => (hstill h).1⟩, fun _ => rfl⟩, hfit⟩
  | subscribe => exact hp.elim
  | subscribeTo => exact hp.elim

end Program

namespace Code

variable {μ : Type}

theorem keeping_obeys (strict : Prop) (bound : Nat) :
    (keeping strict μ).ObeysBy (fun call => strict → call.isStill = true) (Simulation.runCode bound) := by
  intro x code s hgood
  cases bound with
  | zero => exact rfl
  | succ bound =>
    obtain ⟨a, s', calls, hexec, hfit, hengine⟩ := Program.exec_inside strict
      (Simulation.runCode bound) bound _ (hgood.1 x) (fun h => hgood.2 h x) s
    have hrun : Simulation.runCode (bound + 1) (.task x) code s = .ok (a, s') := hexec
    rw [hrun]
    exact ⟨fun _ _ => trivial, calls, hfit, hengine⟩

theorem conduct_obeys (bound : Nat) : (conduct μ).Obeys (Simulation.runCode bound) := by
  intro x code s hgood
  have hkeeps := keeping_obeys (μ := μ) False bound x code s ⟨hgood, False.elim⟩
  split at hkeeps
  · exact hkeeps
  · obtain ⟨hsees, calls, hfit, hengine⟩ := hkeeps
    exact ⟨hsees, calls, fun call hcall => (hfit call hcall).1.mono fun _ h => h.1, hengine⟩

/-- Bodies that start no tick do not nest, so one level is enough for all of them. -/
theorem total_obeys (bound : Nat) : (total μ).Obeys (Simulation.runCode (bound + 1)) := by
  intro x code s hgood
  have hbody := conduct_obeys (μ := μ) (bound + 1) x code s hgood
  obtain ⟨a, s', calls, hexec, -, -⟩ :=
    Program.exec_inside False (Simulation.runCode bound) bound _ (hgood x) False.elim s
  have hrun : Simulation.runCode (bound + 1) (.task x) code s = .ok (a, s') := hexec
  rw [hrun] at hbody ⊢
  exact hbody

end Code

/-! ## Sessions lead where the machine goes -/

namespace Program

variable {μ : Type} {strict : Prop} {m : Machine (Job (Code μ))} {s : Simulation (Code μ) μ} {bound : Nat}

theorem allows_of_isCall {q : Request} (hq : q.IsCall) {e : Engine (Job (Code μ))}
    {call : EngineCall (Job (Code μ))} (hc : q.call? e = some call) : m.Allows call := by
  cases q with
  | flag => exact hq.elim
  | advance | advanceTo | pause | stop | clearBoundary | cancel =>
    cases hc
    trivial
  | _ => cases hc

theorem tick_leads {q : Request} (hq : q.IsTick) (ht : (Code.keeping strict μ).Tied m s)
    (hp : m.phase = .idle) :
    (Code.keeping strict μ).Leads (Machine.StepBy fun call => strict → call.isStill = true)
      (Simulation.answer (Simulation.runCode bound) bound q) m s fun _ m' => m'.phase = .idle := by
  have hobeys := Code.keeping_obeys (μ := μ) strict bound
  cases q with
  | step => exact Conduct.step_leads hobeys ht hp
  | stepMany n => exact Conduct.stepMany_leads hobeys ht hp n
  | stepWhileActive id => exact Conduct.stepWhileActive_leads hobeys rfl ht hp id bound
  | tick => exact Conduct.tick_leads hobeys rfl ht hp bound
  | _ => exact hq.elim

/-- A call from outside, between two operations. -/
theorem call_tied (ht : (Code.keeping strict μ).Tied m s) (hp : m.phase = .idle)
    (call : EngineCall (Job (Code μ))) (hallow : m.Allows call) (own : TaskId)
    (hfit : call.IsFit (Code.keeping strict μ).good own) (hstill : strict → call.isStill = true) :
    ∃ m', m.StepBy (fun call => strict → call.isStill = true) m' ∧ m'.phase = .idle ∧
      (Code.keeping strict μ).Tied m' { s with engine := call.effect s.engine } := by
  have hlistens : m.phase.listens = true := by rw [hp]; rfl
  rw [ht.engine]
  exact ⟨_, .call call hlistens hallow hstill, hp, ht.call hlistens hallow hfit⟩

theorem exec_outside (bound : Nat) {r : Role} (p : Program μ r) (hasks : p.Asks Request.Outside)
    (hstill : strict → p.Still) (ht : (Code.keeping strict μ).Tied m s) (hp : m.phase = .idle) :
    (Code.keeping strict μ).Leads (Machine.StepBy fun call => strict → call.isStill = true)
      (p.exec (Simulation.runCode bound) bound) m s fun _ m' => m'.phase = .idle := by
  induction p generalizing m s with
  | done answer => exact .pure ht hp
  | request q next ih =>
    obtain ⟨hq, hnext⟩ := hasks
    have hnextStill : ∀ a, strict → (next a).Still := fun a h => (hstill h).2 a
    rcases hq with hq | hq
    · have hinside : q.Inside ⟨0⟩ := Or.inl hq
      obtain ⟨a, ha⟩ := Simulation.answer_call (Simulation.runCode bound) bound s hinside
      refine .ok_bind ha ?_
      cases hc : q.call? s.engine with
      | none => exact ih a (hnext a) (hnextStill a) ht hp
      | some call =>
        have hmem := Option.mem_toList.mpr hc
        obtain ⟨m', hstep, hp', ht'⟩ := call_tied ht hp call (allows_of_isCall hq hc) ⟨0⟩
          (fit_of_inside hinside s.engine call hmem)
          fun h => still_of_call (hstill h).1 s.engine call hmem
        exact .after (.single hstep) (ih a (hnext a) (hnextStill a) ht' hp')
    · exact .bind (tick_leads hq ht hp) fun a _ _ ht' hp' => ih a (hnext a) (hnextStill a) ht' hp'
  | memory change next ih =>
    exact .ok_bind rfl (ih s.memory (hasks s.memory) (fun h => hstill h s.memory)
      ⟨ht.sound, ht.serves, ht.engine, trivial⟩ hp)
  | schedule owner actor code delay period next _ ih =>
    obtain ⟨rfl, hcode, hnext⟩ := hasks
    obtain ⟨a, ha⟩ := Simulation.schedule_nobody (s := s) ⟨code, actor⟩ delay period
    obtain ⟨m', hstep, hp', ht'⟩ := call_tied ht hp (.schedule ⟨code, actor⟩ delay period) trivial ⟨0⟩
      ⟨hcode, fun h => (hstill h).1⟩ fun _ => rfl
    exact .ok_bind ha (.after (.single hstep) (ih a (hnext a) (fun h => (hstill h).2 a) ht' hp'))
  | setBoundary which code next _ ih =>
    obtain ⟨hcode, hnext⟩ := hasks
    obtain ⟨m', hstep, hp', ht'⟩ := call_tied ht hp (.setBoundary which (some ⟨code, .nobody⟩)) trivial
      ⟨0⟩ ⟨hcode, fun h => (hstill h).1⟩ fun _ => rfl
    exact .ok_bind rfl (.after (.single hstep) (ih hnext (fun h => (hstill h).2) ht' hp'))
  | subscribe => exact hasks.elim
  | subscribeTo => exact hasks.elim

end Program

namespace Simulation

variable {μ : Type}

/-- A new simulation, whatever else it has, and a session that has come to its end. -/
def Ends (s : Simulation (Code μ) μ) : Prop :=
  ∃ (config : EngineConfig) (e : Engine (Job (Code μ))) (s₀ : Simulation (Code μ) μ) (bound : Nat)
      (r : Role) (p : Program μ r) (a : r.Answer),
    Engine.create config = .ok e ∧ s₀.engine = e ∧ p.Asks Request.Outside ∧
      execute bound p s₀ = .ok (a, s)

theorem tied_initial (strict : Prop) {config : EngineConfig} {e : Engine (Job (Code μ))}
    {s₀ : Simulation (Code μ) μ} (he : Engine.create config = .ok e) (hs₀ : s₀.engine = e) :
    (Code.keeping strict μ).Tied { engine := e } s₀ := by
  refine ⟨.initial he, ?_, hs₀, trivial⟩
  obtain ⟨-, rfl⟩ := Engine.create_ok he
  refine ⟨by rintro _ ⟨⟩, by rintro _ ⟨⟩, fun which t ht => ?_⟩
  cases which <;> cases ht

/-- Where a session ends some run of the machine ends too. -/
theorem Ends.tied {s : Simulation (Code μ) μ} (h : s.Ends) :
    ∃ m : Machine (Job (Code μ)), m.Reachable ∧ m.phase = .idle ∧ (Code.conduct μ).Tied m s := by
  obtain ⟨config, e, s₀, bound, r, p, a, he, hs₀, hasks, hexec⟩ := h
  have hlead := Program.exec_outside bound p hasks False.elim (tied_initial False he hs₀) rfl
  obtain ⟨m, hreach, ht, hp⟩ := hlead.of_run hexec
  have hserves : m.Serves Code.IsBody := ht.serves.mono fun _ h => h.1
  exact ⟨m, ⟨config, e, he, Relation.ReflTransGen.mono (fun _ _ h => h.step) _ _ hreach⟩, hp,
    ⟨ht.sound, hserves, ht.engine, trivial⟩⟩

theorem Ends.reachable {s : Simulation (Code μ) μ} (h : s.Ends) :
    ∃ m : Machine (Job (Code μ)), m.Reachable ∧ m.phase = .idle ∧ m.engine = s.engine := by
  obtain ⟨m, hm, hp, ht⟩ := h.tied
  exact ⟨m, hm, hp, ht.engine.symm⟩

end Simulation

end Vivarium
