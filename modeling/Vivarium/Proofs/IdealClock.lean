import Vivarium.Proofs.Cadence
import Vivarium.Proofs.Synchrony

/-! # The rate that is measured

An engine is stepped, and nothing but the ends of its ticks moves the clock: bodies leave the clock
alone and neither pause nor stop the engine. What the engine says that its rate is depends only on how
often it was stepped and on the rate that it was asked for.
-/

namespace Vivarium

namespace Request

/-- The request begins no tick of the engine as it is, and leaves its clock where it stands. -/
def isAside {β : Type} (q : Request) (e : Engine β) : Bool :=
  !q.begins e && (q.call? e).all fun c => (c.effect e).now == e.now

/-- The request neither pauses nor stops the engine, either. -/
def isWork {β : Type} : Request → Engine β → Bool
  | .pause, _ | .stop, _ => false
  | q, e => q.isAside e

variable {β : Type} {q : Request} {e : Engine β} {c : EngineCall β}

theorem isAside_of_isWork (h : q.isWork e = true) : q.isAside e = true := by
  cases q with
  | pause | stop => cases h
  | _ => exact h

theorem begins_of_isAside (h : q.isAside e = true) : q.begins e = false := by
  rw [isAside, Bool.and_eq_true, Bool.not_eq_true'] at h
  exact h.1

theorem now_of_isAside (h : q.isAside e = true) (hc : q.call? e = some c) : (c.effect e).now = e.now := by
  rw [isAside, hc, Bool.and_eq_true] at h
  exact beq_iff_eq.mp h.2

theorem atOnce_of_isWork (h : q.isWork e = true) (hc : q.call? e = some c) : c.atOnce = true := by
  cases q with
  | pause | stop => cases h
  | advance | advanceTo | clearBoundary | flag | cancel =>
    cases hc
    rfl
  | _ => cases hc

end Request

theorem EngineCall.now_of_isWork {β : Type} {c : EngineCall β} (h : c.isWork = true) (e : Engine β) :
    (c.effect e).now = e.now := by
  have hstill : c.isStill = true := by
    cases c with
    | setClock => cases h
    | _ => rfl
  exact congrArg Clock.now (clock_effect hstill e)

theorem EngineCall.atOnce_of_isWork {β : Type} {c : EngineCall β} (h : c.isWork = true) :
    c.atOnce = true := by
  cases c with
  | pause | stop => cases h
  | _ => rfl

open TickMeter

namespace Engine

variable {β : Type} {rate n now : Nat} {m : TickMeter} {e : Engine β}

/-- In a tick that began at `now`, or is about to. -/
structure InTick (now : Nat) (m : TickMeter) (e : Engine β) : Prop where
  now : e.now = now
  meter : e.meter = m
  state : e.state = .ticking
  running : e.running = false
  loopless : e.loopAlive = false
  unbroken : e.barrier.terminated = false

namespace InTick

theorem of_same {e' : Engine β} (h : e.InTick now m) (hnow : e'.now = e.now)
    (hmeter : e'.meter = e.meter) (hsame : SameControl e e') : e'.InTick now m where
  now := hnow.trans h.now
  meter := hmeter.trans h.meter
  state := hsame.state.trans h.state
  running := hsame.running.trans h.running
  loopless := hsame.loopAlive.trans h.loopless
  unbroken := (congrArg (·.terminated) hsame.barrier).trans h.unbroken

theorem call (h : e.InTick now m) {c : EngineCall β} (hnow : (c.effect e).now = e.now)
    (hc : c.atOnce = true) : (c.effect e).InTick now m :=
  h.of_same hnow (c.meter_effect e) (.effect hc e)

theorem enduring : Enduring (InTick (β := β) now m) := by
  intro e c hc h
  exact h.call (EngineCall.now_of_isWork hc e) (EngineCall.atOnce_of_isWork hc)

theorem settleBoundary (h : e.InTick now m) (which : Boundary) (t : Task β) :
    (e.settleBoundary which t).InTick now m :=
  h.of_same (congrArg Clock.now (clock_settleBoundary which t e)) (meter_settleBoundary which t e)
    (.settleBoundary which t e)

theorem complete (h : e.InTick now m) (t : Task β) : (e.complete t).InTick now m := by
  rw [complete_eq]
  exact ⟨h.now, h.meter, h.state, h.running, h.loopless, h.unbroken⟩

theorem launch (h : e.InTick now m) (bound : Nat) : (e.launch bound).2.InTick now m :=
  ⟨h.now, h.meter, h.state, h.running, h.loopless, h.unbroken⟩

end InTick

/-- Between two ticks on an ideal clock, `n` of which there have been. -/
structure Resting (rate n : Nat) (e : Engine β) : Prop where
  running : e.running = false
  loopless : e.loopAlive = false
  halted : e.barrier.terminated = true → e.state = .stopped
  cadence : Cadence rate n e.now e.meter

theorem Resting.create {config : EngineConfig} (h : Engine.create config = .ok e) :
    e.Resting config.ticksPerSecond 0 := by
  obtain ⟨-, rfl⟩ := create_ok h
  refine ⟨rfl, rfl, by rintro ⟨⟩, rfl, ?_, Or.inl ⟨rfl, rfl, rfl, rfl⟩⟩
  rw [if_pos (Nat.zero_le _)]

theorem Resting.call (h : e.Resting rate n) {c : EngineCall β} (hnow : (c.effect e).now = e.now) :
    (c.effect e).Resting rate n := by
  have hcadence : Cadence rate n (c.effect e).now (c.effect e).meter := by
    rw [hnow, c.meter_effect]
    exact h.cadence
  cases hat : c.atOnce with
  | true =>
    have hsame := SameControl.effect hat e
    refine ⟨hsame.running.trans h.running, hsame.loopAlive.trans h.loopless, ?_, hcadence⟩
    rw [hsame.barrier, hsame.state]
    exact h.halted
  | false =>
    cases c with
    | pause =>
      rcases effect_pause e with heq | ⟨hlive, heq⟩ <;> rw [heq] at hcadence ⊢
      · exact h
      · exact ⟨rfl, h.loopless, fun hbroken => absurd (h.halted hbroken) hlive, hcadence⟩
    | stop =>
      by_cases hs : e.state = .stopped
      · rw [EngineCall.effect, stop_of_stopped hs] at hcadence ⊢
        exact ⟨rfl, h.loopless, fun _ => hs, hcadence⟩
      · rw [EngineCall.effect, (stop_of_live hs).2] at hcadence ⊢
        exact ⟨rfl, h.loopless, fun _ => rfl, hcadence⟩
    | _ => cases hat

theorem Resting.unbroken (h : e.Resting rate n) (hs : e.state ≠ .stopped) :
    e.barrier.terminated = false := Bool.eq_false_iff.mpr fun hbroken => hs (h.halted hbroken)

theorem InTick.park (h : e.InTick now (m.beginTick now).endTick) (hm : Cadence rate n now m) :
    (e.park (Duration.after now (EngineConfig.tickInterval rate))).Resting rate (n + 1) := by
  obtain ⟨rfl, hmeter, hstate, hrunning, hloopless, hunbroken⟩ := h
  rcases park_cases (Duration.after e.now (EngineConfig.tickInterval rate)) e with
    ⟨-, heq⟩ | ⟨hidle, -⟩
  · rw [heq]
    refine ⟨hrunning, hloopless, fun hbroken => absurd hbroken (by rw [hunbroken]; decide), ?_⟩
    have hpark := e.clock.now_park rate
    change Cadence rate (n + 1) (e.clock.parkUntil _).now e.meter
    rw [hmeter]
    exact hpark ▸ hm.tick e.clock.now_lt
  · rw [hstate] at hidle
    cases hidle

end Engine

namespace Simulation

variable {β μ α : Type} {rate n now : Nat} {m : TickMeter} {Q : Engine (Job β) → Prop}
  {fails : Halt → Prop} {run : Run β μ} {s s' : Simulation β μ}

def restOfTick (run : Run β μ) (deadline : Nat) : Act β μ Unit := do
  runBoundary run .first
  let due ← onEngine (·.launch deadline)
  runDue run due
  if ← passBarrier then closeTick run deadline

theorem runTick_begun (run : Run β μ) (s : Simulation β μ) : runTick run s =
    restOfTick run (Duration.after s.engine.now s.engine.meter.interval)
      { s with engine := s.engine.beginTick } := by
  unfold runTick
  rw [bind_of_ok rfl, bind_of_ok rfl, bind_of_ok rfl]
  rfl

namespace Carries

variable (hrun : ∀ now m, RunCarries (Engine.InTick now m) fails run)

include hrun

theorem runTurns (ts : List (Task (Job β))) :
    Carries (Engine.InTick now m) (Engine.InTick now m) fails (Simulation.runDue run ts) :=
  .runDue (hrun now m) (fun _ h => ⟨h.now, h.meter, h.state, h.running, h.loopless, h.unbroken⟩)
    (fun t _ h => h.complete t) (fun _ h => ⟨h.now, h.meter, h.state, h.running, h.loopless, h.unbroken⟩) ts

theorem runAction (which : Boundary) :
    Carries (Engine.InTick now m) (Engine.InTick now m) fails (Simulation.runBoundary run which) :=
  .runBoundary (hrun now m) (fun which t _ h => h.settleBoundary which t) which

theorem closeOnTime (hm : Cadence rate n now m) :
    Carries (Engine.InTick now (m.beginTick now)) (Engine.Resting rate (n + 1)) fails
      (Simulation.closeTick run (Duration.after now (EngineConfig.tickInterval rate))) := by
  have hended : ∀ e : Engine (Job β), e.InTick now (m.beginTick now) →
      Engine.InTick now (m.beginTick now).endTick { e with meter := e.meter.endTick } :=
    fun _ h => ⟨h.now, congrArg endTick h.meter, h.state, h.running, h.loopless, h.unbroken⟩
  refine .bind (.runAction hrun .last) fun _ => .bind (.changeEngine hended) fun _ => ?_
  exact .changeEngine fun _ h => h.park hm

omit hrun in
/-- A barrier that is not terminated lets the tick pass, if it lets anybody. -/
theorem passOpen (hheld : fails .deadlock) {next : Bool → Act β μ α}
    (hnext : Carries (Engine.InTick now m) Q fails (next true)) :
    Carries (Engine.InTick now m) Q fails (Simulation.passBarrier >>= next) := by
  intro s hs
  cases hb : s.engine.barrier.await? with
  | none =>
    rw [bind_of_error (passBarrier_of_held hb)]
    exact hheld
  | some p =>
    obtain ⟨passed, b⟩ := p
    rw [bind_of_ok (passBarrier_of_await hb)]
    cases passed with
    | true =>
      obtain ⟨hopen, rfl⟩ := TickBarrier.await?_true hb
      exact hnext _ ⟨hs.now, hs.meter, hs.state, hs.running, hs.loopless, hs.unbroken⟩
    | false =>
      have hbroken := (TickBarrier.await?_false hb).1
      rw [hs.unbroken] at hbroken
      cases hbroken

theorem restOfTick (hheld : fails .deadlock) (hm : Cadence rate n now m) :
    Carries (Engine.InTick now (m.beginTick now)) (Engine.Resting rate (n + 1)) fails
      (Simulation.restOfTick run (Duration.after now (EngineConfig.tickInterval rate))) := by
  refine .bind (.runAction hrun .first) fun _ => ?_
  refine .bind (.onEngine fun _ h => h.launch _) fun due => ?_
  refine .bind (.runTurns hrun due) fun _ => .passOpen hheld ?_
  rw [if_pos rfl]
  exact .closeOnTime hrun hm

end Carries

theorem live_of_step (hr : s.engine.running = false) (hact : step run s = .ok (.ok (), s')) :
    s.engine.state ≠ .stopped := by
  intro hs
  rw [step_of_stopped hr hs] at hact
  cases hact

theorem eq_of_step_error {error : EngineError} (hr : s.engine.running = false)
    (hact : step run s = .ok (.error error, s')) : s' = s := by
  by_cases hs : s.engine.state = .stopped
  · rw [step_of_stopped hr hs] at hact
    cases hact
    rfl
  · rw [step_of_live hr hs] at hact
    obtain ⟨_, _, -, hanswer⟩ := bind_ok hact
    cases hanswer

theorem step_rests (hrun : ∀ now m, RunCarries (Engine.InTick now m) fails run) (hheld : fails .deadlock)
    (hs : s.engine.Resting rate n) (hlive : s.engine.state ≠ .stopped) :
    Lands (Engine.Resting rate (n + 1)) fails (step run s) := by
  have hdeadline : Duration.after s.engine.now s.engine.meter.interval =
      Duration.after s.engine.now (EngineConfig.tickInterval rate) := by
    rw [interval, hs.cadence.asked]
  rw [step_of_live hs.running hlive]
  refine Lands.bind ?_ fun _ => .pure _
  rw [runTick_begun]
  change Lands _ _ (restOfTick run (Duration.after s.engine.now s.engine.meter.interval) _)
  rw [hdeadline]
  exact Carries.restOfTick hrun hheld hs.cadence _ ⟨rfl, rfl, rfl, hs.running, hs.loopless, hs.unbroken hlive⟩

end Simulation

/-! ## Steps on an ideal clock -/

namespace Simulation

variable {μ : Type} {config : EngineConfig} {n bound : Nat} {s s' : Simulation (Code μ) μ}

section

variable {P : Engine (Job (Code μ)) → Prop} {fails : Halt → Prop}
  {may : Request → Engine (Job (Code μ)) → Bool} (hP : Engine.Enduring P) (hdeep : fails .exhausted)
  (hloopless : ∀ e, P e → e.loopAlive = false)
  (hmay : ∀ q e, may q e = true → P e →
    q.begins e = false ∧ ∀ c, q.call? e = some c → P (c.effect e))

include hP hdeep hloopless hmay

theorem execWhere_keeps_calls {run : Run (Code μ) μ} (hrun : RunCarries P fails run) (bound : Nat) {r : Role}
    (p : Program μ r) : Carries P P fails (p.execWhere may run bound) := by
  refine execWhere_keeps hP hdeep (fun q s hq hs => ?_) p
  obtain ⟨hbegins, hcall⟩ := hmay q s.engine hq hs
  by_cases htick : q.IsTick
  · refine answer_begins_none htick hbegins hs (fun e hstart => ?_) hdeep
    have hdrives := (Engine.start_ok hstart).2.1
    rw [hloopless s.engine hs] at hdrives
    cases hdrives
  · exact answer_keeps hrun hP hdeep bound htick hs hcall

theorem runWhere_keeps (bound : Nat) : RunCarries P fails (runWhere may bound) := by
  induction bound with
  | zero => exact fun _ _ => .halt hdeep
  | succ bound ih => exact fun o code => execWhere_keeps_calls hP hdeep hloopless hmay ih bound (code o)

theorem executeWhere_keeps (bound : Nat) {r : Role} (p : Program μ r) :
    Carries P P fails (executeWhere may bound p) :=
  execWhere_keeps_calls hP hdeep hloopless hmay (runWhere_keeps hP hdeep hloopless hmay bound) bound p

end

/-- A simulation whose new engine was stepped `n` times, whatever else it has. Programs that are run
between the steps leave the clock alone, and the code that is run in a step neither pauses nor stops the
engine, either. A stopped engine refuses to step. -/
inductive Stepped (config : EngineConfig) : Nat → Simulation (Code μ) μ → Prop
  | new {s : Simulation (Code μ) μ} (h : Engine.create config = .ok s.engine) : Stepped config 0 s
  | run {n bound : Nat} {s s' : Simulation (Code μ) μ} {r : Role} {p : Program μ r} {a : r.Answer}
      (h : Stepped config n s) (hact : executeWhere Request.isAside bound p s = .ok (a, s')) :
      Stepped config n s'
  | step {n bound : Nat} {s s' : Simulation (Code μ) μ} (h : Stepped config n s)
      (hact : step (runWhere Request.isWork bound) s = .ok (.ok (), s')) : Stepped config (n + 1) s'
  | refused {n bound : Nat} {s s' : Simulation (Code μ) μ} {error : EngineError} (h : Stepped config n s)
      (hact : step (runWhere Request.isWork bound) s = .ok (.error error, s')) : Stepped config n s'

theorem work_keeps_inTick (bound now : Nat) (m : TickMeter) :
    RunCarries (Engine.InTick now m) (fun _ => True) (runWhere (μ := μ) Request.isWork bound) := by
  refine runWhere_keeps Engine.InTick.enduring trivial (fun _ h => h.loopless) (fun q e hq he => ?_) bound
  have haside := Request.isAside_of_isWork hq
  refine ⟨Request.begins_of_isAside haside, fun c hc => ?_⟩
  exact he.call (Request.now_of_isAside haside hc) (Request.atOnce_of_isWork hq hc)

theorem aside_keeps_resting (rate n bound : Nat) {r : Role} (p : Program μ r) :
    Carries (Engine.Resting rate n) (Engine.Resting rate n) (fun _ => True)
      (executeWhere Request.isAside bound p) := by
  refine executeWhere_keeps (fun e c hc he => ?_) trivial (fun _ h => h.loopless) (fun q e hq he => ?_)
    bound p
  · exact he.call (EngineCall.now_of_isWork hc e)
  · exact ⟨Request.begins_of_isAside hq, fun c hc => he.call (Request.now_of_isAside hq hc)⟩

theorem Stepped.valid (h : s.Stepped config n) : config.validate = .ok () := by
  induction h with
  | new h => exact (Engine.create_ok h).1
  | run _ _ ih | step _ _ ih | refused _ _ ih => exact ih

theorem Stepped.resting (h : s.Stepped config n) : s.engine.Resting config.ticksPerSecond n := by
  induction h with
  | new h => exact .create h
  | run _ hact ih => exact (aside_keeps_resting _ _ _ _).of_ok ih hact
  | @step n bound s s' _ hact ih =>
    have hlands := step_rests (work_keeps_inTick bound) trivial ih (live_of_step ih.running hact)
    rwa [hact] at hlands
  | refused _ hact ih =>
    rw [eq_of_step_error ih.running hact]
    exact ih

theorem Stepped.many (h : s.Stepped config n) {k : Nat}
    (hact : stepMany (runWhere Request.isWork bound) k s = .ok (.ok (), s')) :
    s'.Stepped config (n + k) := by
  induction k generalizing n s with
  | zero =>
    cases hact
    exact h
  | succ k ih =>
    by_cases hs : s.engine.state = .stopped
    · rw [stepMany_of_stopped hs] at hact
      cases hact
    · rw [stepMany] at hact
      obtain ⟨state, s₁, hask, hact⟩ := bind_ok hact
      cases hask
      rw [if_neg hs] at hact
      obtain ⟨a, s₂, hstep, hact⟩ := bind_ok hact
      cases a with
      | error error => cases hact
      | ok u =>
        rw [Nat.add_comm k 1, ← Nat.add_assoc]
        exact ih (h.step hstep) hact

/-- It is a step of the engine with all of its code, of which the code that is run is a part. -/
theorem step_of_work {a : Except EngineError Unit}
    (hact : Simulation.step (runWhere Request.isWork bound) s = .ok (a, s')) :
    Simulation.step (runCode bound) s = .ok (a, s') := by
  have hfollows : RunFollows (fun _ => True) (runWhere (μ := μ) Request.isWork bound) (runCode bound) :=
    runWhere_follows trivial trivial (fun _ _ _ => trivial) bound
  exact (Follows.step trivial hfollows s a s' hact).1

open EngineConfig

/-- The engine says zero until it has begun more ticks than a window holds, and from then on says how many
those are. They are as many as it was asked for if these divide a second, and more for every other rate
that leaves an interval at all. -/
theorem measured_rate_is_window_ticks (h : s.Stepped config n) :
    s.engine.report.measured =
        (if n ≤ windowTicks config.ticksPerSecond then 0 else windowTicks config.ticksPerSecond) ∧
      (windowTicks config.ticksPerSecond = config.ticksPerSecond ↔
        config.ticksPerSecond ∣ Duration.second) ∧
      (config.ticksPerSecond ≤ Duration.second →
        config.ticksPerSecond ≤ windowTicks config.ticksPerSecond) ∧
      (Duration.second < config.ticksPerSecond → windowTicks config.ticksPerSecond = 0) ∧
      ∀ bound a s', Simulation.step (runWhere Request.isWork bound) s = .ok (a, s') →
        Simulation.step (runCode bound) s = .ok (a, s') := by
  have hpos : 0 < config.ticksPerSecond := rate_pos h.valid
  refine ⟨h.resting.cadence.measured, windowTicks_eq_iff hpos, le_windowTicks, windowTicks_of_fast, ?_⟩
  intro bound a s' hact
  exact step_of_work hact

/-- Three intervals of a third of a second are cut to a nanosecond less than a second. -/
def thirds : EngineConfig := (EngineConfig.standard 1).withTicksPerSecond 3

/-- A task for every tick, which counts its turns. -/
def metronome : Program Nat .listener :=
  .schedule .nobody .nobody (Code.ofTask fun _ => .memory (· + 1) fun _ => .done .completed) 0 1 fun _ =>
  .done ()

def waltz : Simulation (Code Nat) Nat :=
  create { config := thirds, meter := { ticksPerSecond := 3 } } false none 0

theorem metronome_is_stepped : ∃ s : Simulation (Code Nat) Nat,
    s.Stepped thirds 5 ∧ s.memory = 5 ∧ s.engine.report.measured = 4 := by
  obtain ⟨_, s₁, hact, hholds⟩ := endsWith_iff.mp (show
    endsWith (executeWhere Request.isAside 2 metronome) waltz (fun _ s =>
      endsWith (stepMany (runWhere Request.isWork 2) 5) s fun a s' =>
        a.isOk && s'.memory == 5 && s'.engine.report.measured == 4) = true by decide +kernel)
  simp only [Bool.and_eq_true, beq_iff_eq, endsWith_iff] at hholds
  obtain ⟨a, s, hmany, ⟨hok, hturns⟩, hmeasured⟩ := hholds
  cases a with
  | error error => cases hok
  | ok u =>
    have hnew : waltz.Stepped thirds 0 := .new rfl
    exact ⟨s, (hnew.run hact).many hmany, hturns, hmeasured⟩

theorem metronome_is_fast : ∃ s : Simulation (Code Nat) Nat,
    s.Stepped thirds 5 ∧ s.memory = 5 ∧ s.engine.report.measured = windowTicks 3 ∧ windowTicks 3 = 4 := by
  obtain ⟨s, hs, hturns, -⟩ := metronome_is_stepped
  have hmeasured := (measured_rate_is_window_ticks hs).1
  exact ⟨s, hs, hturns, hmeasured, by decide⟩

theorem measured_rate_may_exceed :
    ¬∀ (config : EngineConfig) (n : Nat) (s : Simulation (Code Nat) Nat), s.Stepped config n →
      s.engine.report.measured = 0 ∨ s.engine.report.measured = config.ticksPerSecond := by
  intro hall
  obtain ⟨s, hs, -, hmeasured⟩ := metronome_is_stepped
  rcases hall thirds 5 s hs with hzero | hthree
  · rw [hmeasured] at hzero
    cases hzero
  · rw [hmeasured] at hthree
    cases hthree

end Simulation

end Vivarium
