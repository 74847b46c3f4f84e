import Vivarium.Proofs.IdealClock

/-! # Whether time goes on

A clock holds 64 bits of nanoseconds, and no more of a time or of a span counts. A move to a time never sets
it back, and reaches the time exactly if it can be held. A move by a span sets it back exactly if the sum
overflows. Where no sum does, neither the time nor the beginnings of ticks ever go back; and a tick that is
neither paused nor stopped reaches its end if the end can be held.
-/

namespace Vivarium

/-! ## Moving a clock -/

inductive ClockMove
  | advance (span : Nat)
  | advanceTo (time : Nat)
  | sleep (duration : Nat)
  | parkUntil (deadline threshold : Nat)
  deriving DecidableEq, Repr

namespace ClockMove

def effect (m : ClockMove) (c : Clock) : Clock :=
  match m with
  | advance span => c.advance span
  | advanceTo time => c.advanceTo time
  | sleep duration => c.sleep duration
  | parkUntil deadline _ => c.parkUntil deadline

def span : ClockMove → Nat
  | advance span | sleep span => span
  | advanceTo _ | parkUntil _ _ => 0

/-- The time that is to be reached. -/
def target? : ClockMove → Option Nat
  | advanceTo time | parkUntil time _ => some time
  | advance _ | sleep _ => none

/-- The time and what counts of the span are together more than a clock can hold. -/
def Overflows (m : ClockMove) (c : Clock) : Prop := UInt64.size ≤ c.now + m.span % UInt64.size

end ClockMove

namespace Clock

variable {c : Clock} {m : ClockMove} {t : Nat}

theorem now_advance (span : Nat) (c : Clock) :
    (c.advance span).now = (c.now + span % UInt64.size) % UInt64.size := by
  have hspan : (UInt64.ofNat span).toNat = span % UInt64.size := UInt64.toNat_ofNat
  change (c.nanos + UInt64.ofNat span).toNat = _
  rw [UInt64.toNat_add, hspan]
  rfl

theorem now_le_advance_iff (span : Nat) (c : Clock) :
    c.now ≤ (c.advance span).now ↔ c.now + span % UInt64.size < UInt64.size := by
  have hnow := c.now_lt
  have hspan : span % UInt64.size < UInt64.size := Nat.mod_lt _ (by decide)
  rw [now_advance]
  rcases Nat.lt_or_ge (c.now + span % UInt64.size) UInt64.size with hfits | hover
  · rw [Nat.mod_eq_of_lt hfits]
    omega
  · rw [Nat.mod_eq_sub_mod hover, Nat.mod_eq_of_lt (by omega)]
    omega

theorem now_le_parkUntil (deadline : Nat) (c : Clock) : c.now ≤ (c.parkUntil deadline).now := by
  rw [now_parkUntil]
  exact Nat.le_max_left _ _

/-- Parking reaches the times that a clock can hold, and no others. -/
theorem le_parkUntil_iff (t : Nat) (c : Clock) : t ≤ (c.parkUntil t).now ↔ t < UInt64.size := by
  constructor
  · exact fun hreached => Nat.lt_of_le_of_lt hreached (c.parkUntil t).now_lt
  · intro hfits
    rw [now_parkUntil, Nat.mod_eq_of_lt hfits]
    exact Nat.le_max_right _ _

theorem now_le_effect_iff : c.now ≤ (m.effect c).now ↔ ¬m.Overflows c := by
  rw [ClockMove.Overflows, Nat.not_le]
  cases m with
  | advance span | sleep span => exact now_le_advance_iff span c
  | advanceTo time | parkUntil time threshold => exact iff_of_true (c.now_le_parkUntil time) c.now_lt

theorem le_effect_iff (ht : m.target? = some t) : t ≤ (m.effect c).now ↔ t < UInt64.size := by
  cases m with
  | advance span | sleep span => cases ht
  | advanceTo time | parkUntil time threshold =>
    cases ht
    exact c.le_parkUntil_iff t

/-- What is read before the first move and after every move. -/
def readings : List ClockMove → Clock → List Nat
  | [], c => [c.now]
  | m :: ms, c => c.now :: readings ms (m.effect c)

/-- No sum on the way overflows. -/
def Fits : List ClockMove → Clock → Prop
  | [], _ => True
  | m :: ms, c => ¬m.Overflows c ∧ Fits ms (m.effect c)

theorem readings_eq_cons (ms : List ClockMove) (c : Clock) : ∃ later, c.readings ms = c.now :: later := by
  cases ms with
  | nil => exact ⟨[], rfl⟩
  | cons m ms => exact ⟨_, rfl⟩

theorem pairwise_readings_iff (ms : List ClockMove) (c : Clock) :
    (c.readings ms).Pairwise (· ≤ ·) ↔ c.Fits ms := by
  rw [← List.isChain_iff_pairwise]
  induction ms generalizing c with
  | nil => exact iff_of_true (.singleton _) trivial
  | cons m ms ih =>
    obtain ⟨later, hlater⟩ := readings_eq_cons ms (m.effect c)
    rw [readings, Fits, ← ih, ← now_le_effect_iff, hlater]
    exact List.isChain_cons_cons

end Clock

/-! ## Programs in whose time no sum overflows -/

namespace Request

variable {β : Type}

/-- The request does not set the clock of the engine back. -/
def isOnward (q : Request) (e : Engine β) : Bool :=
  match q with
  | .advance span => e.now + span % UInt64.size < UInt64.size
  | _ => true

/-- The request neither pauses nor stops the engine. -/
def goesOn (q : Request) (_ : Engine β) : Bool :=
  match q with
  | .pause | .stop => false
  | _ => true

theorem now_le_of_isOnward {q : Request} {e : Engine β} {c : EngineCall β} (hq : q.isOnward e = true)
    (hc : q.call? e = some c) : e.now ≤ (c.effect e).now := by
  cases q with
  | advance span =>
    cases hc
    exact (Clock.now_le_advance_iff span e.clock).mpr (of_decide_eq_true hq)
  | advanceTo time =>
    cases hc
    exact e.clock.now_le_parkUntil time
  | pause | stop | clearBoundary | flag | cancel =>
    cases hc
    exact Nat.le_of_eq (congrArg Clock.now (EngineCall.clock_effect rfl e)).symm
  | _ => cases hc

end Request

theorem TickMeter.lastStart_beginTick {now : Nat} (h : now < UInt64.size) (m : TickMeter) :
    (m.beginTick now).lastStart = now := by
  have hstart : now % UInt64.size = now := Nat.mod_eq_of_lt h
  unfold beginTick
  split
  · exact hstart
  · simp only
    split <;> exact hstart

namespace Engine

variable {β : Type} {time begun n : Nat} {e e' : Engine β}

/-- It is not before some time, and the last tick that has begun did so not before another. -/
structure Since (time begun : Nat) (e : Engine β) : Prop where
  now : time ≤ e.now
  start : begun ≤ e.meter.lastStart
  past : e.meter.lastStart ≤ e.now

namespace Since

theorem refl (h : e.meter.lastStart ≤ e.now) : e.Since e.now e.meter.lastStart := ⟨Nat.le_refl _, Nat.le_refl _, h⟩

theorem of_le (h : e.Since time begun) (hnow : e.now ≤ e'.now)
    (hstart : e'.meter.lastStart = e.meter.lastStart) : e'.Since time begun where
  now := Nat.le_trans h.now hnow
  start := hstart ▸ h.start
  past := hstart ▸ Nat.le_trans h.past hnow

theorem call (h : e.Since time begun) {c : EngineCall β} (hnow : e.now ≤ (c.effect e).now) :
    (c.effect e).Since time begun := h.of_le hnow (congrArg (·.lastStart) (c.meter_effect e))

theorem enduring : Enduring (Since (β := β) time begun) :=
  fun e _ hc h => h.call (Nat.le_of_eq (EngineCall.now_of_isWork hc e).symm)

theorem beginTick (h : e.Since time begun) : e.beginTick.Since time begun := by
  have hstart : e.beginTick.meter.lastStart = e.now := e.meter.lastStart_beginTick e.clock.now_lt
  constructor
  · exact h.now
  · rw [hstart]
    exact Nat.le_trans h.start h.past
  · rw [hstart]
    exact Nat.le_refl e.now

theorem park (h : e.Since time begun) (deadline : Nat) : (e.park deadline).Since time begun := by
  rcases park_cases deadline e with ⟨-, heq⟩ | ⟨-, heq⟩ <;> rw [heq]
  · exact h.of_le (e.clock.now_le_parkUntil deadline) rfl
  · exact h

theorem tickKeeps : TickKeeps fun _ => Since (β := β) time begun where
  entered h he := by
    obtain ⟨-, rfl⟩ := enter_ok he
    exact h.of_le (Nat.le_refl _) rfl
  started h he := by
    obtain ⟨-, -, state, -, rfl⟩ := start_ok he
    exact h.of_le (Nat.le_refl _) rfl
  continued {n e} h := by
    unfold continues
    split <;> exact h.of_le (Nat.le_refl _) rfl
  begun h := h.beginTick
  settled {n e} h which t := h.of_le (Nat.le_of_eq (congrArg Clock.now (clock_settleBoundary which t e)).symm)
    (congrArg (·.lastStart) (meter_settleBoundary which t e))
  launched h _ := h.of_le (Nat.le_refl _) rfl
  registered h := h.of_le (Nat.le_refl _) rfl
  completed h t := by
    rw [complete_eq]
    exact h.of_le (Nat.le_refl _) rfl
  arrived h := h.of_le (Nat.le_refl _) rfl
  passed h _ := h.of_le (Nat.le_refl _) rfl
  ended h := h.of_le (Nat.le_refl _) rfl
  parked h := h.park

end Since

/-- The engine is inside a tick or between two, which only a pause or a stop changes. -/
def Runs (e : Engine β) : Prop := e.state.isRunning = true

namespace Runs

theorem of_control (h : e.Runs) (hsame : SameControl e e') : e'.Runs := by
  rwa [Runs, hsame.state]

theorem enduring : Enduring (Runs (β := β)) :=
  fun e _ hc h => h.of_control (.effect (EngineCall.atOnce_of_isWork hc) e)

theorem tickKeeps : TickKeeps fun _ => Runs (β := β) where
  entered _ he := by
    obtain ⟨-, rfl⟩ := enter_ok he
    rfl
  started _ he := by
    obtain ⟨-, -, state, hr, rfl⟩ := start_ok he
    exact hr
  continued {n e} h := by
    unfold continues
    split
    · rfl
    · exact h
  begun h := h
  settled {n e} h which t := h.of_control (.settleBoundary which t e)
  launched h _ := h
  registered h := h
  completed h t := by
    rw [complete_eq]
    exact h
  arrived h := h
  passed h _ := h
  ended h := h
  parked {n e} h deadline := by
    rcases park_cases deadline e with ⟨-, heq⟩ | ⟨-, heq⟩ <;> rw [heq]
    · rfl
    · exact h

end Runs

end Engine

namespace Simulation

variable {μ : Type} {bound n : Nat} {s s' : Simulation (Code μ) μ}

section

variable {P : Nat → Engine (Job (Code μ)) → Prop} {may : Request → Engine (Job (Code μ)) → Bool}
  (hP : Engine.TickKeeps P) (hwork : ∀ n, Engine.Enduring (P n))
  (hmay : ∀ n q e c, may q e = true → P n e → q.call? e = some c → P n (c.effect e))

include hP hwork hmay

theorem execWhere_ticks {run : Run (Code μ) μ} (hrun : ∀ n, RunCarries (P n) (fun _ => True) run)
    (bound n : Nat) {r : Role} (p : Program μ r) :
    Carries (P n) (P n) (fun _ => True) (p.execWhere may run bound) := by
  refine execWhere_keeps (hwork n) trivial (fun q s hq hs => ?_) p
  by_cases htick : q.IsTick
  · exact hP.ticks hrun (fun _ _ _ => trivial) trivial bound htick s hs
  · exact answer_keeps (hrun n) (hwork n) trivial bound htick hs fun c hc => hmay n q s.engine c hq hs hc

theorem runWhere_ticks (bound n : Nat) : RunCarries (P n) (fun _ => True) (runWhere may bound) := by
  induction bound generalizing n with
  | zero => exact fun _ _ => .halt trivial
  | succ bound ih => exact fun o code => execWhere_ticks hP hwork hmay ih bound n (code o)

theorem executeWhere_ticks (bound n : Nat) {r : Role} (p : Program μ r) :
    Carries (P n) (P n) (fun _ => True) (executeWhere may bound p) :=
  execWhere_ticks hP hwork hmay (runWhere_ticks hP hwork hmay bound) bound n p

end

theorem onward_keeps_since (time begun bound : Nat) {r : Role} (p : Program μ r) :
    Carries (Engine.Since time begun) (Engine.Since time begun) (fun _ => True)
      (executeWhere Request.isOnward bound p) :=
  executeWhere_ticks Engine.Since.tickKeeps (fun _ => Engine.Since.enduring)
    (fun _ _ _ _ hq he hc => he.call (Request.now_le_of_isOnward hq hc)) bound 0 p

theorem goesOn_keeps_runs (bound : Nat) :
    RunCarries Engine.Runs (fun _ => True) (runWhere (μ := μ) Request.goesOn bound) := by
  refine runWhere_ticks Engine.Runs.tickKeeps (fun _ => Engine.Runs.enduring) (fun _ q e c hq he hc => ?_)
    bound 0
  cases q with
  | pause | stop => cases hq
  | advance | advanceTo | clearBoundary | flag | cancel =>
    cases hc
    exact he.of_control (.effect rfl e)
  | _ => cases hc

/-- What programs lead to that never set the clock back. -/
inductive Onward : Simulation (Code μ) μ → Prop
  | new {bound : Bool} {s : Simulation (Code μ) μ} (h : s.New bound) : Onward s
  | declare {s : Simulation (Code μ) μ} (h : Onward s) (types : TypeRegistry (Code μ)) : Onward { s with types }
  | run {bound : Nat} {s s' : Simulation (Code μ) μ} {r : Role} {p : Program μ r} {a : r.Answer}
    (h : Onward s) (hact : executeWhere Request.isOnward bound p s = .ok (a, s')) : Onward s'

theorem Onward.past (h : s.Onward) : s.engine.meter.lastStart ≤ s.engine.now := by
  induction h with
  | new h =>
    obtain ⟨config, e, limit, he, rfl, -⟩ := h
    obtain ⟨-, heq⟩ := Engine.create_ok he
    rw [heq]
    exact Nat.le_refl _
  | declare _ _ ih => exact ih
  | run _ hact ih => exact ((onward_keeps_since _ _ _ _).of_ok (.refl ih) hact).past

/-! ## The end of a tick -/

theorem openTick_answer {run : Run (Code μ) μ} {deadline : Nat} (hact : openTick run s = .ok (deadline, s')) :
    deadline = s.engine.now + s.engine.meter.interval := by
  rw [← Engine.deadline_frame false]
  obtain ⟨_, _, hstart, hact⟩ := bind_ok hact
  cases hstart
  obtain ⟨_, _, hdeadline, hact⟩ := bind_ok hact
  cases hdeadline
  obtain ⟨_, _, -, hact⟩ := bind_ok hact
  obtain ⟨_, _, -, hact⟩ := bind_ok hact
  obtain ⟨_, _, -, hact⟩ := bind_ok hact
  obtain ⟨_, _, -, hact⟩ := bind_ok hact
  cases hact
  rfl

theorem closeTick_parks {run : Run (Code μ) μ} {deadline : Nat} {a : Unit}
    (hact : closeTick run deadline s = .ok (a, s')) :
    ∃ e : Engine (Job (Code μ)), s'.engine = e.park deadline := by
  obtain ⟨_, _, -, hact⟩ := bind_ok hact
  obtain ⟨_, s₁, -, hact⟩ := bind_ok hact
  cases hact
  exact ⟨s₁.engine, rfl⟩

/-- A tick that ends neither paused nor stopped reaches its end if the clock can hold it. -/
theorem runTick_reaches_iff (hs : s.engine.Awaits n) {a : Unit}
    (hact : runTick (runCode bound) s = .ok (a, s')) (hruns : s'.engine.Runs) :
    s.engine.now + s.engine.meter.interval ≤ s'.engine.now ↔
      s.engine.now + s.engine.meter.interval < UInt64.size := by
  rw [runTick_eq] at hact
  obtain ⟨deadline, s₁, hopen, hact⟩ := bind_ok hact
  obtain ⟨passed, s₂, hpass, hact⟩ := bind_ok hact
  have hopened := (Carries.openTick (runCode_carries bound)).of_ok hs hopen
  cases hb : s₁.engine.barrier.await? with
  | none =>
    rw [passBarrier_of_held hb] at hpass
    cases hpass
  | some p =>
    obtain ⟨through, b⟩ := p
    rw [passBarrier_of_await hb] at hpass
    cases hpass
    rw [← openTick_answer hopen]
    cases passed with
    | true =>
      obtain ⟨e, hparked⟩ := closeTick_parks hact
      rw [hparked] at hruns ⊢
      rcases Engine.park_cases deadline e with ⟨-, heq⟩ | ⟨hpaused, heq⟩
      · rw [heq]
        exact e.clock.le_parkUntil_iff deadline
      · rw [Engine.Runs, heq, hpaused] at hruns
        cases hruns
    | false =>
      -- The barrier lets nobody through only if the engine is stopped, and then the tick is over.
      cases hact
      have hstopped := hopened.terminated.mp (TickBarrier.await?_false hb).1
      have hruns' : s₁.engine.state.isRunning = true := hruns
      rw [hstopped] at hruns'
      cases hruns'

theorem live_of_steps {e : Engine (Job (Code μ))} (h : e.steps = true) :
    e.running = false ∧ e.state ≠ .stopped := by
  simpa [Engine.steps] using h

theorem step_reaches_iff (hs : s.engine.Awaits n) (hsteps : s.engine.steps = true)
    {a : Except EngineError Unit} (hact : step (runCode bound) s = .ok (a, s')) (hruns : s'.engine.Runs) :
    s.engine.now + s.engine.meter.interval ≤ s'.engine.now ↔
      s.engine.now + s.engine.meter.interval < UInt64.size := by
  obtain ⟨hidle, hlive⟩ := live_of_steps hsteps
  rw [step_of_live hidle hlive] at hact
  obtain ⟨_, _, htick, hanswer⟩ := bind_ok hact
  cases hanswer
  exact runTick_reaches_iff (s := { s with engine := { s.engine with state := .ticking } })
    (hs.of_live rfl hlive (by rintro ⟨⟩)) htick hruns

/-- Code that neither pauses nor stops the engine leaves it as running as a tick does. -/
theorem step_goesOn (hsteps : s.engine.steps = true) {a : Except EngineError Unit}
    (hact : step (runWhere Request.goesOn bound) s = .ok (a, s')) :
    step (runCode bound) s = .ok (a, s') ∧ s'.engine.Runs := by
  have hfollows : RunFollows (fun _ => True) (runWhere (μ := μ) Request.goesOn bound) (runCode bound) :=
    runWhere_follows trivial trivial (fun _ _ _ => trivial) bound
  refine ⟨(Follows.step trivial hfollows s a s' hact).1, ?_⟩
  obtain ⟨hidle, hlive⟩ := live_of_steps hsteps
  rw [step_of_live hidle hlive] at hact
  obtain ⟨_, _, htick, hanswer⟩ := bind_ok hact
  cases hanswer
  have hkeeps : Carries Engine.Runs Engine.Runs (fun _ => True)
      (runTick (runWhere (μ := μ) Request.goesOn bound)) :=
    Engine.Runs.tickKeeps.runTick (n := 0) (fun _ => goesOn_keeps_runs bound) fun _ _ _ => trivial
  exact hkeeps.of_ok (s := { s with engine := { s.engine with state := .ticking } }) rfl htick

end Simulation

open Simulation

/-- A clock that is moved about never goes back if and only if no sum of the time and of a span overflows,
and it reaches a time that it is moved to if and only if it can hold it. So a step that leaves the engine
neither paused nor stopped, as it does if the code that it runs neither pauses nor stops it, ends one
interval after its beginning at the earliest if and only if the clock can hold that time; and in a life of
programs without such an overflow neither the time nor the beginning of the last tick ever goes back. -/
theorem time_goes_on_while_it_fits {μ : Type} :
    (∀ (c : Clock) (ms : List ClockMove), (c.readings ms).Pairwise (· ≤ ·) ↔ c.Fits ms) ∧
    (∀ (c : Clock) (m : ClockMove) (t : Nat), m.target? = some t →
      (t ≤ (m.effect c).now ↔ t < UInt64.size)) ∧
    (∀ s : Simulation (Code μ) μ, s.Lived → s.engine.steps = true → ∀ bound a s',
      (step (runCode bound) s = .ok (a, s') → s'.engine.Runs →
        (s.engine.now + s.engine.meter.interval ≤ s'.engine.now ↔
          s.engine.now + s.engine.meter.interval < UInt64.size)) ∧
      (step (runWhere Request.goesOn bound) s = .ok (a, s') →
        step (runCode bound) s = .ok (a, s') ∧ s'.engine.Runs)) ∧
    ∀ s : Simulation (Code μ) μ, s.Onward →
      ∀ (bound : Nat) {r : Role} (p : Program μ r) (a : r.Answer) (s' : Simulation (Code μ) μ),
        executeWhere Request.isOnward bound p s = .ok (a, s') →
        execute bound p s = .ok (a, s') ∧ s.engine.now ≤ s'.engine.now ∧
          s.engine.meter.lastStart ≤ s'.engine.meter.lastStart ∧
          s'.engine.meter.lastStart ≤ s'.engine.now := by
  refine ⟨fun c ms => c.pairwise_readings_iff ms, fun c m t => Clock.le_effect_iff, ?_, ?_⟩
  · intro s hs hsteps bound a s'
    exact ⟨step_reaches_iff hs.awaits hsteps, step_goesOn hsteps⟩
  · intro s hs bound r p a s' hact
    have hfollows : Follows (fun _ => True) (executeWhere Request.isOnward bound p) (execute bound p) :=
      executeWhere_follows trivial trivial (fun _ _ _ => trivial) bound p
    obtain ⟨hnow, hstart, hpast⟩ := (onward_keeps_since _ _ bound p).of_ok (.refl hs.past) hact
    exact ⟨(hfollows s a s' hact).1, hnow, hstart, hpast⟩

/-- To the last moment that a clock can hold. -/
def fastForward : Program Unit .listener := .request (.advanceTo (2 ^ 64 - 1)) fun _ => .done ()

/-- A step at the beginning of time reaches its end, and one at the end of time does not. -/
theorem first_and_last_step : ∃ s₁ s₂ s₃ : Simulation (Code Unit) Unit,
    (step (runCode 1) (blank false) = .ok (.ok (), s₁) ∧ 100000000 ≤ s₁.engine.now) ∧
    execute 1 fastForward (blank false) = .ok ((), s₂) ∧
    (blank false).engine.now ≤ s₂.engine.now ∧ s₂.engine.now = 2 ^ 64 - 1 ∧
    step (runCode 1) s₂ = .ok (.ok (), s₃) ∧ ¬s₂.engine.now + s₂.engine.meter.interval ≤ s₃.engine.now := by
  obtain ⟨-, -, hsteps, hlife⟩ := time_goes_on_while_it_fits (μ := Unit)
  have hlived : (blank false).Lived := .new (blank_new false) rfl
  obtain ⟨a, s₁, hfirst, ha⟩ := endsWith_iff.mp (show endsWith (step (runWhere Request.goesOn 1)) (blank false)
    (fun a _ => a.isOk) = true by decide +kernel)
  obtain ⟨_, s₂, hforward, hs₂⟩ := endsWith_iff.mp (show
    endsWith (executeWhere Request.isOnward 1 fastForward) (blank false) (fun _ s => s.engine.steps &&
      s.engine.now == 2 ^ 64 - 1 && s.engine.meter.interval == 100000000 &&
      endsWith (step (runWhere Request.goesOn 1)) s fun a _ => a.isOk) = true by decide +kernel)
  simp only [Bool.and_eq_true, beq_iff_eq, endsWith_iff] at hs₂
  obtain ⟨⟨⟨hlive, hnow⟩, hinterval⟩, b, s₃, hlast, hb⟩ := hs₂
  have hnew : (blank false).Onward := .new (blank_new false)
  obtain ⟨hexec, hlater, -⟩ := hlife (blank false) hnew 1 fastForward () s₂ hforward
  obtain ⟨hreaches, hgoes⟩ := hsteps (blank false) hlived (by decide) 1 a s₁
  obtain ⟨hreaches', hgoes'⟩ := hsteps s₂ (hlived.run hexec) hlive 1 b s₃
  obtain ⟨hstep, hruns⟩ := hgoes hfirst
  obtain ⟨hstep', hruns'⟩ := hgoes' hlast
  cases a with
  | error error => cases ha
  | ok u =>
    cases b with
    | error error => cases hb
    | ok u' =>
      refine ⟨s₁, s₂, s₃, ⟨hstep, ?_⟩, hexec, hlater, hnow, hstep', ?_⟩
      · exact (hreaches hstep hruns).mpr (by decide)
      · rw [hreaches' hstep' hruns', hnow, hinterval]
        decide

/-- The second span takes the clock back to its origin, and it is parked almost as far below its deadline. -/
theorem clock_goes_back :
    Clock.readings [.advance 1, .advance (2 ^ 64 - 1), .parkUntil (2 ^ 64 + 5) 0] {} = [0, 1, 0, 5] ∧
      (¬∀ (c : Clock) (ms : List ClockMove), (c.readings ms).Pairwise (· ≤ ·)) ∧
      ¬∀ (c : Clock) (m : ClockMove) (t : Nat), m.target? = some t → t ≤ (m.effect c).now := by
  have hreadings :
      Clock.readings [.advance 1, .advance (2 ^ 64 - 1), .parkUntil (2 ^ 64 + 5) 0] {} = [0, 1, 0, 5] := by
    decide
  refine ⟨hreadings, fun hall => ?_, fun hall => ?_⟩
  · have hback := hall {} [.advance 1, .advance (2 ^ 64 - 1), .parkUntil (2 ^ 64 + 5) 0]
    rw [hreadings] at hback
    exact absurd hback (by decide)
  · exact absurd (hall {} (.parkUntil (2 ^ 64 + 5) 0) (2 ^ 64 + 5) rfl) (by decide)

end Vivarium
