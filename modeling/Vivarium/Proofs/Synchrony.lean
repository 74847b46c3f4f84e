import Vivarium.Proofs.Lockstep
import Vivarium.Proofs.Waiting

/-! # Ticks and programs in lockstep

What a tick does to the engine between the bodies is a few kinds of moves. Two simulations that these, too,
leave as different as they were stay so through a whole tick, and through every program that begins none. -/

namespace Vivarium

/-- What a tick does to the engine by itself. -/
inductive TickMove (β : Type)
  | meter (m : TickMeter)
  | barrier (b : TickBarrier)
  | launch (bound : Nat)
  | complete (t : Task β)
  | settle (which : Boundary) (t : Task β)
  | park (deadline : Nat)

namespace TickMove

variable {β : Type} {running loopAlive : Bool}

def effect (e : Engine β) : TickMove β → Engine β
  | meter m => { e with meter := m }
  | barrier b => { e with barrier := b }
  | launch bound => (e.launch bound).2
  | complete t => e.complete t
  | settle which t => e.settleBoundary which t
  | park deadline => e.park deadline

theorem effect_driven (m : TickMove β) (e : Engine β) :
    m.effect (e.driven running loopAlive) = (m.effect e).driven running loopAlive := by
  cases m with
  | meter | barrier | launch => rfl
  | complete t =>
    rw [effect, effect, Engine.complete_eq, Engine.complete_eq]
    rfl
  | settle which t =>
    have hsettle : ∀ e : Engine β, e.settleBoundary which t =
      if e.isFlagged t.id = true ∧ (e.boundary which).map (·.id) = some t.id then e.putBoundary which none
      else e := fun _ => rfl
    have hboundary : (e.driven running loopAlive).boundary which = e.boundary which := by cases which <;> rfl
    rw [effect, effect, hsettle, hsettle, hboundary]
    by_cases hdropped : e.isFlagged t.id = true ∧ (e.boundary which).map (·.id) = some t.id
    · rw [if_pos hdropped]
      refine (if_pos hdropped).trans ?_
      cases which <;> rfl
    · rw [if_neg hdropped]
      exact if_neg hdropped
  | park deadline =>
    rcases Engine.park_cases deadline e with ⟨hr, heq⟩ | ⟨hr, heq⟩ <;>
      rcases Engine.park_cases deadline (e.driven running loopAlive) with ⟨hr', heq'⟩ | ⟨hr', heq'⟩
    · rw [effect, effect, heq, heq']
      rfl
    · exact absurd (hr'.symm.trans hr) Bool.false_ne_true
    · exact absurd (hr.symm.trans hr') Bool.false_ne_true
    · rw [effect, effect, heq, heq']

/-- A tick by itself goes between ticking and waiting only, and leaves the signs of the loop alone. -/
theorem effect_control (m : TickMove β) (e : Engine β) :
    (m.effect e).running = e.running ∧ (m.effect e).loopAlive = e.loopAlive ∧
      ((m.effect e).state = e.state ∨ e.state.isRunning = true ∧ (m.effect e).state = .waiting) := by
  cases m with
  | meter | barrier | launch => exact ⟨rfl, rfl, Or.inl rfl⟩
  | complete t =>
    rw [effect, Engine.complete_eq]
    exact ⟨rfl, rfl, Or.inl rfl⟩
  | settle which t =>
    have hsame := Engine.SameControl.settleBoundary which t e
    exact ⟨hsame.running, hsame.loopAlive, Or.inl hsame.state⟩
  | park deadline =>
    rw [effect]
    rcases Engine.park_cases deadline e with ⟨hr, heq⟩ | ⟨-, heq⟩ <;> rw [heq]
    · exact ⟨rfl, rfl, Or.inr ⟨hr, rfl⟩⟩
    · exact ⟨rfl, rfl, Or.inl rfl⟩

end TickMove

namespace Simulation

variable {β μ α γ : Type} {R : Simulation β μ → Simulation β μ → Prop} {fails : Halt → Prop} {run : Run β μ}
  {s t : Simulation β μ}

def moving (m : TickMove (Job β)) (s : Simulation β μ) : Simulation β μ :=
  { s with engine := m.effect s.engine }

/-- The moves of a tick leave the simulations as different as they were. -/
def Ticking (R : Simulation β μ → Simulation β μ → Prop) : Prop :=
  ∀ {s t}, R s t → ∀ m : TickMove (Job β), R (s.moving m) (t.moving m)

namespace Parallel

variable (hR : Parallel R) (hT : Ticking R)

include hR

theorem runTask (hrun : RunAgrees R fails run) (u : Task (Job β)) :
    Agrees R fails (Simulation.runTask run u) := by
  intro s t hst
  have hsame : t.engine.isFlagged u.id = s.engine.isFlagged u.id ∧ t.engine.report = s.engine.report := by
    obtain ⟨running, loopAlive, rfl⟩ := hR.driven hst
    exact ⟨rfl, rfl⟩
  cases hflag : s.engine.isFlagged u.id with
  | true =>
    rw [runTask_of_flagged hflag, runTask_of_flagged (hsame.1.trans hflag)]
    exact ⟨rfl, hst⟩
  | false =>
    rw [runTask_of_unflagged hflag, runTask_of_unflagged (hsame.1.trans hflag), hsame.2]
    exact (Agrees.bind (hrun _ _) fun _ => .pure _) s t hst

include hT

theorem onTick {f : Engine (Job β) → α × Engine (Job β)} (m : Engine (Job β) → TickMove (Job β))
    (heffect : ∀ e, (f e).2 = (m e).effect e)
    (halike : ∀ e running loopAlive, m (e.driven running loopAlive) = m e ∧
      (f (e.driven running loopAlive)).1 = (f e).1) :
    Agrees R fails (Simulation.onEngine f : Act β μ α) := by
  intro s t hst
  have hmove := hT hst (m s.engine)
  obtain ⟨running, loopAlive, rfl⟩ := hR.driven hst
  obtain ⟨hsame, hanswer⟩ := halike s.engine running loopAlive
  refine ⟨hanswer.symm, ?_⟩
  change R { s with engine := (f s.engine).2 }
    { s.driven running loopAlive with engine := (f (s.engine.driven running loopAlive)).2 }
  rw [heffect, heffect, hsame]
  exact hmove

theorem changeOnTick (m : Engine (Job β) → TickMove (Job β))
    (halike : ∀ e running loopAlive, m (e.driven running loopAlive) = m e) :
    Agrees R fails (Simulation.changeEngine fun e => (m e).effect e : Act β μ Unit) :=
  hR.onTick hT m (fun _ => rfl) fun e running loopAlive => ⟨halike e running loopAlive, rfl⟩

theorem passBarrier (hheld : fails .deadlock) :
    Agrees R fails (Simulation.passBarrier : Act β μ Bool) := by
  intro s t hst
  have hsame : t.engine.barrier = s.engine.barrier := by
    obtain ⟨running, loopAlive, rfl⟩ := hR.driven hst
    rfl
  cases hb : s.engine.barrier.await? with
  | none =>
    rw [passBarrier_of_held hb, passBarrier_of_held (hsame ▸ hb)]
    exact ⟨rfl, hheld⟩
  | some p =>
    rw [passBarrier_of_await hb, passBarrier_of_await (hsame ▸ hb)]
    exact ⟨rfl, hT hst (.barrier p.2)⟩

variable (hrun : RunAgrees R fails run)

include hrun

theorem runBoundary (which : Boundary) : Agrees R fails (Simulation.runBoundary run which) := by
  refine .bind (hR.ask fun _ _ _ => by cases which <;> rfl) fun found => ?_
  cases found with
  | none => exact .pure _
  | some u =>
    refine .bind (hR.runTask hrun u) fun _ => ?_
    exact hR.changeOnTick hT (fun _ => .settle which u) fun _ _ _ => rfl

theorem runDue (us : List (Task (Job β))) : Agrees R fails (Simulation.runDue run us) := by
  induction us with
  | nil => exact .pure _
  | cons u rest ih =>
    refine .bind (hR.changeOnTick hT (fun e => .barrier e.barrier.register.2) fun _ _ _ => rfl) fun _ => ?_
    refine .bind (hR.runTask hrun u) fun _ => ?_
    refine .bind (hR.changeOnTick hT (fun _ => .complete u) fun _ _ _ => rfl) fun _ => ?_
    exact .bind (hR.changeOnTick hT (fun e => .barrier e.barrier.arrive) fun _ _ _ => rfl) fun _ => ih

theorem runTick (hheld : fails .deadlock) : Agrees R fails (Simulation.runTick run) := by
  refine .bind (hR.ask fun _ _ _ => rfl) fun start => .bind (hR.ask fun _ _ _ => rfl) fun deadline => ?_
  refine .bind (hR.changeOnTick hT (fun e => .meter (e.meter.beginTick start)) fun _ _ _ => rfl) fun _ => ?_
  refine .bind (hR.runBoundary hT hrun .first) fun _ => ?_
  refine .bind (hR.onTick hT (fun _ => .launch deadline) (fun _ => rfl) fun _ _ _ => ⟨rfl, rfl⟩) fun due => ?_
  refine .bind (hR.runDue hT hrun due) fun _ => .bind (hR.passBarrier hT hheld) fun passed => ?_
  refine .ite (.bind (hR.runBoundary hT hrun .last) fun _ => ?_) (.pure _)
  refine .bind (hR.changeOnTick hT (fun e => .meter e.meter.endTick) fun _ _ _ => rfl) fun _ => ?_
  exact hR.changeOnTick hT (fun _ => .park deadline) fun _ _ _ => rfl

end Parallel

/-! ## Programs -/

section

variable {κ : Type} {R : κ → Simulation (Code μ) μ → Simulation (Code μ) μ → Prop} {may : Request → Bool}
  (hR : ∀ k, Aligned (R k) fails) (hdeep : fails .exhausted)

include hR hdeep

/-- A program whose requests keep simulations in lockstep does so. -/
theorem execWithin_agrees {run : Run (Code μ) μ} {bound : Nat} {k : κ}
    (hanswer : ∀ q, may q = true → Agrees (R k) fails (answer run bound q)) {r : Role} (p : Program μ r) :
    Agrees (R k) fails (p.execWithin may run bound) := by
  induction p with
  | done answer => exact .pure answer
  | request q next ih =>
    rw [Program.execWithin]
    split
    · next hq => exact .bind (hanswer q hq) ih
    · exact .halt hdeep
  | memory change next ih => exact .bind ((hR k).onMemory change) ih
  | schedule owner actor code delay period next _ ih =>
    exact .bind ((hR k).schedule owner _ delay period) ih
  | setBoundary which code next _ ih => exact .bind ((hR k).setBoundary which _) fun _ => ih
  | subscribe container listener code next _ ih => exact .bind ((hR k).onForest _) ih
  | subscribeTo holder key listener code next _ ih => exact .bind ((hR k).onAttributes holder _) ih

variable (hanswer : ∀ run bound, (∀ k, RunAgrees (R k) fails run) →
  ∀ k q, may q = true → Agrees (R k) fails (answer run bound q))

include hanswer

theorem runWithin_agrees (n : Nat) (k : κ) : RunAgrees (R k) fails (runWithin may n) := by
  induction n generalizing k with
  | zero => exact fun _ _ => .halt hdeep
  | succ n ih => exact fun o code => execWithin_agrees hR hdeep (hanswer _ n ih k) (code o)

theorem executeWithin_agrees (n : Nat) (k : κ) {r : Role} (p : Program μ r) :
    Agrees (R k) fails (executeWithin may n p) :=
  execWithin_agrees hR hdeep (hanswer _ n (runWithin_agrees hR hdeep hanswer n) k) p

end

/-! ## One simulation -/

section

variable {P Q S : Simulation β μ → Prop} {act : Act β μ α} {s : Simulation β μ}

/-- Where the operation has ended `Q` holds; where it does not end, that has one of certain reasons. -/
def BringsTo (Q : Simulation β μ → Prop) (fails : Halt → Prop) (act : Act β μ α) (s : Simulation β μ) :
    Prop :=
  match act s with
  | .ok p => Q p.2
  | .error why => fails why

/-- From wherever `P` holds. -/
def Brings (P Q : Simulation β μ → Prop) (fails : Halt → Prop) (act : Act β μ α) : Prop :=
  ∀ s, P s → BringsTo Q fails act s

/-- One simulation side by side with itself. -/
def Alone (P : Simulation β μ → Prop) (s t : Simulation β μ) : Prop := t = s ∧ P s

theorem agrees_alone : Agrees (Alone P) fails act ↔ Brings P P fails act := by
  refine ⟨fun h s hs => ?_, fun h s t hst => ?_⟩
  · have hboth := h s s ⟨rfl, hs⟩
    unfold BringsTo
    cases hact : act s with
    | error why =>
      rw [hact] at hboth
      exact hboth.2
    | ok p =>
      rw [hact] at hboth
      exact hboth.2.2
  · obtain ⟨rfl, hs⟩ := hst
    have hbrings := h t hs
    unfold BringsTo at hbrings
    cases hact : act t with
    | error why =>
      rw [hact] at hbrings
      exact ⟨rfl, hbrings⟩
    | ok p =>
      rw [hact] at hbrings
      exact ⟨rfl, rfl, hbrings⟩

theorem parallel_alone
    (haside : ∀ s forest standalone types memory, P s → P { s with forest, standalone, types, memory })
    (hcall : ∀ s c, P s → P (s.calling c)) : Parallel (Alone P) := by
  refine ⟨?_, ?_, ?_⟩
  · intro s t hst
    obtain ⟨rfl, -⟩ := hst
    exact ⟨t.engine.running, t.engine.loopAlive, rfl⟩
  · intro s t hst forest standalone types memory
    obtain ⟨rfl, hs⟩ := hst
    exact ⟨rfl, haside t forest standalone types memory hs⟩
  · intro s t hst c
    obtain ⟨rfl, hs⟩ := hst
    exact ⟨rfl, hcall t c hs⟩

theorem ticking_alone (hmove : ∀ s m, P s → P (s.moving m)) : Ticking (Alone P) := by
  intro s t hst m
  obtain ⟨rfl, hs⟩ := hst
  exact ⟨rfl, hmove t m hs⟩

namespace BringsTo

theorem of_ok {p : α × Simulation β μ} (hact : act s = .ok p) (h : Q p.2) : BringsTo Q fails act s := by
  rw [BringsTo, hact]
  exact h

theorem of_error {why : Halt} (hact : act s = .error why) (h : fails why) : BringsTo Q fails act s := by
  rw [BringsTo, hact]
  exact h

theorem apply (h : BringsTo Q fails act s) {a : α} {s' : Simulation β μ} (hact : act s = .ok (a, s')) :
    Q s' := by
  rwa [BringsTo, hact] at h

theorem bind {next : α → Act β μ γ} (h : BringsTo P fails act s) (hn : ∀ a, Brings P Q fails (next a)) :
    BringsTo Q fails (act >>= next) s := by
  rw [BringsTo] at h
  cases hact : act s with
  | error why =>
    rw [hact] at h
    exact .of_error (bind_of_error hact) h
  | ok p =>
    rw [hact] at h
    rw [BringsTo, bind_of_ok hact]
    exact hn p.1 p.2 h

end BringsTo

namespace Brings

theorem bind {next : α → Act β μ γ} (h : Brings P Q fails act) (hn : ∀ a, Brings Q S fails (next a)) :
    Brings P S fails (act >>= next) := fun s hs => (h s hs).bind hn

theorem pure (a : α) : Brings P P fails (Pure.pure a : Act β μ α) := fun _ hs => hs

theorem ask (f : Simulation β μ → α) : Brings P P fails (Simulation.ask f) := fun _ hs => hs

theorem ite {p : Prop} [Decidable p] {act' : Act β μ α} (h : Brings P Q fails act)
    (h' : Brings P Q fails act') : Brings P Q fails (if p then act else act') := by
  split
  · exact h
  · exact h'

end Brings

/-! ## Operations that tick -/

theorem loop_of_continues {bound : Nat} {e : Engine (Job β)} (h : s.engine.continues = (true, e)) :
    loop run (bound + 1) s = (runTick run >>= fun _ => loop run bound) { s with engine := e } := by
  have hgoes : Simulation.onEngine (·.continues) s = .ok (true, { s with engine := e }) := by
    rw [onEngine, h]
  rw [loop]
  exact bind_of_ok hgoes

theorem loop_of_rest {bound : Nat} {e : Engine (Job β)} (h : s.engine.continues = (false, e)) :
    loop run (bound + 1) s = .ok ((), { s with engine := e }) := by
  have hrests : Simulation.onEngine (·.continues) s = .ok (false, { s with engine := e }) := by
    rw [onEngine, h]
  rw [loop]
  exact bind_of_ok hrests

theorem tick_of_driven {bound : Nat} {e : Engine (Job β)} (h : s.engine.start = .ok (true, e)) :
    tick run bound s = (loop run bound >>= fun _ => pure (.ok ())) { s with engine := e } := by
  unfold tick
  exact bind_of_ok (tryEngine_ok (f := (·.start)) h)

section

variable (htick : Brings P P fails (runTick run))

include htick

theorem loop_brings (hgoes : ∀ s e, P s → s.engine.continues = (true, e) → P { s with engine := e })
    (hrests : ∀ s e, P s → s.engine.continues = (false, e) → Q { s with engine := e })
    (hdeep : fails .exhausted) (bound : Nat) : Brings P Q fails (loop run bound) := by
  induction bound with
  | zero => exact fun _ _ => hdeep
  | succ bound ih =>
    intro s hs
    cases hc : s.engine.continues with
    | mk goes e =>
      cases goes with
      | true =>
        rw [BringsTo, loop_of_continues hc]
        exact (htick _ (hgoes s e hs hc)).bind fun _ => ih
      | false => exact .of_ok (loop_of_rest hc) (hrests s e hs hc)

variable (hrouse : ∀ s, P s → s.engine.state ≠ .stopped → s.engine.running = false →
  P { s with engine := { s.engine with state := .ticking } })

include hrouse

theorem step_brings : Brings P P fails (step run) := by
  intro s hs
  cases hrunning : s.engine.running with
  | true => exact .of_ok (step_of_running hrunning) hs
  | false =>
    by_cases hstopped : s.engine.state = .stopped
    · exact .of_ok (step_of_stopped hrunning hstopped) hs
    · rw [BringsTo, step_of_live hrunning hstopped]
      exact (htick _ (hrouse s hs hstopped hrunning)).bind fun _ _ hs' => hs'

theorem stepMany_brings (n : Nat) : Brings P P fails (stepMany run n) := by
  induction n with
  | zero => exact .pure _
  | succ n ih =>
    refine .bind (.ask _) fun state => .ite (.pure _) (.bind (step_brings htick hrouse) fun stepped => ?_)
    cases stepped with
    | error error => exact .pure _
    | ok _ => exact ih

theorem stepWhileActive_brings (hdeep : fails .exhausted) (id : TaskId) (bound : Nat) :
    Brings P P fails (stepWhileActive run id bound) := by
  induction bound with
  | zero => exact fun _ _ => hdeep
  | succ bound ih =>
    exact .bind (.ask _) fun active => .ite (.bind (step_brings htick hrouse) fun _ => ih) (.pure _)

/-- What no request breaks, if ticks of no kind do. -/
theorem answer_agrees (haligned : Aligned (Alone P) fails) (hrun : RunAgrees (Alone P) fails run)
    (hdeep : fails .exhausted) (bound : Nat) (hloop : Brings P P fails (tick run bound)) (q : Request) :
    Agrees (Alone P) fails (answer run bound q) := by
  cases q with
  | step => exact agrees_alone.mpr (step_brings htick hrouse)
  | stepMany n => exact agrees_alone.mpr (stepMany_brings htick hrouse n)
  | stepWhileActive id => exact agrees_alone.mpr (stepWhileActive_brings htick hrouse hdeep id bound)
  | tick => exact agrees_alone.mpr hloop
  | _ => exact haligned.answer hrun hdeep bound (by rintro ⟨⟩)

end

end

/-! ## What every operation keeps -/

/-- What is kept by calls and by the moves of a tick, whoever drives the engine and whatever is done beside
it. -/
structure Upkeep (P : Simulation β μ → Prop) (fails : Halt → Prop) : Prop where
  aligned : Aligned (Alone P) fails
  move : ∀ s m, P s → P (s.moving m)
  drive : ∀ s e, P s → s.engine.Stays e → P { s with engine := e }

namespace Upkeep

section

variable {P : Simulation β μ → Prop} (h : Upkeep P fails) (hrun : RunAgrees (Alone P) fails run)
  (hdeep : fails .exhausted) (hheld : fails .deadlock)

include h

theorem rouse (s : Simulation β μ) (hs : P s) (hlive : s.engine.state ≠ .stopped) :
    P { s with engine := { s.engine with state := .ticking } } :=
  h.drive s _ hs (.enter (by rintro ⟨⟩) (Engine.enter_ticking hlive))

include hrun hheld

theorem runTick : Brings P P fails (Simulation.runTick run) :=
  agrees_alone.mp (h.aligned.runTick (ticking_alone h.move) hrun hheld)

include hdeep

theorem tick (bound : Nat) : Brings P P fails (Simulation.tick run bound) := by
  intro s hs
  by_cases hstopped : s.engine.state = .stopped
  · exact .of_ok (tick_of_stopped hstopped bound) hs
  · have hstart := Engine.start_of_live hstopped
    have hstarted := h.drive s _ hs (.start hstart)
    cases halive : s.engine.loopAlive with
    | true =>
      rw [halive] at hstart
      exact .of_ok (tick_of_alive hstart bound) hstarted
    | false =>
      have hloop : Brings P P fails (loop run bound) :=
        loop_brings (h.runTick hrun hheld) (fun s e hs he => h.drive s e hs (.continues he))
          (fun s e hs he => h.drive s e hs (.continues he)) hdeep bound
      rw [halive] at hstart
      rw [BringsTo, tick_of_driven hstart]
      exact (hloop _ hstarted).bind fun _ => .pure _

theorem answer (bound : Nat) (q : Request) : Agrees (Alone P) fails (Simulation.answer run bound q) :=
  answer_agrees (h.runTick hrun hheld) (fun s hs hlive _ => h.rouse s hs hlive) h.aligned hrun hdeep bound
    (h.tick hrun hdeep hheld bound) q

end

/-- Programs keep it, whatever they ask for. -/
theorem execute {P : Simulation (Code μ) μ → Prop} (h : Upkeep P fails) (hdeep : fails .exhausted)
    (hheld : fails .deadlock) (n : Nat) {r : Role} (p : Program μ r) :
    Brings P P fails (Simulation.execute n p) := by
  rw [← executeWithin_all, ← agrees_alone]
  exact executeWithin_agrees (fun _ : Unit => h.aligned) hdeep
    (fun _ bound hrun k q _ => h.answer (hrun k) hdeep hheld bound q) n () p

end Upkeep

end Simulation

end Vivarium
