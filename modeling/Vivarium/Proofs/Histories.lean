import Vivarium.Proofs.Rounds

/-! # Programs follow the world

Whatever program is run, from outside or as the code of a task, a listener or a method, leads where the
world goes. Programs may be kept from making certain requests, together with all the code that they
run; what they still do is what they would have done.
-/

namespace Vivarium

namespace Program

variable {μ : Type}

/-- Runs a program up to a request that it may not make of the engine as it is then. -/
def execWhere (may : Request → Engine (Job (Code μ)) → Bool) (run : Run (Code μ) μ) (bound : Nat)
    {r : Role} : Program μ r → Act (Code μ) μ r.Answer
  | .done answer => return answer
  | .request q next => do
    if ← Simulation.ask (may q ·.engine) then
      (next (← Simulation.answer run bound q)).execWhere may run bound
    else Simulation.halt .exhausted
  | .memory change next => do
    let m ← modifyGet fun s => (s.memory, { s with memory := change s.memory })
    (next m).execWhere may run bound
  | .schedule owner actor code delay period next => do
    (next (← Simulation.schedule owner ⟨code, actor⟩ delay period)).execWhere may run bound
  | .setBoundary which code next => do
    Simulation.changeEngine (·.setBoundary which (some ⟨code, .nobody⟩))
    next.execWhere may run bound
  | .subscribe container listener code next => do
    (next (← Simulation.onForest (·.subscribe container ⟨listener, code⟩))).execWhere may run bound
  | .subscribeTo holder key listener code next => do
    (next (← Simulation.onAttributes holder (·.subscribe key ⟨listener, code⟩))).execWhere may run bound

/-- Runs a program up to a request that it may not make. -/
def execWithin (may : Request → Bool) (run : Run (Code μ) μ) (bound : Nat) {r : Role} :
    Program μ r → Act (Code μ) μ r.Answer
  | .done answer => return answer
  | .request q next =>
    if may q then do (next (← Simulation.answer run bound q)).execWithin may run bound
    else Simulation.halt .exhausted
  | .memory change next => do
    let m ← modifyGet fun s => (s.memory, { s with memory := change s.memory })
    (next m).execWithin may run bound
  | .schedule owner actor code delay period next => do
    (next (← Simulation.schedule owner ⟨code, actor⟩ delay period)).execWithin may run bound
  | .setBoundary which code next => do
    Simulation.changeEngine (·.setBoundary which (some ⟨code, .nobody⟩))
    next.execWithin may run bound
  | .subscribe container listener code next => do
    (next (← Simulation.onForest (·.subscribe container ⟨listener, code⟩))).execWithin may run bound
  | .subscribeTo holder key listener code next => do
    (next (← Simulation.onAttributes holder (·.subscribe key ⟨listener, code⟩))).execWithin may run bound

theorem execWithin_eq (may : Request → Bool) (run : Run (Code μ) μ) (bound : Nat) {r : Role}
    (p : Program μ r) : p.execWithin may run bound = p.execWhere (fun q _ => may q) run bound := by
  induction p with
  | done => rfl
  | request q next ih =>
    rw [execWithin, execWhere, funext ih]
    rfl
  | memory change next ih => exact congrArg (_ >>= ·) (funext ih)
  | schedule owner actor code delay period next _ ih => exact congrArg (_ >>= ·) (funext ih)
  | setBoundary which code next _ ih => exact congrArg (_ >>= ·) (funext fun _ => ih)
  | subscribe container listener code next _ ih => exact congrArg (_ >>= ·) (funext ih)
  | subscribeTo holder key listener code next _ ih => exact congrArg (_ >>= ·) (funext ih)

theorem execWhere_all (run : Run (Code μ) μ) (bound : Nat) {r : Role} (p : Program μ r) :
    p.execWhere (fun _ _ => true) run bound = p.exec run bound := by
  induction p with
  | done => rfl
  | request q next ih => exact congrArg (Simulation.answer run bound q >>= ·) (funext ih)
  | memory change next ih => exact congrArg (_ >>= ·) (funext ih)
  | schedule owner actor code delay period next _ ih => exact congrArg (_ >>= ·) (funext ih)
  | setBoundary which code next _ ih => exact congrArg (_ >>= ·) (funext fun _ => ih)
  | subscribe container listener code next _ ih => exact congrArg (_ >>= ·) (funext ih)
  | subscribeTo holder key listener code next _ ih => exact congrArg (_ >>= ·) (funext ih)

end Program

namespace Simulation

variable {μ : Type} {ok : Deed → Prop} {may : Request → Bool} {s₀ s s' : Simulation (Code μ) μ}

def runWhere (may : Request → Engine (Job (Code μ)) → Bool) : (bound : Nat) → Run (Code μ) μ
  | 0 => fun _ _ => halt .exhausted
  | bound + 1 => fun o code => (code o).execWhere may (runWhere may bound) bound

def executeWhere (may : Request → Engine (Job (Code μ)) → Bool) (bound : Nat) {r : Role}
    (p : Program μ r) : Act (Code μ) μ r.Answer := p.execWhere may (runWhere may bound) bound

def runWithin (may : Request → Bool) : (bound : Nat) → Run (Code μ) μ
  | 0 => fun _ _ => halt .exhausted
  | bound + 1 => fun o code => (code o).execWithin may (runWithin may bound) bound

def executeWithin (may : Request → Bool) (bound : Nat) {r : Role} (p : Program μ r) :
    Act (Code μ) μ r.Answer := p.execWithin may (runWithin may bound) bound

theorem runWithin_eq (may : Request → Bool) (bound : Nat) :
    runWithin (μ := μ) may bound = runWhere (fun q _ => may q) bound := by
  induction bound with
  | zero => rfl
  | succ bound ih =>
    funext o code
    rw [runWithin, ih]
    exact (code o).execWithin_eq may _ bound

theorem executeWithin_eq (may : Request → Bool) (bound : Nat) {r : Role} (p : Program μ r) :
    executeWithin may bound p = executeWhere (fun q _ => may q) bound p := by
  rw [executeWithin, runWithin_eq, p.execWithin_eq]
  rfl

theorem runWhere_all (bound : Nat) : runWhere (μ := μ) (fun _ _ => true) bound = runCode bound := by
  induction bound with
  | zero => rfl
  | succ bound ih =>
    funext o code
    rw [runWhere, ih]
    exact (code o).execWhere_all _ bound

theorem executeWhere_all (bound : Nat) {r : Role} (p : Program μ r) :
    executeWhere (fun _ _ => true) bound p = execute bound p := by
  rw [executeWhere, runWhere_all, p.execWhere_all]
  rfl

theorem runWithin_all (bound : Nat) : runWithin (μ := μ) (fun _ => true) bound = runCode bound :=
  (runWithin_eq _ bound).trans (runWhere_all bound)

theorem executeWithin_all (bound : Nat) {r : Role} (p : Program μ r) :
    executeWithin (fun _ => true) bound p = execute bound p :=
  (executeWithin_eq _ bound p).trans (executeWhere_all bound p)

section

variable {allows : Request → Engine (Job (Code μ)) → Bool} (hother : ok .other) (hdeath : ok .death)
  (hallows : ∀ b e, allows (.bind b) e = true → ok (.bind b))

include hother hdeath hallows

/-- A program that is kept from some requests does what it would have done. -/
theorem execWhere_follows {run run' : Run (Code μ) μ} (hrun : RunFollows ok run run') (bound : Nat)
    {r : Role} (p : Program μ r) : Follows ok (p.execWhere allows run bound) (p.exec run' bound) := by
  induction p with
  | done answer => exact .pure answer
  | request q next ih =>
    intro s
    rw [Program.execWhere, Program.exec]
    cases hq : allows q s.engine with
    | false =>
      intro a s' hact
      rw [bind_of_ok (a := false) (by rw [← hq]; rfl)] at hact
      cases hact
    | true =>
      intro a s' hact
      rw [bind_of_ok (a := true) (by rw [← hq]; rfl)] at hact
      have hanswer : Follows ok (Simulation.answer run bound q) (Simulation.answer run' bound q) :=
        .answer hother hrun hdeath q fun b hb => hallows b s.engine (hb ▸ hq)
      exact (Follows.bind hanswer ih) s a s' hact
  | memory change next ih =>
    refine .bind (.aside fun s a s' hact => ?_) ih
    cases hact
    exact ⟨rfl, rfl⟩
  | schedule owner actor code delay period next _ ih => exact .bind (.schedule hother _ _ _ _) ih
  | setBoundary which code next _ ih =>
    exact .bind (.changeEngine hother fun e => .setBoundary which _ e) fun _ => ih
  | subscribe container listener code next _ ih => exact .bind (.subscribe hother _ _) ih
  | subscribeTo holder key listener code next _ ih => exact .bind (.onAttributes hother _ _) ih

theorem runWhere_follows (bound : Nat) :
    RunFollows ok (runWhere (μ := μ) allows bound) (runCode bound) := by
  induction bound with
  | zero => exact fun _ _ => .halt _ _
  | succ bound ih => exact fun o code => execWhere_follows hother hdeath hallows ih bound (code o)

theorem executeWhere_follows (bound : Nat) {r : Role} (p : Program μ r) :
    Follows ok (executeWhere allows bound p) (execute bound p) :=
  execWhere_follows hother hdeath hallows (runWhere_follows hother hdeath hallows bound) bound p

end

theorem executeWithin_follows (hother : ok .other) (hdeath : ok .death)
    (hmay : ∀ b, may (.bind b) = true → ok (.bind b)) (bound : Nat) {r : Role} (p : Program μ r) :
    Follows ok (executeWithin may bound p) (execute bound p) := by
  rw [executeWithin_eq]
  exact executeWhere_follows hother hdeath (fun b _ => hmay b) bound p

theorem runCode_follows (bound : Nat) :
    RunFollows (fun _ => True) (runCode (μ := μ) bound) (runCode bound) := by
  have hruns : RunFollows (fun _ => True) (runWhere (μ := μ) (fun _ _ => true) bound) (runCode bound) :=
    runWhere_follows trivial trivial (fun _ _ _ => trivial) bound
  rwa [runWhere_all] at hruns

theorem execute_follows (bound : Nat) {r : Role} (p : Program μ r) :
    Follows (fun _ => True) (execute bound p) (execute bound p) := by
  have hruns : Follows (fun _ => True) (executeWhere (fun _ _ => true) bound p) (execute bound p) :=
    executeWhere_follows trivial trivial (fun _ _ _ => trivial) bound p
  rwa [executeWhere_all] at hruns

/-! ## Beginnings -/

/-- A simulation with a new engine and a lone root, whatever else it has. -/
def New (bound : Bool) (s : Simulation (Code μ) μ) : Prop :=
  ∃ config e limit, Engine.create config = .ok e ∧ s.engine = e ∧ s.forest = Forest.create bound limit

/-- Whether an operation comes to an end in which something holds. -/
def endsWith {α : Type} (act : Act (Code μ) μ α) (s : Simulation (Code μ) μ)
    (holds : α → Simulation (Code μ) μ → Bool) : Bool :=
  match act s with
  | .ok (a, s') => holds a s'
  | .error _ => false

theorem endsWith_iff {α : Type} {act : Act (Code μ) μ α} {holds : α → Simulation (Code μ) μ → Bool} :
    endsWith act s holds = true ↔ ∃ a s', act s = .ok (a, s') ∧ holds a s' = true := by
  unfold endsWith
  cases act s with
  | error why => exact iff_of_false Bool.false_ne_true (by rintro ⟨_, _, ⟨⟩, _⟩)
  | ok p =>
    refine ⟨fun h => ⟨p.1, p.2, rfl, h⟩, ?_⟩
    rintro ⟨a, s', heq, h⟩
    cases heq
    exact h

theorem eq_ok_of_toOption {ε α : Type} {x : Except ε α} {a : α} (h : x.toOption = some a) : x = .ok a := by
  cases x with
  | error => cases h
  | ok b => exact congrArg Except.ok (Option.some.inj h)

/-- Nothing but an engine, of ten ticks in a second, and a root. -/
def blank (bound : Bool) : Simulation (Code Unit) Unit :=
  create { config := (EngineConfig.standard 1).withTicksPerSecond 10, meter := { ticksPerSecond := 10 } }
    bound none ()

theorem blank_new (bound : Bool) : (blank bound).New bound :=
  ⟨(EngineConfig.standard 1).withTicksPerSecond 10, _, none, rfl, rfl, rfl⟩

theorem New.begins {bound : Bool} (h : s.New bound) :
    ∃ w : World (Code μ), w.Begins bound ∧ w.Rests s := by
  obtain ⟨config, e, limit, he, hengine, hforest⟩ := h
  exact ⟨_, ⟨config, e, limit, he, rfl⟩, ⟨hengine, hforest⟩, rfl⟩

end Simulation

end Vivarium
