import Vivarium.Proofs.Recording

/-! # Code that keeps a record

A memory may hold a record, to which code adds notes. What is noted in the course of an operation is
described by a relation between the states before and after it; where such a relation composes, it
holds of every program whose requests respect it.
-/

namespace Vivarium

/-- A memory with a record in it. -/
structure Notebook (μ ρ : Type) where
  heard : μ → List ρ
  note : ρ → μ → μ
  heard_note : ∀ r m, heard (note r m) = heard m ++ [r]

/-- A memory that is nothing but a record. -/
def Notebook.plain (ρ : Type) : Notebook (List ρ) ρ where
  heard m := m
  note r m := m ++ [r]
  heard_note _ _ := rfl

/-- Whether a listener begins to deal with an event or is done with it. -/
inductive TurnStage
  | told
  | done
  deriving DecidableEq

namespace Request

/-- The request changes nothing. -/
def looks : Request → Bool
  | .now | .status | .isFlagged _ | .isActive _ | .taskStatus _ | .isActiveOwned _ _ | .ownedTasks _
  | .idOf _ | .isAlive _ | .parentOf _ | .rootOf _ | .child _ _ | .search _ _ | .children _ | .ofType _ _
  | .isDescendant _ _ | .limit | .isBound | .marks _ | .getAttribute _ _ | .attributes _
  | .registeredTypes | .isResolved _ | .ancestors _ => true
  | _ => false

end Request

namespace Simulation

variable {β μ : Type}

theorem answer_of_looks (run : Run β μ) (bound : Nat) {q : Request} (h : q.looks = true)
    (s : Simulation β μ) : ∃ a, answer run bound q s = .ok (a, s) := by
  cases q <;> first | exact ⟨_, rfl⟩ | cases h

end Simulation

namespace Program

variable {μ ρ : Type} {r r' : Role}

/-- Does one program after the other. -/
def andThen {r r' : Role} : Program μ r → (r.Answer → Program μ r') → Program μ r'
  | .done answer, p => p answer
  | .request q next, p => .request q fun a => (next a).andThen p
  | .memory change next, p => .memory change fun m => (next m).andThen p
  | .schedule owner actor code delay period next, p =>
    .schedule owner actor code delay period fun id => (next id).andThen p
  | .setBoundary which code next, p => .setBoundary which code (next.andThen p)
  | .subscribe container listener code next, p =>
    .subscribe container listener code fun added => (next added).andThen p
  | .subscribeTo holder key listener code next, p =>
    .subscribeTo holder key listener code fun added => (next added).andThen p

theorem exec_andThen (run : Run (Code μ) μ) (bound : Nat) (p : Program μ r)
    (next : r.Answer → Program μ r') :
    (p.andThen next).exec run bound = p.exec run bound >>= fun a => (next a).exec run bound := by
  induction p with
  | done answer => rfl
  | request q k ih | memory change k ih | schedule _ _ _ _ _ k _ ih | subscribe _ _ _ k _ ih
  | subscribeTo _ _ _ _ k _ ih =>
    simp only [andThen, exec, bind_assoc]
    congr
    funext a
    exact ih a next
  | setBoundary which code k _ ih =>
    simp only [andThen, exec, bind_assoc]
    congr
    funext _
    exact ih next

/-- The program makes no other requests than these, leaves the record alone and passes no code on. -/
def Keeps (may : Request → Bool) (nb : Notebook μ ρ) {r : Role} : Program μ r → Prop
  | .done _ => True
  | .request q next => may q = true ∧ ∀ a, (next a).Keeps may nb
  | .memory change next => (∀ m, nb.heard (change m) = nb.heard m) ∧ ∀ m, (next m).Keeps may nb
  | _ => False

end Program

namespace Simulation

variable {β μ ρ α γ ι : Type} {nb : Notebook μ ρ} {I : Simulation β μ → Prop}
  {D : Simulation β μ → List ρ → Simulation β μ → Prop} {act act' : Act β μ α} {s s₁ : Simulation β μ}

/-- Where the operation ends, `I` holds and what was noted meanwhile is as `D` says. -/
def LogsAt (nb : Notebook μ ρ) (I : Simulation β μ → Prop)
    (D : Simulation β μ → List ρ → Simulation β μ → Prop) (act : Act β μ α) (s : Simulation β μ) : Prop :=
  ∀ a s', act s = .ok (a, s') →
    I s' ∧ ∃ rs, nb.heard s'.memory = nb.heard s.memory ++ rs ∧ D s rs s'

/-- From wherever `I` holds. -/
def Logs (nb : Notebook μ ρ) (I : Simulation β μ → Prop)
    (D : Simulation β μ → List ρ → Simulation β μ → Prop) (act : Act β μ α) : Prop :=
  ∀ s, I s → LogsAt nb I D act s

/-- What holds of one stretch after the other holds of both together. -/
class Composes (I : Simulation β μ → Prop) (D : Simulation β μ → List ρ → Simulation β μ → Prop) :
    Prop where
  still : ∀ {s}, I s → ∀ m, I (s.remember m) ∧ D s [] (s.remember m)
  append : ∀ {s s' s'' rs rs'}, D s rs s' → D s' rs' s'' → D s (rs ++ rs') s''

namespace LogsAt

variable [Composes I D]

theorem bind {next : α → Act β μ γ} (h : LogsAt nb I D act s)
    (hn : ∀ a s' rs, act s = .ok (a, s') → I s' → D s rs s' → LogsAt nb I D (next a) s') :
    LogsAt nb I D (act >>= next) s := by
  intro c s'' hact
  obtain ⟨a, s', hact, hnext⟩ := bind_ok hact
  obtain ⟨hI, rs, hheard, hrs⟩ := h a s' hact
  obtain ⟨hI', rs', hheard', hrs'⟩ := hn a s' rs hact hI hrs c s'' hnext
  exact ⟨hI', rs ++ rs', by rw [hheard', hheard, List.append_assoc], Composes.append I hrs hrs'⟩

theorem from_later (hfirst : D s [] s₁) (hmemory : s₁.memory = s.memory) (heq : act s = act' s₁)
    (h : LogsAt nb I D act' s₁) : LogsAt nb I D act s := by
  intro a s' hact
  rw [heq] at hact
  obtain ⟨hI, rs, hheard, hrs⟩ := h a s' hact
  exact ⟨hI, rs, by rw [hheard, hmemory], Composes.append I hfirst hrs⟩

theorem still (hI : I s) (h : ∀ a s', act s = .ok (a, s') → s' = s) : LogsAt nb I D act s := by
  intro a s' hact
  obtain rfl := h a s' hact
  obtain ⟨hI', hstill⟩ := Composes.still (D := D) hI s'.memory
  exact ⟨hI', [], (List.append_nil _).symm, hstill⟩

theorem pure (hI : I s) (a : α) : LogsAt nb I D (Pure.pure a : Act β μ α) s := by
  apply still hI
  intro _ s' hact
  cases hact
  rfl

theorem answers (h : LogsAt nb I D act s) (f : α → γ) :
    LogsAt nb I D (act >>= fun a => Pure.pure (f a)) s := h.bind fun _ _ _ _ hI _ => .pure hI _

omit [Composes I D] in
theorem asked {f : Simulation β μ → γ} {next : γ → Act β μ α} (h : LogsAt nb I D (next (f s)) s) :
    LogsAt nb I D (Simulation.ask f >>= next) s := h

/-- Turn by turn, where every turn keeps to a condition. -/
theorem forIn {C : Simulation β μ → Prop} {f : ι → PUnit → Act β μ (ForInStep PUnit)} (xs : List ι)
    (hC : ∀ s rs s', C s → D s rs s' → C s')
    (h : ∀ x ∈ xs, ∀ s, I s → C s → LogsAt nb I D (f x ⟨⟩) s) (hI : I s) (hc : C s) :
    LogsAt nb I D (ForIn.forIn xs PUnit.unit f) s := by
  induction xs generalizing s with
  | nil => exact .pure hI _
  | cons x xs ih =>
    obtain ⟨hx, hxs⟩ := List.forall_mem_cons.mp h
    rw [List.forIn_cons]
    apply (hx s hI hc).bind
    intro step s' rs _ hI' hrs
    cases step with
    | done => exact .pure hI' _
    | yield => exact ih hxs hI' (hC s rs s' hc hrs)

end LogsAt

namespace Logs

variable [Composes I D]

theorem bind {next : α → Act β μ γ} (h : Logs nb I D act) (hn : ∀ a, Logs nb I D (next a)) :
    Logs nb I D (act >>= next) := fun s hI => (h s hI).bind fun a s' _ _ hI' _ => hn a s' hI'

theorem pure (a : α) : Logs nb I D (Pure.pure a : Act β μ α) := fun _ hI => .pure hI a

theorem answers (h : Logs nb I D act) (f : α → γ) : Logs nb I D (act >>= fun a => Pure.pure (f a)) :=
  fun s hI => (h s hI).answers f

omit [Composes I D] in
theorem asked {f : Simulation β μ → γ} {next : γ → Act β μ α} (h : ∀ a, Logs nb I D (next a)) :
    Logs nb I D (Simulation.ask f >>= next) := fun s hI => .asked (h (f s) s hI)

theorem forIn {f : ι → PUnit → Act β μ (ForInStep PUnit)} (xs : List ι)
    (h : ∀ x ∈ xs, Logs nb I D (f x ⟨⟩)) : Logs nb I D (ForIn.forIn xs PUnit.unit f) := fun _ hI =>
  .forIn (C := fun _ => True) xs (fun _ _ _ _ _ => trivial) (fun x hx s hI _ => h x hx s hI) hI trivial

theorem looks {run : Run β μ} {bound : Nat} {q : Request} (h : q.looks = true) :
    Logs nb I D (Simulation.answer run bound q) := by
  intro s hI
  apply LogsAt.still hI
  intro _ s' hact
  obtain ⟨a, heq⟩ := answer_of_looks run bound h s
  rw [heq] at hact
  cases hact
  rfl

end Logs

theorem Logs.exec {I : Simulation (Code μ) μ → Prop}
    {D : Simulation (Code μ) μ → List ρ → Simulation (Code μ) μ → Prop} [Composes I D]
    {run : Run (Code μ) μ} {bound : Nat} {may : Request → Bool}
    (hmay : ∀ q, may q = true → Logs nb I D (Simulation.answer run bound q)) {r : Role}
    {p : Program μ r} (hp : p.Keeps may nb) : Logs nb I D (p.exec run bound) := by
  induction p with
  | done answer => exact .pure answer
  | request q next ih =>
    obtain ⟨hq, hnext⟩ := hp
    exact (hmay q hq).bind fun a => ih a (hnext a)
  | memory change next ih =>
    obtain ⟨hchange, hnext⟩ := hp
    apply Logs.bind
    · intro s hI m s' hact
      cases hact
      obtain ⟨hI', hstill⟩ := Composes.still (D := D) hI (change s.memory)
      exact ⟨hI', [], by rw [hchange, List.append_nil], hstill⟩
    · exact fun m => ih m (hnext m)
  | _ => exact hp.elim

theorem Logs.between {I : Simulation (Code μ) μ → Prop}
    {D : Simulation (Code μ) μ → List ρ → Simulation (Code μ) μ → Prop} [Composes I D]
    {run : Run (Code μ) μ} {bound : Nat} (told done : Simulation (Code μ) μ → ρ)
    {first last p : Program μ .listener} {s s' : Simulation (Code μ) μ} {u : Unit}
    (hfirst : ∀ s, first.exec run bound s = .ok ((), s.remember (nb.note (told s) s.memory)))
    (hlast : ∀ s, last.exec run bound s = .ok ((), s.remember (nb.note (done s) s.memory)))
    (hdone : ∀ s m, done (s.remember m) = done s) (hp : Logs nb I D (p.exec run bound)) (hI : I s)
    (hact : (first.andThen fun _ => p.andThen fun _ => last).exec run bound s = .ok (u, s')) :
    I s' ∧ ∃ rs, nb.heard s'.memory = nb.heard s.memory ++ (told s :: rs ++ [done s']) ∧ D s rs s' := by
  rw [Program.exec_andThen, bind_of_ok (hfirst s), Program.exec_andThen] at hact
  obtain ⟨_, s₁, hbetween, hact⟩ := bind_ok hact
  obtain ⟨hI₀, hstill⟩ := Composes.still (D := D) hI (nb.note (told s) s.memory)
  obtain ⟨hI₁, rs, hheard, hrs⟩ := hp _ hI₀ _ _ hbetween
  obtain ⟨hI', hstill'⟩ := Composes.still (D := D) hI₁ (nb.note (done s₁) s₁.memory)
  rw [hlast] at hact
  cases hact
  -- The two notes change nothing that `D` speaks of.
  refine ⟨hI', rs, ?_, ?_⟩
  · rw [hdone]
    simp only [remember, nb.heard_note, hheard, List.append_assoc, List.cons_append, List.nil_append]
  · have hwhole := Composes.append I (Composes.append I hstill hrs) hstill'
    rwa [List.nil_append, List.append_nil] at hwhole

end Simulation

/-! ## Listeners that look -/

/-- What a listener of a container sees of the entity that an event is about. -/
structure Report where
  stage : TurnStage
  listener : ListenerId
  event : EntityEvent
  alive : Bool
  children : List EntityRef
  deriving DecidableEq

namespace Notebook

variable {μ : Type}

/-- Looks at the entity and notes what there is to see. -/
def look (nb : Notebook μ Report) (stage : TurnStage) (l : ListenerId) (event : EntityEvent) :
    Program μ .listener :=
  .request (.isAlive event.ref) fun alive => .request (.children event.ref) fun children =>
    .memory (nb.note ⟨stage, l, event, alive, children⟩) fun _ => .done ()

end Notebook

namespace Simulation

variable {β μ : Type}

def report (stage : TurnStage) (l : ListenerId) (event : EntityEvent) (s : Simulation β μ) : Report :=
  ⟨stage, l, event, s.forest.isAlive event.ref, s.forest.children event.ref⟩

theorem exec_look {nb : Notebook μ Report} {run : Run (Code μ) μ} {bound : Nat} (stage : TurnStage)
    (l : ListenerId) (event : EntityEvent) (s : Simulation (Code μ) μ) :
    (nb.look stage l event).exec run bound s =
      .ok ((), s.remember (nb.note (s.report stage l event) s.memory)) := rfl

end Simulation

end Vivarium
