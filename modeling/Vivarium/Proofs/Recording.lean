import Vivarium.Proofs.Dying
import Vivarium.Proofs.Histories

/-! # Listeners that only remember

Listeners that use nothing but the memory leave a killing as it would be without them: it comes to its
end, and only the memory is different.
-/

namespace Vivarium

namespace Forest

variable {β : Type} {f : Forest β}

/-- Children were made after their parents. -/
def Ordered (f : Forest β) : Prop := ∀ p, ∀ c ∈ f.children p, p.index < c.index ∧ c.index < f.size

theorem Rooted.ordered {cut : List EntityRef} (h : f.Rooted cut) : f.Ordered := by
  intro p c hc
  have hmade := h.made_of_child hc
  obtain ⟨q, hq, hlt⟩ := h.older c hmade
  obtain rfl := Option.some.inj (hq.symm.trans (h.child p c hc).1)
  exact ⟨hlt, hmade.2⟩

theorem Ordered.fell (h : f.Ordered) (e : EntityRef) (bound : Bool) : (f.fell e bound).Ordered := by
  intro p c hc
  rw [children_fell] at hc
  split at hc
  · cases hc
  · rw [Forest.fell, size_modify]
    exact h p c hc

theorem Ordered.removeChild (h : f.Ordered) (p e : EntityRef) : (f.removeChild p e).Ordered := by
  intro q c hc
  rw [size_removeChild]
  exact h q c ((children_removeChild_sublist p e q f).subset hc)

end Forest

namespace Simulation

variable {β μ α γ ι : Type} {ok : Deed → Prop} {run : Run β μ} {s s' : Simulation β μ} {bound : Bool}
  {depth : Nat} {e c container : EntityRef} {id : EntityId}

def remember (m : μ) (s : Simulation β μ) : Simulation β μ := { s with memory := m }

/-- The listeners of entities change nothing but the memory. -/
def Records (run : Run β μ) (s : Simulation β μ) : Prop :=
  ∀ e, ∀ l ∈ (s.forest.entity e).listeners, ∀ event s₁,
    ∃ m, run (.entityEvent event) l.code s₁ = .ok ((), s₁.remember m)

theorem Records.of_listeners (h : s.Records run)
    (hs : ∀ x, (s'.forest.entity x).listeners = (s.forest.entity x).listeners) : s'.Records run :=
  fun x l hl => h x l (hs x ▸ hl)

/-- Code that does nothing. -/
def silent : Run β μ := fun o _ => return o.role.idle

theorem silent_follows : ListenersFollow ok (silent : Run β μ) silent := fun _ _ => .pure _

theorem silent_spares : ListenersSpare (silent : Run β μ) := fun _ _ => .pure _

/-- But for the memory, `act` does what `act'` does. -/
def Echoes (run : Run β μ) (act act' : Act β μ α) (s : Simulation β μ) : Prop :=
  s.Records run → ∀ m, ∃ m', act (s.remember m) = (act' s).map (fun p => (p.1, p.2.remember m')) ∧
    ∀ a s', act' s = .ok (a, s') → s'.Records run

namespace Echoes

variable {act act' : Act β μ α}

theorem bind {next next' : α → Act β μ γ} (h : Echoes run act act' s)
    (hn : ∀ a s', act' s = .ok (a, s') → Echoes run (next a) (next' a) s') :
    Echoes run (act >>= next) (act' >>= next') s := by
  intro hrec m
  obtain ⟨m', hact, hrec'⟩ := h hrec m
  cases hact' : act' s with
  | error why =>
    rw [hact'] at hact
    have herror : (act >>= next) (s.remember m) = .error why := bind_of_error hact
    have herror' : (act' >>= next') s = .error why := bind_of_error hact'
    rw [herror, herror']
    exact ⟨m', rfl, by rintro _ _ ⟨⟩⟩
  | ok p =>
    rw [hact'] at hact
    rw [bind_of_ok hact, bind_of_ok hact']
    exact hn p.1 p.2 hact' (hrec' p.1 p.2 hact') m'

theorem pure (a : α) : Echoes run (Pure.pure a : Act β μ α) (Pure.pure a) s := by
  intro hrec m
  refine ⟨m, rfl, fun _ s' hact => ?_⟩
  cases hact
  exact hrec

theorem ask {f : Simulation β μ → α} (h : ∀ m, f (s.remember m) = f s) :
    Echoes run (Simulation.ask f) (Simulation.ask f) s := by
  intro hrec m
  refine ⟨m, ?_, fun _ s' hact => ?_⟩
  · change Except.ok (f (s.remember m), _) = _
    rw [h]
    rfl
  · cases hact
    exact hrec

theorem forIn {f f' : ι → PUnit → Act β μ (ForInStep PUnit)} (xs : List ι)
    (h : ∀ x ∈ xs, ∀ s, Echoes run (f x ⟨⟩) (f' x ⟨⟩) s) (s : Simulation β μ) :
    Echoes run (ForIn.forIn xs ⟨⟩ f) (ForIn.forIn xs ⟨⟩ f') s := by
  induction xs generalizing s with
  | nil => exact .pure _
  | cons x xs ih =>
    obtain ⟨hx, hxs⟩ := List.forall_mem_cons.mp h
    rw [List.forIn_cons, List.forIn_cons]
    refine (hx s).bind fun step s' _ => ?_
    cases step with
    | done => exact .pure _
    | yield => exact ih hxs s'

theorem listen {event : EntityEvent} {l : Listener β}
    (hl : ∀ s₁, ∃ m, run (.entityEvent event) l.code s₁ = .ok ((), s₁.remember m)) (s : Simulation β μ) :
    Echoes run (run (.entityEvent event) l.code) (silent (.entityEvent event) l.code) s := by
  intro hrec m
  obtain ⟨m', hact⟩ := hl (s.remember m)
  refine ⟨m', hact, fun _ s' hact' => ?_⟩
  cases hact'
  exact hrec

theorem tell {listeners : List (Listener β)}
    (hl : ∀ l ∈ listeners, ∀ event s₁, ∃ m, run (.entityEvent event) l.code s₁ = .ok ((), s₁.remember m))
    (event : EntityEvent) (s : Simulation β μ) :
    Echoes run (ForIn.forIn listeners PUnit.unit fun l _ => run (.entityEvent event) l.code >>= fun _ =>
        Pure.pure (.yield PUnit.unit))
      (ForIn.forIn listeners PUnit.unit fun l _ => silent (.entityEvent event) l.code >>= fun _ =>
        Pure.pure (.yield PUnit.unit)) s :=
  .forIn _ (fun l hmem s => (listen (hl l hmem event) s).bind fun _ _ _ => .pure _) s

theorem announce (container : EntityRef) (event : EntityEvent) (s : Simulation β μ) :
    Echoes run (Simulation.announce run container event) (Simulation.announce silent container event)
      s := by
  refine .bind (.ask fun _ => rfl) fun listeners s' hask hrec => ?_
  cases hask
  exact Echoes.bind (.tell (hrec container) event s) (fun _ _ _ => .pure _) hrec

theorem die (bound : Bool) (depth : Nat) (e : EntityRef) (s : Simulation β μ) :
    Echoes run (Simulation.die run bound depth e) (Simulation.die silent bound depth e) s := by
  induction depth generalizing e s with
  | zero => exact fun _ m => ⟨m, rfl, by rintro _ _ ⟨⟩⟩
  | succ depth ih =>
    intro hrec m
    cases hlive : s.forest.isAlive e with
    | false =>
      rw [die_of_dead hlive, die_of_dead (s := s.remember m) hlive]
      exact (Echoes.pure ()) hrec m
    | true =>
      have hrec' : (s.slay e bound).Records run :=
        hrec.of_listeners fun _ => Forest.field_modify (·.listeners) fun _ => rfl
      rw [die_of_alive hlive, die_of_alive (s := s.remember m) hlive]
      -- The listeners are read after the children have died, so they must still be the same ones.
      refine Echoes.bind (.forIn _ (fun c _ s => (ih c s).bind fun _ _ _ => .pure _) _)
        (fun _ s₁ _ => .bind (.ask fun _ => rfl) fun listeners s₂ hask hrec₂ => ?_) hrec' m
      cases hask
      exact Echoes.bind (.forIn _ (fun c _ s => (Echoes.tell (hrec₂ e) (.killed c) s).bind
        fun _ _ _ => .pure _) _) (fun _ _ _ => .pure _) hrec₂

theorem killEntity (depth : Nat) (container : EntityRef) (id : EntityId) (s : Simulation β μ) :
    Echoes run (Simulation.killEntity run depth container id)
      (Simulation.killEntity silent depth container id) s := by
  intro hrec m
  cases hc : s.forest.child? container id with
  | none =>
    rw [killEntity_of_none hc, killEntity_of_none (s := s.remember m) hc]
    exact (Echoes.pure false) hrec m
  | some c =>
    have hrec' : ({ s with forest := s.forest.removeChild container c } : Simulation β μ).Records run :=
      hrec.of_listeners fun _ => Forest.field_modify (·.listeners) fun _ => rfl
    rw [killEntity_of_some hc, killEntity_of_some (s := s.remember m) hc]
    exact Echoes.bind (.die s.forest.bound depth c _) (fun _ s₁ _ =>
      .bind (.announce container (.killed c) s₁) fun _ _ _ => .pure _) hrec' m

theorem kill (depth : Nat) (e : EntityRef) (s : Simulation β μ) :
    Echoes run (Simulation.kill run depth e) (Simulation.kill silent depth e) s := by
  refine .bind (.ask fun _ => rfl) fun parent s₁ _ => ?_
  cases parent with
  | none => exact .pure _
  | some p => exact .bind (.ask fun _ => rfl) fun id s₂ _ => .killEntity depth p id s₂

theorem killEntities (depth : Nat) (container : EntityRef) (s : Simulation β μ) :
    Echoes run (Simulation.killEntities run depth container)
      (Simulation.killEntities silent depth container) s :=
  .bind (.ask fun _ => rfl) fun _ s₁ _ => .bind
    (.forIn _ (fun id _ s₂ => .bind (.killEntity depth container id s₂) fun _ _ _ => .pure _) s₁)
    fun _ _ _ => .pure _

theorem shutdown (depth : Nat) (s : Simulation β μ) :
    Echoes run (Simulation.shutdown run depth) (Simulation.shutdown silent depth) s :=
  .bind (.ask fun _ => rfl) fun bound s₁ _ => .die bound depth Forest.root s₁

/-- What comes to an end without the listeners does so with them. -/
theorem heard {act act' : Act β μ α} {a : α} (h : Echoes run act act' s) (hrec : s.Records run)
    (hact : act' s = .ok (a, s')) : ∃ m, act s = .ok (a, s'.remember m) := by
  obtain ⟨m, heq, -⟩ := h hrec s.memory
  rw [hact] at heq
  exact ⟨m, heq⟩

/-- What comes to an end does so without the listeners too. -/
theorem unheard {act act' : Act β μ α} {a : α} (h : Echoes run act act' s) (hrec : s.Records run)
    (hact : act s = .ok (a, s')) : ∃ s₁, act' s = .ok (a, s₁) ∧ s₁.engine = s'.engine ∧
      s₁.forest = s'.forest := by
  obtain ⟨m, heq, -⟩ := h hrec s.memory
  rw [show s.remember s.memory = s from rfl, hact] at heq
  cases hact' : act' s with
  | error why =>
    rw [hact'] at heq
    cases heq
  | ok p =>
    rw [hact'] at heq
    cases heq
    exact ⟨p.2, rfl, rfl, rfl⟩

end Echoes

/-! ## Killings come to an end -/

theorem silent_loop {f : ι → PUnit → Act β μ (ForInStep PUnit)} (xs : List ι)
    (h : ∀ x s, f x ⟨⟩ s = .ok (.yield ⟨⟩, s)) (s : Simulation β μ) :
    ForIn.forIn xs PUnit.unit f s = .ok (⟨⟩, s) := by
  induction xs with
  | nil => rfl
  | cons x xs ih =>
    rw [List.forIn_cons]
    exact (bind_of_ok (h x s)).trans ih

theorem tell_silent (event : EntityEvent) (listeners : List (Listener β)) (s : Simulation β μ) :
    (ForIn.forIn listeners PUnit.unit fun l _ => silent (.entityEvent event) l.code >>= fun _ =>
      Pure.pure (.yield PUnit.unit)) s = .ok (⟨⟩, s) :=
  silent_loop listeners (fun _ _ => rfl) s

/-- The operation comes to an end, and the tree is in order and has nobody new. -/
def Finishes (act : Act β μ α) (s : Simulation β μ) : Prop :=
  ∃ a s', act s = .ok (a, s') ∧ s'.forest.Ordered ∧ s'.forest.size = s.forest.size

theorem Finishes.bind {act : Act β μ α} {next : α → Act β μ γ} (h : Finishes act s)
    (hn : ∀ a s', s'.forest.Ordered → s'.forest.size = s.forest.size → Finishes (next a) s') :
    Finishes (act >>= next) s := by
  obtain ⟨a, s', hact, hord, hsize⟩ := h
  obtain ⟨c, s'', hnext, hord', hsize'⟩ := hn a s' hord hsize
  exact ⟨c, s'', (bind_of_ok hact).trans hnext, hord', hsize'.trans hsize⟩

theorem Finishes.still {act : Act β μ α} {a : α} (hord : s.forest.Ordered) (hact : act s = .ok (a, s)) :
    Finishes act s := ⟨a, s, hact, hord, rfl⟩

theorem Finishes.forIn {f : ι → PUnit → Act β μ (ForInStep PUnit)} (xs : List ι) (n : Nat)
    (h : ∀ x ∈ xs, ∀ s, s.forest.Ordered → s.forest.size = n → Finishes (f x ⟨⟩) s)
    (hord : s.forest.Ordered) (hsize : s.forest.size = n) : Finishes (ForIn.forIn xs PUnit.unit f) s := by
  induction xs generalizing s with
  | nil => exact .still hord rfl
  | cons x xs ih =>
    obtain ⟨hx, hxs⟩ := List.forall_mem_cons.mp h
    rw [List.forIn_cons]
    refine (hx s hord hsize).bind fun step s' hord' hsize' => ?_
    cases step with
    | done => exact .still hord' rfl
    | yield => exact ih hxs hord' (hsize'.trans hsize)

theorem die_finishes (hord : s.forest.Ordered) (he : e.index < s.forest.size)
    (hdepth : s.forest.size ≤ e.index + depth) : Finishes (die silent bound depth e) s := by
  -- A child was made after its parent, so it needs one level less than its parent does.
  induction depth generalizing e s with
  | zero => exact absurd he (Nat.not_lt_of_le hdepth)
  | succ depth ih =>
    cases hlive : s.forest.isAlive e with
    | false => exact .still hord (die_of_dead hlive)
    | true =>
      have hfell : (s.slay e bound).forest.Ordered := hord.fell e bound
      have hsize : (s.slay e bound).forest.size = s.forest.size := Forest.size_modify _ _ _
      have hbury : Finishes (bury silent bound depth e (s.forest.children e)) (s.slay e bound) := by
        refine .bind (.forIn _ s.forest.size (fun c hc s' hord' hsize' => ?_) hfell hsize) ?_
        · obtain ⟨hlt, hmade⟩ := hord e c hc
          refine (ih hord' (hsize' ▸ hmade) ?_).bind fun _ _ hord' _ => .still hord' rfl
          rw [hsize']
          omega
        · intro _ s' hord' _
          refine Finishes.bind (.still hord' rfl) fun listeners s'' hord'' _ => ?_
          refine .still hord'' (bind_of_ok (silent_loop _ (fun c s => ?_) s''))
          exact bind_of_ok (tell_silent (.killed c) listeners s)
      obtain ⟨a, s', hact, hord', hsize'⟩ := hbury
      exact ⟨a, s', (die_of_alive hlive).trans hact, hord', hsize'.trans hsize⟩

theorem killEntity_finishes (container : EntityRef) (id : EntityId) (hord : s.forest.Ordered)
    (hdepth : s.forest.size ≤ depth) : Finishes (killEntity silent depth container id) s := by
  cases hc : s.forest.child? container id with
  | none => exact .still hord (killEntity_of_none hc)
  | some c =>
    have hmade := (hord container c (Forest.mem_of_child? hc).1).2
    have hsize := Forest.size_removeChild container c s.forest
    obtain ⟨a, s', hact, hord', hsize'⟩ : Finishes (do
        die silent s.forest.bound depth c
        announce silent container (.killed c)
        return true) { s with forest := s.forest.removeChild container c } := by
      refine .bind (die_finishes (hord.removeChild container c) (hsize.symm ▸ hmade) ?_) fun _ s' hord' _ => ?_
      · rw [hsize]
        exact Nat.le_trans hdepth (Nat.le_add_left _ _)
      · refine .bind ?_ fun _ _ hord' _ => .still hord' rfl
        exact .bind (.still hord' rfl) fun ls s'' hord'' _ => .still hord'' (bind_of_ok (tell_silent _ ls s''))
    exact ⟨a, s', (killEntity_of_some hc).trans hact, hord', hsize'.trans hsize⟩

/-- The child and what is below it dies, and the killing comes to an end. -/
theorem Records.killEntity (hrec : s.Records run) (hquiet : s.Quiet)
    (hc : s.forest.child? container id = some c) (hdepth : s.forest.size ≤ depth) :
    ∃ s', Simulation.killEntity run depth container id s = .ok (true, s') ∧
      s.forest.Slain c s'.forest := by
  obtain ⟨b, s', hact, -⟩ := killEntity_finishes container id hquiet.rooted.ordered hdepth
  obtain ⟨rfl, -⟩ := killEntity_ok hc hact
  obtain ⟨m, hheard⟩ := (Echoes.killEntity depth container id s).heard hrec hact
  have hfollows : ListenersFollow (fun _ => True) (silent : Run β μ) silent := silent_follows
  have hslain : s.forest.Slain c s'.forest :=
    killEntity_slays hfollows trivial silent_spares hquiet hc hact
  exact ⟨_, hheard, hslain⟩

end Simulation

/-! ## Code that only remembers -/

namespace Program

variable {μ : Type}

/-- The program uses nothing but the memory. -/
def Remembers {r : Role} : Program μ r → Prop
  | .done _ => True
  | .memory _ next => ∀ m, (next m).Remembers
  | _ => False

theorem Remembers.exec {run : Run (Code μ) μ} {bound : Nat} {r : Role} {p : Program μ r} (h : p.Remembers)
    (s : Simulation (Code μ) μ) : ∃ a m, p.exec run bound s = .ok (a, s.remember m) := by
  induction p generalizing s with
  | done answer => exact ⟨answer, s.memory, rfl⟩
  | memory change next ih =>
    obtain ⟨a, m, hact⟩ := ih s.memory (h s.memory) (s.remember (change s.memory))
    exact ⟨a, m, hact⟩
  | _ => exact h.elim

end Program

namespace Simulation

variable {μ : Type} {s : Simulation (Code μ) μ}

/-- The listeners of entities use nothing but the memory. -/
def Recorded (s : Simulation (Code μ) μ) : Prop :=
  ∀ e, ∀ l ∈ (s.forest.entity e).listeners, ∀ event, (l.code (.entityEvent event)).Remembers

theorem Recorded.of_none (h : s.forest.entities.all (·.listeners.isEmpty) = true) : s.Recorded := by
  intro e l hl
  by_cases he : e.index < s.forest.size
  · have hempty := Array.all_eq_true.mp h e.index he
    rw [Forest.entity, Array.getD_eq_getD_getElem?, Array.getElem?_eq_getElem he, Option.getD_some,
      List.isEmpty_iff.mp hempty] at hl
    cases hl
  · rw [Forest.entity_of_size_le (Nat.le_of_not_lt he)] at hl
    cases hl

theorem Recorded.records (h : s.Recorded) (n : Nat) : s.Records (runCode (n + 1)) := by
  intro e l hl event s₁
  obtain ⟨a, m, hact⟩ := (h e l hl event).exec s₁
  exact ⟨m, hact⟩

end Simulation

end Vivarium
