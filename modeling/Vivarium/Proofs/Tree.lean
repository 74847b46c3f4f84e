import Vivarium.Proofs.Dying
import Vivarium.Proofs.Histories

/-! # The tree of the living

Where no operation on entities is in progress, whoever was made is alive exactly if its parent is alive
and has it as a child, and the dead have no children and get none.
-/

namespace Vivarium

namespace Forest

variable {β : Type} {f : Forest β}

/-- The parent's children are the living, and nobody else. -/
structure Whole (f : Forest β) : Prop where
  living : ∀ e, f.Made e → (f.isAlive e = true ↔
    ∃ p, f.parent? e = some p ∧ f.isAlive p = true ∧ f.child? p (f.idOf e) = some e)
  childless : ∀ e, f.isAlive e = false → f.children e = []
  children : ∀ p, ∀ c ∈ f.children p, f.isAlive c = true
  room : ∀ limit, f.limit = some limit → (f.children root).length ≤ limit

theorem Rooted.whole (h : f.Rooted []) : f.Whole where
  living e he := by
    constructor
    · intro ha
      obtain ⟨p, hp, -⟩ := h.older e he
      obtain ⟨hchild, hlive⟩ := h.child?_of_alive ha hp
      exact ⟨p, hp, hlive, hchild⟩
    · rintro ⟨p, -, -, hchild⟩
      exact (h.child p e (mem_of_child? hchild).1).2.1
  childless _ hdead := h.childless hdead
  children p c hc := (h.child p c hc).2.1
  room := h.within

end Forest

namespace Simulation

variable {μ : Type} {s s' : Simulation (Code μ) μ} {n depth : Nat}

section

variable {β : Type} {run : Run β μ} {container e : EntityRef} {values : List (AttributeKey × Value)}
  {s s' : Simulation β μ}

theorem insert_makes (hrun : ListenersFollow (fun _ => True) run run) {id : EntityId}
    (hlive : s.forest.isAlive container = true)
    (hact : createEntity.insert run container values id s = .ok (.ok e, s')) :
    s'.forest.Made e ∧ s'.forest.parent? e = some container ∧ s'.forest.idOf e = id := by
  obtain ⟨_, s₁, hinsert, hact⟩ := bind_ok hact
  obtain ⟨_, s₂, htold, hact⟩ := bind_ok hact
  have hgrows := (Follows.announce hrun container _ s₁).grows htold
  cases hact
  cases hinsert
  have hlt := Forest.index_lt_of_isAlive hlive
  have hnew := Forest.entity_insertChild_new hlt
    ({ id, attributes := AttributeSet.putAll values ⟨id, [], []⟩ } : Entity β)
  have hsize : (⟨s.forest.size⟩ : EntityRef).index < s.forest.size + 1 := Nat.lt_succ_self _
  rw [← Forest.size_insertChild container
    ({ id, attributes := AttributeSet.putAll values ⟨id, [], []⟩ } : Entity β)] at hsize
  refine ⟨⟨fun hroot => ?_, Nat.lt_of_lt_of_le hsize hgrows.size⟩, ?_, ?_⟩
  · have hzero : s.forest.size = 0 := congrArg EntityRef.index hroot
    rw [hzero] at hlt
    exact Nat.not_lt_zero _ hlt
  · rw [hgrows.parent _ hsize]
    exact congrArg Entity.parent hnew
  · rw [hgrows.id _ hsize]
    exact congrArg Entity.id hnew

theorem enter_makes (hrun : ListenersFollow (fun _ => True) run run) {f : Forest β} {id : EntityId}
    (hlive : s.forest.isAlive container = true)
    (hact : enter run container values f id s = .ok (.ok e, s')) :
    s'.forest.Made e ∧ s'.forest.parent? e = some container ∧ s'.forest.idOf e = id := by
  cases hvalues : mismatch? values with
  | some error =>
    rw [enter_of_mismatch hvalues] at hact
    cases hact
  | none =>
  rw [enter_of_typed hvalues] at hact
  split at hact
  · cases hact
  · cases hlimit : f.limitOf container with
    | none =>
      simp only [hlimit] at hact
      exact insert_makes hrun hlive hact
    | some limit =>
      simp only [hlimit] at hact
      split at hact
      · cases hact
      · exact insert_makes hrun hlive hact

/-- A creation gives an entity that was made, in the container and under the identifier. -/
theorem createEntity_makes (hrun : ListenersFollow (fun _ => True) run run) {id : Option EntityId}
    (hact : createEntity run container id values s = .ok (.ok e, s')) :
    s'.forest.Made e ∧ s'.forest.parent? e = some container ∧
      ∀ i, id = some i → s'.forest.idOf e = i := by
  cases hlive : s.forest.isAlive container with
  | false =>
    rw [createEntity_of_dead hlive] at hact
    cases hact
  | true =>
    rw [createEntity_of_alive hlive] at hact
    cases id with
    | some i =>
      obtain ⟨hmade, hparent, hid⟩ := enter_makes hrun hlive hact
      refine ⟨hmade, hparent, fun j hj => ?_⟩
      cases hj
      exact hid
    | none =>
      have hlive' : ({ s with forest := s.forest.drawId.2 } : Simulation β μ).forest.isAlive container =
          true := hlive
      obtain ⟨hmade, hparent, -⟩ := enter_makes hrun hlive' hact
      exact ⟨hmade, hparent, by rintro _ ⟨⟩⟩

end

/-! ## Killings -/

/-- Code runs as it does, where no listener kills anybody. -/
theorem sparing_follows (n : Nat) :
    ListenersFollow (fun _ => True) (sparing (runCode (μ := μ) n)) (runCode n) :=
  (runCode_follows n).listeners.sparing

/-- What killings do to the tree. Where listeners kill, everybody within the one who was killed is dead;
where they do not, exactly those have died. -/
structure KillsExactly (s : Simulation (Code μ) μ) : Prop where
  dead : ∀ n depth container id c b s', s.forest.child? container id = some c →
    killEntity (runCode n) depth container id s = .ok (b, s') →
      b = true ∧ ∀ x, s'.forest.Within c x → s'.forest.isAlive x = false
  child : ∀ n depth container id c b s', s.forest.child? container id = some c →
    killEntity (sparing (runCode n)) depth container id s = .ok (b, s') →
      killEntity (runCode n) depth container id s = .ok (b, s') ∧ s.forest.Slain c s'.forest
  self : ∀ n depth e b s', s.forest.Made e → s.forest.isAlive e = true →
    kill (sparing (runCode n)) depth e s = .ok (b, s') →
      kill (runCode n) depth e s = .ok (b, s') ∧ s.forest.Slain e s'.forest
  children : ∀ n depth container s', killEntities (sparing (runCode n)) depth container s = .ok ((), s') →
    killEntities (runCode n) depth container s = .ok ((), s') ∧
      ∀ x, s'.forest.isAlive x = true ∧ x.index < s.forest.size ↔ s.forest.isAlive x = true ∧
        ∀ c ∈ s.forest.children container, ¬s.forest.Within c x
  everybody : ∀ n depth s', shutdown (runCode n) depth s = .ok ((), s') →
    ∀ x, s'.forest.isAlive x = false

theorem Quiet.killsExactly (h : s.Quiet) : s.KillsExactly where
  dead n depth container id c b s' hc hact :=
    ⟨(killEntity_ok hc hact).1, fun _ hin =>
      killEntity_within (runCode_follows n).listeners trivial h hc hact hin⟩
  child n depth container id c b s' hc hact :=
    ⟨(Follows.killEntity (sparing_follows n) trivial depth container id s b s' hact).1,
      killEntity_slays (sparing_follows n) trivial (.sparing _) h hc hact⟩
  self n depth e b s' he ha hact := by
    -- It is killed by its identifier, and while it lives it is the one who has it.
    obtain ⟨p, hp, -⟩ := h.rooted.older e he
    have hchild := (h.rooted.child?_of_alive ha hp).1
    refine ⟨(Follows.kill (sparing_follows n) trivial depth e s b s' hact).1, ?_⟩
    rw [kill_of_parent hp] at hact
    exact killEntity_slays (sparing_follows n) trivial (.sparing _) h hchild hact
  children n depth container s' hact := by
    have hfollows := Follows.killEntities (sparing_follows (μ := μ) n) trivial depth container s
    obtain ⟨hdead, hspares⟩ := killEntities_slays (sparing_follows n) trivial h hact
    have hgrows := hfollows.grows hact
    refine ⟨(hfollows _ s' hact).1, fun x => ⟨?_, ?_⟩⟩
    · rintro ⟨ha, hx⟩
      refine ⟨hgrows.alive x hx ha, fun c hc hin => ?_⟩
      rw [hdead c hc x ((hgrows.within hx).mpr hin)] at ha
      cases ha
    · rintro ⟨ha, hout⟩
      exact ⟨hspares (.sparing _) x ha hout, Forest.index_lt_of_isAlive ha⟩
  everybody n depth s' hact := shutdown_dead (runCode_follows n).listeners trivial h hact

/-! ## Where no operation is in progress -/

/-- No operation on entities is in progress, after any others. -/
def Settled (s : Simulation (Code μ) μ) : Prop := ∃ w : World (Code μ), w.Reachable ∧ w.Rests s

theorem Settled.quiet (h : s.Settled) : s.Quiet := by
  obtain ⟨w, hw, hs⟩ := h
  exact ⟨w, hw.sound, hs⟩

theorem Settled.after (h : s.Settled) {r : Role} {p : Program μ r} {a : r.Answer}
    (hact : execute n p s = .ok (a, s')) : s'.Settled := by
  obtain ⟨w, hw, hs⟩ := h
  obtain ⟨w', hr, hw'⟩ := (execute_follows n p).rests hs hact
  exact ⟨w', hw.reaches hr, hw'⟩

theorem New.settled {bound : Bool} (h : s.New bound) : s.Settled := by
  obtain ⟨w, hw, hrests⟩ := h.begins
  exact ⟨w, ⟨bound, w, hw, .refl⟩, hrests⟩

end Simulation

open Simulation

/-- Where no operation is in progress the tree holds exactly the living: whoever was made is alive if
and only if its parent is and has it, and nobody else, under its identifier; the dead have no children
and get none. A killing kills the subtree and, if the listeners kill nobody, nobody else. -/
theorem tree_holds_exactly_the_living {μ : Type} {s : Simulation (Code μ) μ} (hs : s.Settled) :
    s.forest.Whole ∧
      (∀ (run : Run (Code μ) μ) e id values, s.forest.isAlive e = false →
        createEntity run e id values s = .ok (.error (.detached (s.forest.idOf e)), s)) ∧
      (∀ n container id values e s', createEntity (runCode n) container id values s = .ok (.ok e, s') →
        s'.forest.Made e ∧ s'.forest.parent? e = some container ∧
          ∀ i, id = some i → s'.forest.idOf e = i) ∧
      s.KillsExactly ∧
      ∀ n (r : Role) (p : Program μ r) a s', execute n p s = .ok (a, s') →
        s'.Settled ∧ s.forest.Grows s'.forest :=
  ⟨hs.quiet.rooted.whole, fun _ _ _ _ hdead => createEntity_of_dead hdead,
    fun n _ _ _ _ _ hact => createEntity_makes (runCode_follows n).listeners hact,
    hs.quiet.killsExactly,
    fun n _ p _ _ hact => ⟨hs.after hact, (execute_follows n p _).grows hact⟩⟩

/-- Makes an entity and a child of it, and kills the first. -/
def passing : Program Unit .listener :=
  .request (.create Forest.root none none) fun
    | .error _ => .done ()
    | .ok e => .request (.create e none none) fun _ => .request (.kill e) fun _ => .done ()

theorem passing_leaves_nobody : ∃ s, execute 4 passing (blank true) = .ok ((), s) ∧ s.forest.size = 3 ∧
    s.forest.isAlive ⟨2⟩ = false ∧ s.forest.Whole := by
  obtain ⟨_, s, hact, hholds⟩ := endsWith_iff.mp (show endsWith (execute 4 passing) (blank true)
    (fun _ s => s.forest.size == 3 && !s.forest.isAlive ⟨2⟩) = true by decide +kernel)
  rw [Bool.and_eq_true, beq_iff_eq, Bool.not_eq_true'] at hholds
  exact ⟨s, hact, hholds.1, hholds.2,
    (tree_holds_exactly_the_living ((blank_new true).settled.after hact)).1⟩

end Vivarium
