import Vivarium.Proofs.Following

/-! # Creation and death follow the world

An entity that dies does so in one step; then its children die, one after the other, and the listeners
are told.
-/

namespace Vivarium

namespace Forest

variable {β : Type}

theorem modify_modify (e : EntityRef) (g h : Entity β → Entity β) (f : Forest β) :
    (f.modify e g).modify e h = f.modify e fun x => h (g x) := by
  have hentities : (f.entities.modify e.index g).modify e.index h =
      f.entities.modify e.index fun x => h (g x) := by
    refine Array.ext_getElem? fun i => ?_
    simp only [Array.getElem?_modify]
    split
    · cases f.entities[i]? <;> rfl
    · rfl
  unfold modify
  rw [hentities]

end Forest

namespace Simulation

variable {β μ α γ ι : Type} {ok : Deed → Prop} {run run' : Run β μ} {s s' : Simulation β μ}
  {bound : Bool} {depth : Nat} {e : EntityRef}

/-- What is left to do when an entity has died: its children die, and the listeners that it has then
are told. -/
def bury (run : Run β μ) (bound : Bool) (depth : Nat) (e : EntityRef) (children : List EntityRef) :
    Act β μ Unit := do
  for c in children do
    die run bound depth c
  let listeners ← ask fun s => (s.forest.entity e).listeners
  for c in children do
    for l in listeners do
      run (.entityEvent (.killed c)) l.code

def slay (e : EntityRef) (bound : Bool) (s : Simulation β μ) : Simulation β μ :=
  { s with
    engine := if bound then (s.engine.cancelAll (s.forest.entity e).tasks.ids).2 else s.engine
    forest := s.forest.fell e bound }

theorem die_of_dead (h : s.forest.isAlive e = false) :
    die run bound (depth + 1) e s = .ok ((), s) := by
  have hdead : (s.forest.entity e).alive = false := h
  rw [die]
  refine (bind_of_ok rfl).trans ?_
  rw [hdead]
  rfl

theorem die_of_alive (h : s.forest.isAlive e = true) :
    die run bound (depth + 1) e s = bury run bound depth e (s.forest.children e) (s.slay e bound) := by
  have halive : (s.forest.entity e).alive = true := h
  rw [die]
  refine (bind_of_ok rfl).trans ?_
  rw [halive]
  cases bound with
  | true =>
    refine (bind_of_ok rfl).trans ((bind_of_ok rfl).trans ((bind_of_ok rfl).trans ?_))
    refine (bind_of_ok rfl).trans ?_
    simp only [Forest.modify_modify]
    rfl
  | false =>
    refine (bind_of_ok rfl).trans ((bind_of_ok rfl).trans ?_)
    simp only [Forest.modify_modify]
    rfl

/-! ## Loops -/

/-- A loop whose turns see to one part of the stack after the other. -/
theorem FollowsAt.forEach {act act' : ι → Act β μ γ} {part : ι → List (EntityRef × Bool)} (xs : List ι)
    (h : ∀ x ∈ xs, ∀ s, FollowsAt ok (part x) (act x) (act' x) s) (s : Simulation β μ) :
    FollowsAt ok (xs.flatMap part)
      (ForIn.forIn xs PUnit.unit fun x _ => act x >>= fun _ => Pure.pure (.yield PUnit.unit))
      (ForIn.forIn xs PUnit.unit fun x _ => act' x >>= fun _ => Pure.pure (.yield PUnit.unit)) s := by
  induction xs generalizing s with
  | nil => exact .pure _
  | cons x xs ih =>
    obtain ⟨hx, hxs⟩ := List.forall_mem_cons.mp h
    simp only [List.forIn_cons, bind_assoc, pure_bind]
    rw [List.flatMap_cons]
    exact (hx s).bind fun _ s' _ => ih hxs s'

/-! ## Listeners -/

/-- The listeners of entities follow. -/
def ListenersFollow (ok : Deed → Prop) (run run' : Run β μ) : Prop :=
  ∀ event code, Follows ok (run (.entityEvent event) code) (run' (.entityEvent event) code)

theorem RunFollows.listeners (h : RunFollows ok run run') : ListenersFollow ok run run' :=
  fun event code => h (.entityEvent event) code

section

variable (hrun : ListenersFollow ok run run')

include hrun

theorem Follows.tell (event : EntityEvent) (listeners : List (Listener β)) :
    Follows ok (ForIn.forIn listeners PUnit.unit fun l _ => run (.entityEvent event) l.code >>= fun _ =>
        Pure.pure (.yield PUnit.unit))
      (ForIn.forIn listeners PUnit.unit fun l _ => run' (.entityEvent event) l.code >>= fun _ =>
        Pure.pure (.yield PUnit.unit)) :=
  .forIn _ fun l _ => .bind (hrun event l.code) fun _ => .pure _

theorem Follows.announce (container : EntityRef) (event : EntityEvent) :
    Follows ok (Simulation.announce run container event) (Simulation.announce run' container event) :=
  .bind (.ask _) fun listeners => .bind (.tell hrun event listeners) fun _ => .pure _

end

/-! ## Creation -/

/-- Creation in a living container, by the tree as it was before an identifier was drawn. -/
def enter (run : Run β μ) (container : EntityRef) (values : List (AttributeKey × Value)) (f : Forest β)
    (id : EntityId) : Act β μ (Except EntityError EntityRef) :=
  match mismatch? values with
  | some error => return .error error
  | none =>
    if (f.child? container id).isSome then return .error (.duplicateId id)
    else
      match f.limitOf container with
      | some limit =>
        if limit ≤ (f.children container).length then return .error (.limitReached limit)
        else createEntity.insert run container values id
      | none => createEntity.insert run container values id

theorem mismatch?_eq_none {values : List (AttributeKey × Value)} :
    mismatch? values = none ↔ ∀ p ∈ values, p.2.type = p.1.type := by
  simp [mismatch?]

theorem enter_of_mismatch {container : EntityRef} {values : List (AttributeKey × Value)} {f : Forest β}
    {id : EntityId} {error : EntityError} (h : mismatch? values = some error) :
    enter run container values f id s = .ok (.error error, s) := by
  unfold enter
  rw [h]
  rfl

theorem enter_of_typed {container : EntityRef} {values : List (AttributeKey × Value)} {f : Forest β}
    {id : EntityId} (h : mismatch? values = none) :
    enter run container values f id =
      if (f.child? container id).isSome then return .error (.duplicateId id)
      else
        match f.limitOf container with
        | some limit =>
          if limit ≤ (f.children container).length then return .error (.limitReached limit)
          else createEntity.insert run container values id
        | none => createEntity.insert run container values id := by
  unfold enter
  rw [h]

theorem createEntity_of_dead {container : EntityRef} {id : Option EntityId}
    {values : List (AttributeKey × Value)} (h : s.forest.isAlive container = false) :
    createEntity run container id values s =
      .ok (.error (.detached (s.forest.idOf container)), s) := by
  unfold createEntity
  refine (bind_of_ok rfl).trans ?_
  rw [h]
  rfl

theorem createEntity_of_alive {container : EntityRef} {id : Option EntityId}
    {values : List (AttributeKey × Value)} (h : s.forest.isAlive container = true) :
    createEntity run container id values s =
      (match id with
        | some id => enter run container values s.forest id s
        | none => enter run container values s.forest s.forest.drawId.1
            { s with forest := s.forest.drawId.2 }) := by
  unfold createEntity
  refine (bind_of_ok rfl).trans ?_
  rw [h]
  cases id <;> rfl

section

variable (hrun : ListenersFollow ok run run') (hother : ok .other)

include hrun hother

theorem Follows.insert {container : EntityRef} {id : EntityId} {values : List (AttributeKey × Value)}
    (hp : s.forest.isAlive container = true) (hfresh : s.forest.child? container id = none)
    (hroom : ∀ limit, s.forest.limitOf container = some limit →
      (s.forest.children container).length < limit) :
    FollowsAt ok [] (createEntity.insert run container values id)
      (createEntity.insert run' container values id) s := by
  refine FollowsAt.andThen (.step hother fun a s' hact => ⟨hact, fun w hw => ?_⟩)
    fun e => (Follows.announce hrun container (.created e)).bind fun _ => .pure _
  cases hact
  obtain ⟨engine, forest, doomed, ahead, bodies, begun, owners, released⟩ := w
  obtain ⟨rfl, rfl⟩ := hw
  exact ⟨_, .create hp hfresh hroom rfl rfl rfl, ⟨rfl, rfl⟩, rfl, rfl, rfl⟩

theorem Follows.enter {container : EntityRef} {id : EntityId} {values : List (AttributeKey × Value)}
    {f : Forest β} (hsame : f.SameTree s.forest)
    (hp : s.forest.isAlive container = true) :
    FollowsAt ok [] (Simulation.enter run container values f id)
      (Simulation.enter run' container values f id) s := by
  have hchild : s.forest.child? container id = f.child? container id := by
    unfold Forest.child?
    simp only [hsame.children, hsame.id]
  have hlimit : s.forest.limitOf container = f.limitOf container := by
    rw [Forest.limitOf, Forest.limitOf, hsame.limit]
  unfold Simulation.enter
  split
  · exact .pure _
  split
  · exact .pure _
  · next hnone =>
    have hfresh : s.forest.child? container id = none := by
      rw [hchild]
      simpa using hnone
    split
    · next limit heq =>
      split
      · exact .pure _
      · next hroom =>
        refine Follows.insert hrun hother hp hfresh fun limit' heq' => ?_
        rw [hlimit, heq] at heq'
        cases heq'
        rw [hsame.children]
        exact Nat.lt_of_not_le hroom
    · next heq =>
      refine Follows.insert hrun hother hp hfresh fun limit heq' => ?_
      rw [hlimit, heq] at heq'
      cases heq'

theorem Follows.createEntity (container : EntityRef) (id : Option EntityId)
    (values : List (AttributeKey × Value)) :
    Follows ok (Simulation.createEntity run container id values)
      (Simulation.createEntity run' container id values) := by
  intro s a s' hact
  cases hlive : s.forest.isAlive container with
  | false =>
    rw [createEntity_of_dead hlive] at hact ⊢
    exact ⟨hact, fun w rest hw hd => by cases hact; exact ⟨w, .refl, hw, hd, rfl, rfl⟩⟩
  | true =>
    rw [createEntity_of_alive hlive] at hact ⊢
    cases id with
    | some id => exact Follows.enter hrun hother (.refl _) hlive a s' hact
    | none =>
      obtain ⟨hact', hgoes⟩ := Follows.enter (s := { s with forest := s.forest.drawId.2 }) hrun hother
        (Forest.SameWork.drawId s.forest).toSameTree hlive a s' hact
      refine ⟨hact', fun w rest hw hd => ?_⟩
      obtain ⟨w', hr, hw', hd', hplace⟩ := hgoes { w with forest := w.forest.drawId.2 } rest
        ⟨hw.engine, congrArg (fun f => f.drawId.2) hw.forest⟩ hd
      exact ⟨w', .head ⟨.other, hother, .dress (.drawId w.forest)⟩ hr, hw', hd', hplace⟩

end

/-! ## Death -/

theorem killEntity_of_none {container : EntityRef} {id : EntityId}
    (h : s.forest.child? container id = none) :
    killEntity run depth container id s = .ok (false, s) := by
  unfold killEntity
  refine (bind_of_ok rfl).trans ?_
  simp only [h]
  rfl

theorem killEntity_of_some {container : EntityRef} {id : EntityId}
    (h : s.forest.child? container id = some e) :
    killEntity run depth container id s =
      (do
        die run s.forest.bound depth e
        announce run container (.killed e)
        return true) { s with forest := s.forest.removeChild container e } := by
  unfold killEntity
  refine (bind_of_ok rfl).trans ?_
  simp only [h]
  rfl

theorem kill_of_parentless (h : s.forest.parent? e = none) : kill run depth e s = .ok (false, s) := by
  unfold kill
  refine (bind_of_ok rfl).trans ?_
  simp only [h]
  rfl

theorem kill_of_parent {p : EntityRef} (h : s.forest.parent? e = some p) :
    kill run depth e s = killEntity run depth p (s.forest.idOf e) s := by
  unfold kill
  refine (bind_of_ok rfl).trans ?_
  simp only [h]
  rfl

section

variable (hrun : ListenersFollow ok run run') (hdeath : ok .death)

include hrun

theorem FollowsAt.bury (hdie : ∀ c s, FollowsAt ok [(c, bound)] (die run bound depth c)
      (die run' bound depth c) s) (children : List EntityRef) (s : Simulation β μ) :
    FollowsAt ok (children.map (·, bound)) (bury run bound depth e children)
      (bury run' bound depth e children) s := by
  have hdies := FollowsAt.forEach children (fun c _ => hdie c) s
  rw [← List.map_eq_flatMap] at hdies
  refine hdies.andThen fun _ => Follows.bind (.ask _) fun listeners => ?_
  exact .bind (.forIn _ fun c _ => .bind (.tell hrun (.killed c) listeners) fun _ => .pure _) fun _ => .pure _

include hdeath

theorem FollowsAt.die (bound : Bool) (depth : Nat) (e : EntityRef) (s : Simulation β μ) :
    FollowsAt ok [(e, bound)] (Simulation.die run bound depth e) (Simulation.die run' bound depth e)
      s := by
  induction depth generalizing e s with
  | zero => exact .halt _ _
  | succ depth ih =>
    intro a s' hact
    cases hlive : s.forest.isAlive e with
    | false =>
      rw [die_of_dead hlive] at hact ⊢
      refine ⟨hact, fun w rest hw hd => ?_⟩
      cases hact
      exact ⟨_, .single hdeath (.spare hd (hw.forest ▸ hlive)), ⟨hw.engine, hw.forest⟩, rfl, rfl, rfl⟩
    | true =>
      rw [die_of_alive hlive] at hact ⊢
      -- The fall is one step of the world; it leaves the children on the stack, for `bury` to see to.
      obtain ⟨hact', hgoes⟩ := FollowsAt.bury hrun (fun c s => ih c s) _ _ a s' hact
      refine ⟨hact', fun w rest hw hd => ?_⟩
      obtain ⟨engine, forest, doomed, ahead, bodies, begun, owners, released⟩ := w
      obtain ⟨rfl, rfl⟩ := hw
      exact (World.Step.fall hd hlive).then hdeath (hgoes _ rest ⟨rfl, rfl⟩ rfl)

theorem Follows.killEntity (depth : Nat) (container : EntityRef) (id : EntityId) :
    Follows ok (Simulation.killEntity run depth container id)
      (Simulation.killEntity run' depth container id) := by
  intro s a s' hact
  cases hc : s.forest.child? container id with
  | none =>
    rw [killEntity_of_none hc] at hact ⊢
    refine ⟨hact, fun w rest hw hd => ?_⟩
    cases hact
    exact ⟨w, .refl, hw, hd, rfl, rfl⟩
  | some e =>
    rw [killEntity_of_some hc] at hact ⊢
    obtain ⟨hact', hgoes⟩ := (FollowsAt.die hrun hdeath s.forest.bound depth e _).andThen
      (fun _ => (Follows.announce hrun container (.killed e)).bind fun _ => .pure true) a s' hact
    refine ⟨hact', fun w rest hw hd => ?_⟩
    have hmem := (Forest.mem_of_child? hc).1
    obtain ⟨engine, forest, doomed, ahead, bodies, begun, owners, released⟩ := w
    obtain ⟨rfl, rfl⟩ := hw
    exact (World.Step.cut hmem).then hdeath (hgoes _ rest ⟨rfl, rfl⟩ (congrArg (List.cons _) hd))

theorem Follows.killEntities (depth : Nat) (container : EntityRef) :
    Follows ok (Simulation.killEntities run depth container)
      (Simulation.killEntities run' depth container) := by
  refine .bind (.ask _) fun ids => .bind (.forIn _ fun id _ => ?_) fun _ => .pure _
  exact .bind (.killEntity hrun hdeath depth container id) fun _ => .pure _

theorem Follows.kill (depth : Nat) (e : EntityRef) :
    Follows ok (Simulation.kill run depth e) (Simulation.kill run' depth e) := by
  refine .bind (.ask _) fun parent => ?_
  cases parent with
  | none => exact .pure _
  | some p => exact .bind (.ask _) fun id => .killEntity hrun hdeath depth p id

theorem Follows.shutdown (depth : Nat) :
    Follows ok (Simulation.shutdown run depth) (Simulation.shutdown run' depth) := by
  intro s a s' hact
  obtain ⟨hact', hgoes⟩ := FollowsAt.die hrun hdeath s.forest.bound depth Forest.root s a s' hact
  refine ⟨hact', fun w rest hw hd => ?_⟩
  obtain ⟨engine, forest, doomed, ahead, bodies, begun, owners, released⟩ := w
  obtain ⟨rfl, rfl⟩ := hw
  exact World.Step.uproot.then hdeath (hgoes _ rest ⟨rfl, rfl⟩ (congrArg (List.cons _) hd))

end

end Simulation

end Vivarium
