import Vivarium.Proofs.Estate
import Vivarium.Proofs.Execution
import Vivarium.Simulation.Calls

/-! # Operations follow the world

Where an operation ends, the world has gone by steps to where the operation leads, and is at the same
place again: whoever it doomed is dead, and the turns that it took have ended. The statements are
about two operations, of which the second does what the first does wherever the first ends, so that
code which is kept from doing certain things may stand for code which does not do them.
-/

namespace Vivarium

/-- The simulation has the engine and the tree of the world. -/
structure World.Shows {β μ : Type} (w : World β) (s : Simulation β μ) : Prop where
  engine : s.engine = w.engine
  forest : s.forest = w.forest

/-- No operation on entities is in progress in it. -/
structure World.Rests {β μ : Type} (w : World β) (s : Simulation β μ) : Prop extends w.Shows s where
  calm : w.Calm

namespace Simulation

variable {β μ α γ : Type} {ok : Deed → Prop} {ds ds' : List (EntityRef × Bool)}
  {act act' : Act β μ α} {s s' : Simulation β μ}

/-- Where `act` ends, `act'` ends in the same way, and every world that shows where it starts, with
`ds` on top of its stack, goes to one that shows where it ends, without them. -/
def FollowsAt (ok : Deed → Prop) (ds : List (EntityRef × Bool)) (act act' : Act β μ α)
    (s : Simulation β μ) : Prop :=
  ∀ a s', act s = .ok (a, s') → act' s = .ok (a, s') ∧
    ∀ (w : World β) (rest : List (EntityRef × Bool)), w.Shows s → w.doomed = ds ++ rest →
      ∃ w', w.Reaches ok w' ∧ w'.Shows s' ∧ w'.doomed = rest ∧ w'.ahead = w.ahead ∧ w'.bodies = w.bodies

/-- From everywhere, leaving the stack as it is. -/
def Follows (ok : Deed → Prop) (act act' : Act β μ α) : Prop := ∀ s, FollowsAt ok [] act act' s

/-- Code follows, whatever it is run for. -/
def RunFollows (ok : Deed → Prop) (run run' : Run β μ) : Prop :=
  ∀ o code, Follows ok (run o code) (run' o code)

theorem bind_of_error {next : α → Act β μ γ} {why : Halt} (h : act s = .error why) :
    (act >>= next) s = .error why := by
  change (act s >>= fun p => next p.1 p.2) = .error why
  rw [h]
  rfl

theorem bind_ok {next : α → Act β μ γ} {c : γ} (h : (act >>= next) s = .ok (c, s')) :
    ∃ a s₁, act s = .ok (a, s₁) ∧ next a s₁ = .ok (c, s') := by
  change (act s >>= fun p => next p.1 p.2) = .ok (c, s') at h
  cases hact : act s with
  | error why =>
    rw [hact] at h
    cases h
  | ok p =>
    rw [hact] at h
    exact ⟨p.1, p.2, rfl, h⟩

namespace FollowsAt

theorem bind {next next' : α → Act β μ γ} (h : FollowsAt ok ds act act' s)
    (hn : ∀ a s', act s = .ok (a, s') → FollowsAt ok ds' (next a) (next' a) s') :
    FollowsAt ok (ds ++ ds') (act >>= next) (act' >>= next') s := by
  intro c s'' hact
  obtain ⟨a, s', hact, hnext⟩ := bind_ok hact
  obtain ⟨hact', hgoes⟩ := h a s' hact
  obtain ⟨hnext', hgoes'⟩ := hn a s' hact c s'' hnext
  refine ⟨(bind_of_ok hact').trans hnext', fun w rest hw hd => ?_⟩
  obtain ⟨w', hr, hw', hd', hahead, hbodies⟩ :=
    hgoes w (ds' ++ rest) hw (hd.trans (List.append_assoc _ _ _))
  obtain ⟨w'', hr', hw'', hd'', hahead', hbodies'⟩ := hgoes' w' rest hw' hd'
  exact ⟨w'', hr.trans hr', hw'', hd'', hahead'.trans hahead, hbodies'.trans hbodies⟩

/-- What comes after leaves the stack as it is. -/
theorem andThen {next next' : α → Act β μ γ} (h : FollowsAt ok ds act act' s)
    (hn : ∀ a s', FollowsAt ok [] (next a) (next' a) s') :
    FollowsAt ok ds (act >>= next) (act' >>= next') s := by
  have hall := h.bind fun a s' _ => hn a s'
  rwa [List.append_nil] at hall

theorem pure (a : α) : FollowsAt ok [] (Pure.pure a : Act β μ α) (Pure.pure a) s := by
  intro _ _ hact
  refine ⟨hact, fun w rest hw hd => ?_⟩
  cases hact
  exact ⟨w, .refl, hw, hd, rfl, rfl⟩

theorem halt (why : Halt) (act' : Act β μ α) : FollowsAt ok ds (Simulation.halt why) act' s := by
  rintro _ _ ⟨⟩

/-- One step that leaves its place as it is. -/
theorem step {d : Deed} (hok : ok d)
    (h : ∀ a s', act s = .ok (a, s') → act' s = .ok (a, s') ∧
      ∀ w : World β, w.Shows s → ∃ w', w.Step d w' ∧ w'.Shows s' ∧ w'.doomed = w.doomed ∧
        w'.ahead = w.ahead ∧ w'.bodies = w.bodies) : FollowsAt ok [] act act' s := by
  intro a s' hact
  obtain ⟨hact', hgoes⟩ := h a s' hact
  refine ⟨hact', fun w rest hw hd => ?_⟩
  obtain ⟨w', hs, hw', hd', hplace⟩ := hgoes w hw
  exact ⟨w', .single hok hs, hw', hd'.trans hd, hplace⟩

end FollowsAt

namespace Follows

theorem bind {next next' : α → Act β μ γ} (h : Follows ok act act')
    (hn : ∀ a, Follows ok (next a) (next' a)) : Follows ok (act >>= next) (act' >>= next') :=
  fun s => (h s).andThen hn

/-- A world at rest goes to one at rest. -/
theorem rests (h : Follows ok act act') {w : World β} (hw : w.Rests s) {a : α} (hact : act s = .ok (a, s')) :
    ∃ w', w.Reaches ok w' ∧ w'.Rests s' := by
  obtain ⟨w', hr, hw', hd, -⟩ := (h s a s' hact).2 w [] hw.toShows hw.calm
  exact ⟨w', hr, hw', hd⟩

theorem pure (a : α) : Follows ok (Pure.pure a : Act β μ α) (Pure.pure a) := fun _ => .pure a

theorem halt (why : Halt) (act' : Act β μ α) : Follows ok (Simulation.halt why) act' :=
  fun _ => .halt why act'

/-- An operation that touches neither the engine nor the tree. -/
theorem aside (h : ∀ s a s', act s = .ok (a, s') → s'.engine = s.engine ∧ s'.forest = s.forest) :
    Follows ok act act := by
  intro s a s' hact
  obtain ⟨hengine, hforest⟩ := h s a s' hact
  exact ⟨hact, fun w rest hw hd =>
    ⟨w, .refl, ⟨hengine.trans hw.engine, hforest.trans hw.forest⟩, hd, rfl, rfl⟩⟩

theorem ask (f : Simulation β μ → α) : Follows ok (Simulation.ask f) (Simulation.ask f) := by
  refine .aside fun s a s' hact => ?_
  cases hact
  exact ⟨rfl, rfl⟩

theorem onTypes (f : TypeRegistry β → α × TypeRegistry β) :
    Follows ok (Simulation.onTypes f : Act β μ α) (Simulation.onTypes f) := by
  refine .aside fun s a s' hact => ?_
  cases hact
  exact ⟨rfl, rfl⟩

theorem forIn {ι : Type} {f f' : ι → PUnit → Act β μ (ForInStep PUnit)} (xs : List ι)
    (h : ∀ x ∈ xs, Follows ok (f x ⟨⟩) (f' x ⟨⟩)) :
    Follows ok (ForIn.forIn xs ⟨⟩ f) (ForIn.forIn xs ⟨⟩ f') := by
  induction xs with
  | nil => exact .pure _
  | cons x xs ih =>
    obtain ⟨hx, hxs⟩ := List.forall_mem_cons.mp h
    rw [List.forIn_cons, List.forIn_cons]
    refine .bind hx fun step => ?_
    cases step with
    | done => exact .pure _
    | yield => exact ih hxs

theorem ite {p : Prop} [Decidable p] {act₁ act₁' : Act β μ α} (h : p → Follows ok act act')
    (h₁ : ¬p → Follows ok act₁ act₁') :
    Follows ok (if p then act else act₁) (if p then act' else act₁') := by
  split
  · next hp => exact h hp
  · next hp => exact h₁ hp

end Follows

/-! ## The engine and the tree -/

section

variable (hother : ok .other)

include hother

theorem Follows.onEngine {f : Engine (Job β) → α × Engine (Job β)} (h : ∀ e : Engine (Job β), e.Stays (f e).2) :
    Follows ok (Simulation.onEngine f : Act β μ α) (Simulation.onEngine f) := by
  refine fun s => .step hother fun a s' hact => ⟨hact, fun w hw => ?_⟩
  cases hact
  exact ⟨_, .engine (h w.engine), ⟨congrArg (fun e => (f e).2) hw.engine, hw.forest⟩, rfl, rfl, rfl⟩

theorem Follows.tryEngine {f : Engine (Job β) → Except EngineError (α × Engine (Job β))}
    (h : ∀ (e : Engine (Job β)) a e', f e = .ok (a, e') → e.Stays e') :
    Follows ok (Simulation.tryEngine f : Act β μ _) (Simulation.tryEngine f) := by
  refine .onEngine hother fun e => ?_
  split
  · next he => exact h _ _ _ he
  · exact .refl e

theorem Follows.onForest {f : Forest β → α × Forest β} (h : ∀ x : Forest β, x.SameWork (f x).2) :
    Follows ok (Simulation.onForest f : Act β μ α) (Simulation.onForest f) := by
  refine fun s => .step hother fun a s' hact => ⟨hact, fun w hw => ?_⟩
  cases hact
  exact ⟨_, .dress (h w.forest), ⟨hw.engine, congrArg (fun x => (f x).2) hw.forest⟩, rfl, rfl, rfl⟩

theorem Follows.cancel (id : TaskId) :
    Follows ok (Simulation.onEngine (·.cancel id) : Act β μ Bool) (Simulation.onEngine (·.cancel id)) := by
  refine fun s => .step hother fun a s' hact => ⟨hact, fun w hw => ?_⟩
  cases hact
  exact ⟨_, .cancel id, ⟨congrArg (fun e => (e.cancel id).2) hw.engine, hw.forest⟩, rfl, rfl, rfl⟩

theorem Follows.stop :
    Follows ok (Simulation.onEngine (·.stop) : Act β μ _) (Simulation.onEngine (·.stop)) := by
  refine fun s => .step hother fun a s' hact => ⟨hact, fun w hw => ?_⟩
  cases hact
  exact ⟨_, .stop, ⟨congrArg (fun e => e.stop.2) hw.engine, hw.forest⟩, rfl, rfl, rfl⟩

end

/-! ## Attributes -/

section

variable (hother : ok .other)

include hother

theorem Follows.onAttributes (h : Holder) (f : AttributeSet β → α × AttributeSet β) :
    Follows ok (Simulation.onAttributes h f : Act β μ α) (Simulation.onAttributes h f) := by
  cases h with
  | entity e =>
    refine fun s => .step hother fun a s' hact => ⟨hact, fun w hw => ?_⟩
    cases hact
    exact ⟨_, .dress (.reattribute e (f (s.attributesOf (.entity e))).2 w.forest),
      ⟨hw.engine, congrArg (Forest.modify e _) hw.forest⟩, rfl, rfl, rfl⟩
  | standalone i =>
    refine .aside fun s a s' hact => ?_
    cases hact
    exact ⟨rfl, rfl⟩

variable {run run' : Run β μ} (hrun : RunFollows ok run run')

include hrun

omit hother in
theorem Follows.notify (h : Holder) (k : AttributeKey) (v previous : Option Value) :
    Follows ok (Simulation.notify run h k v previous) (Simulation.notify run' h k v previous) := by
  refine .bind (.ask _) fun attributes => .bind (.forIn _ fun l _ => ?_) fun _ => .pure _
  exact .bind (hrun _ l.code) fun _ => .pure _

theorem Follows.setAttribute (h : Holder) (k : AttributeKey) (v : Value) :
    Follows ok (Simulation.setAttribute run h k v) (Simulation.setAttribute run' h k v) := by
  refine .ite (fun _ => .pure _) fun _ => .bind (.onAttributes hother h _) fun previous => ?_
  exact .bind (.notify hrun h k _ _) fun _ => .pure _

theorem Follows.removeAttribute (h : Holder) (k : AttributeKey) :
    Follows ok (Simulation.removeAttribute run h k) (Simulation.removeAttribute run' h k) := by
  refine .bind (.onAttributes hother h _) fun previous => .ite (fun _ => ?_) fun _ => .pure _
  exact .bind (.notify hrun h k _ _) fun _ => .pure _

omit hother in
theorem Follows.fireAttribute (h : Holder) (k : AttributeKey) :
    Follows ok (Simulation.fireAttribute run h k) (Simulation.fireAttribute run' h k) := by
  refine .bind (.ask _) fun attributes => ?_
  cases attributes.get? k with
  | some v => exact .notify hrun h k _ _
  | none => exact .pure _

end

/-! ## Marks and types -/

section

variable (hother : ok .other)

include hother

theorem Follows.mark (e : EntityRef) (type : TypeName) :
    Follows ok (Simulation.onForest (·.mark e type) : Act β μ Bool)
      (Simulation.onForest (·.mark e type)) :=
  .onForest hother fun x => .remark e _ x

theorem Follows.unmark (e : EntityRef) (type : TypeName) :
    Follows ok (Simulation.onForest (·.unmark e type) : Act β μ Bool)
      (Simulation.onForest (·.unmark e type)) :=
  .onForest hother fun x => .remark e _ x

theorem Follows.subscribe (container : EntityRef) (l : Listener β) :
    Follows ok (Simulation.onForest (·.subscribe container l) : Act β μ Bool)
      (Simulation.onForest (·.subscribe container l)) :=
  .onForest hother fun x => .relisten container _ x

theorem Follows.unsubscribe (container : EntityRef) (l : ListenerId) :
    Follows ok (Simulation.onForest (·.unsubscribe container l) : Act β μ Bool)
      (Simulation.onForest (·.unsubscribe container l)) :=
  .onForest hother fun x => .relisten container _ x

theorem Follows.markAsType (e : EntityRef) (type : TypeName) :
    Follows ok (Simulation.markAsType e type : Act β μ _) (Simulation.markAsType e type) := by
  refine .bind (.ask _) fun ancestors => ?_
  cases ancestors with
  | error error => exact .pure _
  | ok ancestors =>
    refine .bind (.mark hother e type) fun added => .bind (.forIn _ fun a _ => ?_) fun _ => .pure _
    exact .bind (.mark hother e a) fun _ => .pure _

theorem Follows.unmarkAsType (e : EntityRef) (type : TypeName) :
    Follows ok (Simulation.unmarkAsType e type : Act β μ _) (Simulation.unmarkAsType e type) := by
  refine .bind (.ask _) fun found => ?_
  cases found with
  | error error => exact .pure _
  | ok _ =>
    refine .bind (.unmark hother e type) fun removed => .bind (.ask _) fun marks =>
      .bind (.forIn _ fun m _ => .bind (.ask _) fun descends => ?_) fun _ => .pure _
    refine .ite (fun _ => ?_) fun _ => .pure _
    exact .bind (.unmark hother e m) fun _ => .pure _

end

theorem Follows.viewAs (e : EntityRef) (type : TypeName) :
    Follows ok (Simulation.viewAs e type : Act β μ _) (Simulation.viewAs e type) :=
  .bind (.onTypes _) fun _ => .pure _

theorem Follows.viewAllAs (type : TypeName) (es : List EntityRef) :
    Follows ok (Simulation.viewAllAs type es : Act β μ _) (Simulation.viewAllAs type es) := by
  induction es with
  | nil => exact .pure _
  | cons e es ih =>
    refine .bind (.viewAs e type) fun p => ?_
    cases p with
    | error error => exact .pure _
    | ok p => exact .bind ih fun _ => .pure _

theorem Follows.childAs (container : EntityRef) (id : EntityId) (type : TypeName) :
    Follows ok (Simulation.childAs container id type : Act β μ _)
      (Simulation.childAs container id type) := by
  refine .bind (.ask _) fun found => ?_
  cases found with
  | none => exact .pure _
  | some e => exact .bind (.viewAs e type) fun _ => .pure _

theorem Follows.childrenAs (container : EntityRef) (type : TypeName) :
    Follows ok (Simulation.childrenAs container type : Act β μ _)
      (Simulation.childrenAs container type) :=
  .bind (.ask _) fun es => .viewAllAs type es

/-! ## Owned tasks -/

theorem schedule_of_refused {o : Owner} {job : Job β} {delay period : Nat}
    (h : s.maySchedule o = false) :
    schedule o job delay period s = .ok (.error .detached, s) := by
  unfold schedule
  change (if (!s.maySchedule o) = true then _ else _ : Act β μ (Except EngineError TaskId)) s = _
  rw [h, if_pos (by decide)]
  rfl

theorem schedule_of_error {o : Owner} {job : Job β} {delay period : Nat} {error : EngineError}
    (h : s.maySchedule o = true) (he : s.engine.schedule job delay period = .error error) :
    schedule o job delay period s = .ok (.error error, s) := by
  unfold schedule
  change (if (!s.maySchedule o) = true then _ else _ : Act β μ (Except EngineError TaskId)) s = _
  rw [h, if_neg (by decide)]
  exact bind_of_ok (tryEngine_error he)

theorem schedule_of_ok {o : Owner} {job : Job β} {delay period : Nat} {id : TaskId}
    {e : Engine (Job β)} (h : s.maySchedule o = true)
    (he : s.engine.schedule job delay period = .ok (id, e)) :
    schedule o job delay period s = .ok (.ok id,
      { s with engine := e }.putTracker o ((s.trackerOf o).trackPruned (e.isActive ·) id)) := by
  have htracker : { s with engine := e }.trackerOf o = s.trackerOf o := by cases o <;> rfl
  unfold schedule
  change (if (!s.maySchedule o) = true then _ else _ : Act β μ (Except EngineError TaskId)) s = _
  rw [h, if_neg (by decide)]
  refine (bind_of_ok (tryEngine_ok he)).trans ?_
  refine (bind_of_ok rfl).trans ((bind_of_ok rfl).trans ?_)
  rw [htracker]
  rfl

theorem cancelOwned_of_not_mem {o : Owner} {id : TaskId} (h : id ∉ (s.trackerOf o).ids) :
    cancelOwned o id s = .ok (false, s) := by
  unfold cancelOwned
  change (if (s.trackerOf o).contains id = true then _ else _ : Act β μ Bool) s = _
  have hno : ¬(s.trackerOf o).contains id = true := fun hc => h (List.contains_iff_mem.mp hc)
  rw [if_neg hno]
  rfl

theorem cancelOwned_of_mem {o : Owner} {id : TaskId} (h : id ∈ (s.trackerOf o).ids) :
    cancelOwned o id s =
      (do if ← ask (·.hasEngine o) then onEngine (·.cancel id) else return false)
        (s.putTracker o ((s.trackerOf o).untrack id)) := by
  unfold cancelOwned
  change (if (s.trackerOf o).contains id = true then _ else _ : Act β μ Bool) s = _
  have hyes : (s.trackerOf o).contains id = true := List.contains_iff_mem.mpr h
  rw [if_pos hyes]
  rfl

theorem cancelAllOwned_of_engine {o : Owner} (h : s.hasEngine o = true) :
    cancelAllOwned o s = .ok ((s.engine.cancelAll (s.trackerOf o).ids).1,
      { s.putTracker o {} with engine := (s.engine.cancelAll (s.trackerOf o).ids).2 }) := by
  have hengine : (s.putTracker o {}).engine = s.engine := by cases o <;> rfl
  unfold cancelAllOwned
  change (if s.hasEngine o = true then _ else _ : Act β μ Nat) s = _
  rw [if_pos h]
  refine (bind_of_ok rfl).trans ((bind_of_ok rfl).trans ?_)
  rw [onEngine, hengine]

theorem cancelAllOwned_of_no_engine {o : Owner} (h : s.hasEngine o = false) :
    cancelAllOwned o s = .ok (0, s) := by
  unfold cancelAllOwned
  change (if s.hasEngine o = true then _ else _ : Act β μ Nat) s = _
  rw [if_neg (by rw [h]; decide)]
  rfl

section

variable (hother : ok .other)

include hother

theorem Follows.cancelAll {w : World β} (hw : w.Shows s) (ids : List TaskId) :
    ∃ w', w.Reaches ok w' ∧ w'.Shows { s with engine := (s.engine.cancelAll ids).2 } ∧
      w'.doomed = w.doomed ∧ w'.ahead = w.ahead ∧ w'.bodies = w.bodies := by
  induction ids generalizing w s with
  | nil => exact ⟨w, .refl, hw, rfl, rfl, rfl⟩
  | cons id ids ih =>
    have hw' : World.Shows { w with engine := (w.engine.cancel id).2 }
        { s with engine := (s.engine.cancel id).2 } :=
      ⟨congrArg (fun e => (e.cancel id).2) hw.engine, hw.forest⟩
    rw [Engine.cancelAll_cons]
    exact (World.Step.cancel id).then hother (ih hw')

theorem Follows.schedule (o : Owner) (job : Job β) (delay period : Nat) :
    Follows ok (Simulation.schedule o job delay period : Act β μ _)
      (Simulation.schedule o job delay period) := by
  intro s a s' hact
  refine ⟨hact, fun w rest hw hd => ?_⟩
  cases hmay : s.maySchedule o with
  | false =>
    rw [schedule_of_refused hmay] at hact
    cases hact
    exact ⟨w, .refl, hw, hd, rfl, rfl⟩
  | true =>
    cases he : s.engine.schedule job delay period with
    | error error =>
      rw [schedule_of_error hmay he] at hact
      cases hact
      exact ⟨w, .refl, hw, hd, rfl, rfl⟩
    | ok p =>
      obtain ⟨id, e⟩ := p
      rw [schedule_of_ok hmay he] at hact
      cases hact
      obtain ⟨engine, forest, doomed, ahead, bodies, begun, owners, released⟩ := w
      obtain ⟨rfl, rfl⟩ := hw
      cases o with
      | entity x =>
        obtain ⟨hlive, hb⟩ := (Bool.and_eq_true _ _).mp hmay
        exact ⟨_, .single hother (.entrust hlive hb he), ⟨rfl, rfl⟩, hd, rfl, rfl⟩
      | nobody | scheduler =>
        exact ⟨_, .single hother (.schedule he), ⟨rfl, rfl⟩, hd, rfl, rfl⟩

theorem Follows.cancelOwned (o : Owner) (id : TaskId) :
    Follows ok (Simulation.cancelOwned o id : Act β μ _) (Simulation.cancelOwned o id) := by
  intro s
  by_cases hid : id ∈ (s.trackerOf o).ids
  · cases o with
    | nobody => cases hid
    | entity e =>
      refine .step hother fun a s' hact => ⟨hact, fun w hw => ?_⟩
      rw [cancelOwned_of_mem hid] at hact
      obtain ⟨engine, forest, doomed, ahead, bodies, begun, owners, released⟩ := w
      obtain ⟨rfl, rfl⟩ := hw
      refine ⟨_, .withdraw hid, ?_, rfl, rfl, rfl⟩
      change (if s.forest.bound = true then _ else _ : Act β μ Bool) _ = _ at hact
      split at hact
      · next hb =>
        cases hact
        exact ⟨(if_pos hb).symm, rfl⟩
      · next hb =>
        cases hact
        exact ⟨(if_neg hb).symm, rfl⟩
    | scheduler r =>
      intro a s' hact
      refine ⟨hact, fun w rest hw hd => ?_⟩
      rw [cancelOwned_of_mem hid] at hact
      have hcancel := Follows.cancel (μ := μ) hother id _ _ _ hact
      exact hcancel.2 w rest ⟨hw.engine, hw.forest⟩ hd
  · intro a s' hact
    refine ⟨hact, fun w rest hw hd => ?_⟩
    rw [cancelOwned_of_not_mem hid] at hact
    cases hact
    exact ⟨w, .refl, hw, hd, rfl, rfl⟩

theorem Follows.cancelAllOwned (o : Owner) :
    Follows ok (Simulation.cancelAllOwned o : Act β μ _) (Simulation.cancelAllOwned o) := by
  intro s a s' hact
  refine ⟨hact, fun w rest hw hd => ?_⟩
  cases hengine : s.hasEngine o with
  | false =>
    rw [cancelAllOwned_of_no_engine hengine] at hact
    cases hact
    exact ⟨w, .refl, hw, hd, rfl, rfl⟩
  | true =>
    rw [cancelAllOwned_of_engine hengine] at hact
    cases hact
    cases o with
    | entity e =>
      obtain ⟨engine, forest, doomed, ahead, bodies, begun, owners, released⟩ := w
      obtain ⟨rfl, rfl⟩ := hw
      exact ⟨_, .single hother (.withdrawAll e hengine), ⟨rfl, rfl⟩, hd, rfl, rfl⟩
    | nobody | scheduler =>
      obtain ⟨w', hr, hw', hd', hplace⟩ := Follows.cancelAll hother hw (s.trackerOf _).ids
      exact ⟨w', hr, ⟨hw'.engine, hw'.forest⟩, hd'.trans hd, hplace⟩

theorem Follows.dropScheduler (r : SchedulerRef) :
    Follows ok (Simulation.dropScheduler r : Act β μ _) (Simulation.dropScheduler r) := by
  refine .bind (.ask _) fun there => .ite (fun _ => ?_) fun _ => .pure _
  refine .bind (.cancelAllOwned hother (.scheduler r)) fun _ => .bind (.aside fun s a s' hact => ?_)
    fun _ => .pure _
  cases hact
  exact ⟨rfl, rfl⟩

end

end Simulation

end Vivarium
