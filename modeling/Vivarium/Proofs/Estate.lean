import Vivarium.Proofs.World

/-! # The tasks of an entity

A task that was scheduled through an entity is remembered by it while it is active and the entity
lives, unless the entity let go of it while no engine was bound.
-/

namespace Vivarium

namespace Forest

variable {β : Type} {f : Forest β} {e x p : EntityRef}

theorem tasks_retask (e : EntityRef) (tasks : TaskTracker) (x : EntityRef) (f : Forest β) :
    ((f.retask e tasks).entity x).tasks =
      if x = e ∧ x.index < f.size then tasks else (f.entity x).tasks := by
  by_cases hx : x = e
  · subst hx
    by_cases hlt : x.index < f.size
    · rw [if_pos ⟨rfl, hlt⟩, retask, entity_modify_self _ hlt]
    · rw [if_neg fun h => hlt h.2, entity_of_size_le (Nat.le_of_not_lt hlt), entity_of_size_le]
      rw [retask, size_modify]
      exact Nat.le_of_not_lt hlt
  · rw [if_neg fun h => hx h.1, retask, entity_modify_of_ne _ hx]

theorem index_lt_of_task {id : TaskId} (h : id ∈ (f.entity e).tasks.ids) : e.index < f.size := by
  refine Nat.lt_of_not_le fun hle => ?_
  rw [entity_of_size_le hle] at h
  cases h

theorem tasks_insertChild (hp : p.index < f.size) {y : Entity β} (hidle : y.tasks = {}) (x : EntityRef) :
    ((f.insertChild p y).2.entity x).tasks = (f.entity x).tasks := by
  by_cases hx : x.index < f.size
  · exact field_insertChild (·.tasks) (fun _ _ => rfl) hp hx y
  · rw [entity_of_size_le (Nat.le_of_not_lt hx)]
    by_cases hx' : x.index < (f.insertChild p y).2.size
    · obtain rfl := (old_or_new p y hx').resolve_right hx
      rw [entity_insertChild_new hp]
      exact hidle
    · rw [entity_of_size_le (Nat.le_of_not_lt hx')]

theorem tasks_fell (e : EntityRef) (bound : Bool) (x : EntityRef) (f : Forest β) :
    ((f.fell e bound).entity x).tasks = if x = e ∧ bound = true then {} else (f.entity x).tasks := by
  by_cases hx : x = e
  · subst hx
    by_cases hlt : x.index < f.size
    · rw [fell_self bound hlt]
      simp
    · have hle := Nat.le_of_not_lt hlt
      rw [entity_of_size_le hle, entity_of_size_le (by rwa [fell, size_modify])]
      exact (ite_self _).symm
  · rw [fell_of_ne bound hx, if_neg fun h => hx h.1]

end Forest

namespace TaskTracker

theorem mem_untrack {id id' : TaskId} {t : TaskTracker} :
    id' ∈ (t.untrack id).ids ↔ id' ∈ t.ids ∧ id' ≠ id := by
  rw [untrack, Distinct.remove, List.mem_filter, decide_eq_true_eq]

/-- Tracking a task forgets no task that is active. -/
theorem mem_trackPruned {active : TaskId → Bool} {id id' : TaskId} {t : TaskTracker} :
    (id' ∈ (t.trackPruned active id).ids → id' ∈ t.ids ∨ id' = id) ∧
      (id' ∈ t.ids ∧ active id' = true ∨ id' = id → id' ∈ (t.trackPruned active id).ids) := by
  unfold trackPruned track
  rw [Distinct.mem_add]
  split
  · simp only [prune, List.mem_filter]
    exact ⟨Or.imp_left And.left, fun h => h⟩
  · exact ⟨fun h => h, Or.imp_left And.left⟩

end TaskTracker

namespace World

variable {β : Type} {w w' : World β} {d : Deed} {ok : Deed → Prop} {id : TaskId} {e : EntityRef}

structure Estate (w : World β) : Prop where
  fresh : ∀ p ∈ w.owners, p.1.number < w.engine.nextTask
  unique : ∀ id e e', (id, e) ∈ w.owners → (id, e') ∈ w.owners → e' = e
  tracked : ∀ e, ∀ id ∈ (w.tracker e).ids, (id, e) ∈ w.owners
  kept : ∀ id e, (id, e) ∈ w.owners → w.engine.isActive id = true →
    w.forest.isAlive e = true ∧ id ∈ (w.tracker e).ids ∨ (id, e) ∈ w.released

namespace Estate

theorem initial {bound : Bool} (h : w.Begins bound) : w.Estate := by
  obtain ⟨config, e, limit, he, rfl⟩ := h
  refine ⟨by rintro _ ⟨⟩, by rintro _ _ _ ⟨⟩, ?_, by rintro _ _ ⟨⟩⟩
  rintro ⟨i⟩ id hid
  cases i <;> cases hid

/-- A step through which no task is scheduled. Each task that stays active has to stay with its entity,
or to be let go of. -/
theorem keep (h : w.Estate) (hfades : w.engine.Fades w'.engine) (howners : w'.owners = w.owners)
    (htracked : ∀ e, ∀ id ∈ (w'.tracker e).ids, id ∈ (w.tracker e).ids)
    (hreleased : ∀ p ∈ w.released, p ∈ w'.released)
    (hkept : ∀ id e, (id, e) ∈ w.owners → w'.engine.isActive id = true → w.forest.isAlive e = true →
      id ∈ (w.tracker e).ids →
        w'.forest.isAlive e = true ∧ id ∈ (w'.tracker e).ids ∨ (id, e) ∈ w'.released) : w'.Estate where
  fresh p hp := Nat.lt_of_lt_of_le (h.fresh p (howners ▸ hp)) hfades.next
  unique := howners ▸ h.unique
  tracked e id hid := howners ▸ h.tracked e id (htracked e id hid)
  kept id e hid ha := by
    rw [howners] at hid
    rcases h.kept id e hid (hfades.active id (h.fresh _ hid) ha) with hstays | hgone
    · exact hkept id e hid ha hstays.1 hstays.2
    · exact Or.inr (hreleased _ hgone)

theorem still (h : w.Estate) (hfades : w.engine.Fades w'.engine) (howners : w'.owners = w.owners)
    (hreleased : w'.released = w.released) (htasks : ∀ e, w'.tracker e = w.tracker e)
    (halive : ∀ e, w.forest.isAlive e = true → w'.forest.isAlive e = true) : w'.Estate := by
  refine h.keep hfades howners (fun e id hid => htasks e ▸ hid) (fun p hp => hreleased ▸ hp) ?_
  intro id e _ _ hlive hid
  exact Or.inl ⟨halive e hlive, (htasks e).symm ▸ hid⟩

theorem entrust (h : w.Estate) (hs : w.Sound) {job : Job β} {delay period : Nat}
    {engine : Engine (Job β)} (hlive : w.forest.isAlive e = true)
    (he : w.engine.schedule job delay period = .ok (id, engine)) : Estate { w with
      engine
      forest := w.forest.retask e ((w.tracker e).trackPruned (engine.isActive ·) id)
      owners := w.owners ++ [(id, e)] } := by
  obtain ⟨rfl, hnext, -, hfades, hactive⟩ := hs.tidy.schedule he
  have hlt := Forest.index_lt_of_isAlive hlive
  -- The identifier is new, so nobody owns a task under it yet.
  have hnew : ∀ e', (⟨w.engine.nextTask⟩, e') ∉ w.owners := fun e' hmem =>
    Nat.lt_irrefl _ (h.fresh _ hmem)
  have hmem : ∀ {p : TaskId × EntityRef}, p ∈ w.owners ++ [(⟨w.engine.nextTask⟩, e)] →
      p ∈ w.owners ∨ p = (⟨w.engine.nextTask⟩, e) := fun hp =>
    (List.mem_append.mp hp).imp_right List.mem_singleton.mp
  refine ⟨fun p hp => ?_, ?_, ?_, ?_⟩
  · rw [hnext]
    rcases hmem hp with hp | rfl
    · exact Nat.lt_succ_of_lt (h.fresh p hp)
    · exact Nat.lt_succ_self _
  · intro id' x x' hx hx'
    rcases hmem hx with hx | hx <;> rcases hmem hx' with hx' | hx'
    · exact h.unique id' x x' hx hx'
    · cases hx'
      exact absurd hx (hnew x)
    · cases hx
      exact absurd hx' (hnew x')
    · cases hx
      cases hx'
      rfl
  · intro x id' hid'
    rw [tracker, Forest.tasks_retask] at hid'
    split at hid'
    · next hx =>
      rw [hx.1]
      rcases TaskTracker.mem_trackPruned.1 hid' with hid' | rfl
      · exact List.mem_append_left _ (h.tracked e id' hid')
      · exact List.mem_append_right _ List.mem_cons_self
    · exact List.mem_append_left _ (h.tracked x id' hid')
  · intro id' x hx ha
    simp only [tracker, Forest.tasks_retask, (Forest.SameTree.retask e _ w.forest).alive]
    rcases hmem hx with hx | hx
    · refine (h.kept id' x hx (hfades.active id' (h.fresh _ hx) ha)).imp_left ?_
      rintro ⟨hx', hid'⟩
      refine ⟨hx', ?_⟩
      split
      · next heq =>
        obtain ⟨rfl, -⟩ := heq
        exact TaskTracker.mem_trackPruned.2 (Or.inl ⟨hid', ha⟩)
      · exact hid'
    · cases hx
      refine Or.inl ⟨hlive, ?_⟩
      rw [if_pos ⟨rfl, hlt⟩]
      exact TaskTracker.mem_trackPruned.2 (Or.inr rfl)

theorem withdraw (h : w.Estate) (hs : w.Sound) : Estate { w with
    engine := if w.forest.bound then (w.engine.cancel id).2 else w.engine
    forest := w.forest.retask e ((w.tracker e).untrack id)
    released := if w.forest.bound then w.released else w.released ++ [(id, e)] } := by
  refine h.keep ?_ rfl ?_ ?_ ?_
  · split
    · exact (hs.tidy.cancel id).2.1
    · exact .refl _
  · intro x id' hid'
    rw [tracker, Forest.tasks_retask] at hid'
    split at hid'
    · next hx => exact hx.1 ▸ (TaskTracker.mem_untrack.mp hid').1
    · exact hid'
  · intro p hp
    split
    · exact hp
    · exact List.mem_append_left _ hp
  · intro id' x hx ha hlive hid'
    simp only [tracker, Forest.tasks_retask, (Forest.SameTree.retask e _ w.forest).alive]
    -- The task that is withdrawn is over where an engine is bound, and else it is let go of.
    by_cases heq : x = e ∧ id' = id
    · obtain ⟨rfl, rfl⟩ := heq
      cases hb : w.forest.bound with
      | true =>
        have hno := (hs.tidy.cancel id').2.2
        simp only [hb, if_true] at ha
        rw [ha] at hno
        cases hno
      | false => exact Or.inr (List.mem_append_right _ List.mem_cons_self)
    · refine Or.inl ⟨hlive, ?_⟩
      split
      · next hx => exact TaskTracker.mem_untrack.mpr ⟨hx.1 ▸ hid', fun hid => heq ⟨hx.1, hid⟩⟩
      · exact hid'

theorem withdrawAll (h : w.Estate) (hs : w.Sound) (e : EntityRef) : Estate { w with
    engine := (w.engine.cancelAll (w.tracker e).ids).2, forest := w.forest.retask e {} } := by
  obtain ⟨-, hfades, hnone⟩ := hs.tidy.cancelAll (w.tracker e).ids
  refine h.keep hfades rfl ?_ (fun _ hp => hp) ?_
  · intro x id hid
    rw [tracker, Forest.tasks_retask] at hid
    split at hid
    · cases hid
    · exact hid
  · intro id x hx ha hlive hid
    have hne : x ≠ e := by
      rintro rfl
      rw [hnone id hid (h.fresh _ hx)] at ha
      cases ha
    refine Or.inl ⟨((Forest.SameTree.retask e _ w.forest).alive x).trans hlive, ?_⟩
    rw [tracker, Forest.tasks_retask, if_neg fun heq => hne heq.1]
    exact hid

theorem fall (h : w.Estate) (hs : w.Sound) (e : EntityRef) (bound : Bool)
    (doomed : List (EntityRef × Bool)) : Estate { w with
      engine := if bound then (w.engine.cancelAll (w.tracker e).ids).2 else w.engine
      forest := w.forest.fell e bound
      doomed
      released := if bound then w.released else w.released ++ (w.tracker e).ids.map (·, e) } := by
  obtain ⟨-, hfades, hnone⟩ := hs.tidy.cancelAll (w.tracker e).ids
  refine h.keep ?_ rfl ?_ ?_ ?_
  · split
    · exact hfades
    · exact .refl _
  · intro x id hid
    rw [tracker, Forest.tasks_fell] at hid
    split at hid
    · cases hid
    · exact hid
  · intro p hp
    split
    · exact hp
    · exact List.mem_append_left _ hp
  · intro id x hx ha hlive hid
    by_cases hne : x = e
    · subst hne
      cases bound with
      | true =>
        simp only [if_true] at ha
        rw [hnone id hid (h.fresh _ hx)] at ha
        cases ha
      | false => exact Or.inr (List.mem_append_right _ (List.mem_map.mpr ⟨id, hid, rfl⟩))
    · refine Or.inl ⟨(Forest.isAlive_fell e bound x w.forest).mpr ⟨hne, hlive⟩, ?_⟩
      rw [tracker, Forest.tasks_fell, if_neg fun heq => hne heq.1]
      exact hid

theorem step (h : w.Estate) (hsound : w.Sound) (hs : w.Step d w') : w'.Estate := by
  have hfades := hsound.fades_step hs
  cases hs with
  | dress hf =>
    exact h.still hfades rfl rfl (fun e => hf.tasks e) fun e ha => (hf.alive e).trans ha
  | create hp hfresh hroom halive hbare hidle =>
    have hlt := Forest.index_lt_of_isAlive hp
    refine h.still hfades rfl rfl (fun e => Forest.tasks_insertChild hlt hidle e) fun e ha => ?_
    exact (Forest.field_insertChild (·.alive) (fun _ _ => rfl) hlt (Forest.index_lt_of_isAlive ha)
      _).trans ha
  | cut hc =>
    exact h.still hfades rfl rfl (fun e => Forest.field_modify (·.tasks) fun _ => rfl)
      fun e ha => (Forest.isAlive_removeChild _ _ e _).trans ha
  | fall hd he => exact h.fall hsound _ _ _
  | entrust hlive hb he => exact h.entrust hsound hlive he
  | withdraw ht => exact h.withdraw hsound
  | withdrawAll e hb => exact h.withdrawAll hsound e
  | _ => exact h.still hfades rfl rfl (fun _ => rfl) fun _ ha => ha

theorem reaches (h : w.Estate) (hsound : w.Sound) (hr : w.Reaches ok w') : w'.Estate := by
  induction hr with
  | refl => exact h
  | tail hr hs ih =>
    obtain ⟨d, -, hs⟩ := hs
    exact ih.step (hsound.reaches hr) hs

end Estate

theorem Reachable.estate (h : w.Reachable) : w.Estate := by
  obtain ⟨_, _, hw₀, hr⟩ := h
  exact (Estate.initial hw₀).reaches (Sound.initial hw₀) hr

/-! ## Worlds that are bound throughout -/

/-- An engine is bound, those who are to die take their tasks with them, and nothing was let go of. -/
structure Bound (w : World β) : Prop where
  bound : w.forest.bound = true
  doomed : ∀ p ∈ w.doomed, p.2 = true
  released : w.released = []

theorem Bound.initial (h : w.Begins true) : w.Bound := by
  obtain ⟨config, e, limit, he, rfl⟩ := h
  exact ⟨rfl, by rintro _ ⟨⟩, rfl⟩

theorem Bound.step (h : w.Bound) (hs : w.Step d w') (hd : d ≠ .bind false) : w'.Bound := by
  cases hs with
  | dress hf => exact ⟨hf.bound.trans h.bound, h.doomed, h.released⟩
  | cut | uproot => exact ⟨h.bound, List.forall_mem_cons.mpr ⟨h.bound, h.doomed⟩, h.released⟩
  | @fall e bound rest hdoomed he =>
    have hall := h.doomed
    rw [hdoomed] at hall
    obtain ⟨hbound, hrest⟩ := List.forall_mem_cons.mp hall
    obtain rfl : bound = true := hbound
    refine ⟨h.bound, fun p hp => ?_, h.released⟩
    rcases List.mem_append.mp hp with hp | hp
    · obtain ⟨c, -, rfl⟩ := List.mem_map.mp hp
      rfl
    · exact hrest p hp
  | spare hdoomed he =>
    have hall := h.doomed
    rw [hdoomed] at hall
    exact ⟨h.bound, (List.forall_mem_cons.mp hall).2, h.released⟩
  | bind bound =>
    cases bound with
    | true => exact ⟨rfl, h.doomed, h.released⟩
    | false => exact absurd rfl hd
  | withdraw ht =>
    refine ⟨h.bound, h.doomed, ?_⟩
    simp only [h.bound, if_true]
    exact h.released
  | _ => exact ⟨h.bound, h.doomed, h.released⟩

theorem ReachableBound.bound (h : w.ReachableBound) : w.Bound := by
  obtain ⟨w₀, hw₀, hr⟩ := h
  induction hr with
  | refl => exact .initial hw₀
  | tail _ hs ih =>
    obtain ⟨d, hd, hs⟩ := hs
    exact ih.step hs hd

end World

end Vivarium
