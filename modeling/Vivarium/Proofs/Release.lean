import Vivarium.Proofs.Ownership

/-! # Tasks that are let go of

An entity lets go of a task that is still active only while no engine is bound: when it is asked to
cancel the task then, or when it dies in a killing that began then. Binding and unbinding alone lose
nothing.
-/

namespace Vivarium

namespace World

variable {β : Type} {w w' : World β} {d : Deed}

theorem Step.released (hs : w.Step d w') {id : TaskId} {e : EntityRef} (hgone : (id, e) ∈ w'.released) :
    (id, e) ∈ w.released ∨ id ∈ (w.tracker e).ids ∧
      (w.forest.bound = false ∨ ∃ rest, w.doomed = (e, false) :: rest) := by
  cases hs with
  | @fall x bound rest hd he =>
    cases bound with
    | true => exact Or.inl hgone
    | false =>
      refine (List.mem_append.mp hgone).imp_right fun hgone => ?_
      obtain ⟨id', hid, heq⟩ := List.mem_map.mp hgone
      cases heq
      exact ⟨hid, Or.inr ⟨rest, hd⟩⟩
  | @withdraw x id' hid =>
    cases hb : w.forest.bound with
    | true =>
      simp only [hb, if_true] at hgone
      exact Or.inl hgone
    | false =>
      simp only [hb] at hgone
      refine (List.mem_append.mp hgone).imp_right fun hgone => ?_
      cases List.mem_singleton.mp hgone
      exact ⟨hid, Or.inl rfl⟩
  | _ => exact Or.inl hgone

/-- Whether the tasks of the dying are cancelled is settled when a killing begins. -/
theorem Step.doomed (hs : w.Step d w') {x : EntityRef} (hx : (x, false) ∈ w'.doomed) :
    (x, false) ∈ w.doomed ∨ w.forest.bound = false ∨
      ∃ e rest, w.doomed = (e, false) :: rest ∧ x ∈ w.forest.children e := by
  cases hs with
  | cut | uproot =>
    rcases List.mem_cons.mp hx with heq | hx
    · exact Or.inr (Or.inl (congrArg Prod.snd heq).symm)
    · exact Or.inl hx
  | @fall e bound rest hd he =>
    rcases List.mem_append.mp hx with hx | hx
    · obtain ⟨c, hc, heq⟩ := List.mem_map.mp hx
      cases heq
      exact Or.inr (Or.inr ⟨e, rest, hd, hc⟩)
    · exact Or.inl (hd ▸ List.mem_cons_of_mem _ hx)
  | spare hd he => exact Or.inl (hd ▸ List.mem_cons_of_mem _ hx)
  | _ => exact Or.inl hx

end World

namespace Simulation

variable {μ : Type} {s s' : Simulation (Code μ) μ} {w : World (Code μ)} {id : TaskId} {e : EntityRef}

/-- What it means that the cancelling of an owned task answers no. -/
theorem cancelOwned_false (hw : w.Reachable) (hs : w.Rests s) (hid : (id, e) ∈ w.owners)
    (hact : cancelOwned (.entity e) id s = .ok (false, s')) :
    s'.engine.isActive id = false ∨ (id, e) ∈ w.released ∨
      s.forest.bound = false ∧ s'.engine = s.engine ∧ id ∈ (s.forest.entity e).tasks.ids ∧
        id ∉ (s'.forest.entity e).tasks.ids := by
  have hestate := hw.estate
  have htidy : s.engine.Tidy := hs.engine ▸ hw.sound.tidy
  by_cases ht : id ∈ (s.trackerOf (.entity e)).ids
  · rw [cancelOwned_of_mem ht] at hact
    change (if s.forest.bound = true then _ else _ : Act (Code μ) μ Bool) _ = _ at hact
    split at hact
    · obtain ⟨-, rfl⟩ := Prod.mk.inj (Except.ok.inj hact)
      exact Or.inl (htidy.cancel id).2.2
    · next hb =>
      cases hact
      refine Or.inr (Or.inr ⟨Bool.eq_false_iff.mpr hb, rfl, ht, fun hmem => ?_⟩)
      have htasks := Forest.tasks_retask e ((s.forest.entity e).tasks.untrack id) e s.forest
      rw [if_pos ⟨rfl, Forest.index_lt_of_task ht⟩] at htasks
      change id ∈ ((s.forest.retask e ((s.forest.entity e).tasks.untrack id)).entity e).tasks.ids at hmem
      rw [htasks] at hmem
      exact (TaskTracker.mem_untrack.mp hmem).2 rfl
  · rw [cancelOwned_of_not_mem ht] at hact
    cases hact
    cases ha : s.engine.isActive id with
    | false => exact Or.inl rfl
    | true =>
      refine Or.inr (Or.inl ((hestate.kept id e hid (hs.engine ▸ ha)).resolve_left fun hkept => ht ?_))
      rw [trackerOf, hs.forest]
      exact hkept.2

end Simulation

open Simulation

/-- An active task that was scheduled through an entity is remembered by it, and the entity lives,
unless it was let go of while no engine was bound. -/
theorem owned_task_is_kept_or_let_go {μ : Type} {w : World (Code μ)} {s : Simulation (Code μ) μ}
    (hw : w.Reachable) (hs : w.Rests s) :
    (∀ id e, (id, e) ∈ w.owners → s.engine.isActive id = true →
      s.forest.isAlive e = true ∧ id ∈ (s.forest.entity e).tasks.ids ∨ (id, e) ∈ w.released) ∧
      (∀ id e s', (id, e) ∈ w.owners → cancelOwned (.entity e) id s = .ok (false, s') →
        s'.engine.isActive id = false ∨ (id, e) ∈ w.released ∨
          s.forest.bound = false ∧ s'.engine = s.engine ∧ id ∈ (s.forest.entity e).tasks.ids ∧
            id ∉ (s'.forest.entity e).tasks.ids) ∧
      (∀ d w', w.Step d w' → ∀ id e, (id, e) ∈ w'.released → (id, e) ∈ w.released ∨
        id ∈ (w.tracker e).ids ∧ (w.forest.bound = false ∨ ∃ rest, w.doomed = (e, false) :: rest)) ∧
      (∀ d w', w.Step d w' → ∀ e, (e, false) ∈ w'.doomed → (e, false) ∈ w.doomed ∨
        w.forest.bound = false ∨ ∃ p rest, w.doomed = (p, false) :: rest ∧ e ∈ w.forest.children p) ∧
      (∀ e job delay period id s', schedule (.entity e) job delay period s = .ok (.ok id, s') →
        ∃ w', w.Reaches (fun _ => True) w' ∧ w'.Rests s' ∧ (id, e) ∈ w'.owners) ∧
      (∀ (r : Role) (p : Program μ r) n a s', execute n p s = .ok (a, s') →
        ∃ w', w.Reaches (fun _ => True) w' ∧ w'.Rests s') ∧
      ∀ bound (s₀ : Simulation (Code μ) μ), s₀.New bound →
        ∃ w₀ : World (Code μ), w₀.Reachable ∧ w₀.Rests s₀ := by
  refine ⟨fun id e hid ha => ?_, fun id e s' hid hact => cancelOwned_false hw hs hid hact,
    fun d w' hstep id e => hstep.released, fun d w' hstep e => hstep.doomed,
    fun e job delay period id s' hact => ?_, fun r p n a s' hact => (execute_follows n p).rests hs hact,
    fun bound s₀ hnew => ?_⟩
  · rw [hs.engine] at ha
    rw [hs.forest]
    exact hw.estate.kept id e hid ha
  · obtain ⟨w', hstep, hs', hid⟩ := schedule_entrusts hs hact
    exact ⟨w', .single trivial hstep, hs', hid⟩
  · obtain ⟨w₀, hbegins, hs₀⟩ := hnew.begins
    exact ⟨w₀, ⟨bound, w₀, hbegins, .refl⟩, hs₀⟩

theorem stay_is_kept : ∃ (w : World (Code Unit)) (s : Simulation (Code Unit) Unit),
    w.Rests s ∧ (⟨0⟩, ⟨1⟩) ∈ w.owners ∧ s.engine.isActive ⟨0⟩ = true ∧
      (s.forest.isAlive ⟨1⟩ = true ∧ ⟨0⟩ ∈ (s.forest.entity ⟨1⟩).tasks.ids ∨ (⟨0⟩, ⟨1⟩) ∈ w.released) := by
  obtain ⟨s₁, s₂, harrive, hschedule, hactive, -⟩ := arrival_stays
  obtain ⟨w₀, hbegins, hs₀⟩ := (blank_new true).begins
  have hw₀ : w₀.Reachable := ⟨true, w₀, hbegins, .refl⟩
  have hfollows : Follows (fun _ => True) (executeWithin Request.staysBound 2 arrival) (execute 2 arrival) :=
    executeWithin_follows trivial trivial (fun _ _ => trivial) 2 arrival
  obtain ⟨-, -, -, -, -, hgoes, -⟩ := owned_task_is_kept_or_let_go hw₀ hs₀
  obtain ⟨w₁, hr₁, hs₁⟩ := hgoes _ _ _ _ _ (hfollows _ _ _ harrive).1
  have hw₁ := hw₀.reaches hr₁
  obtain ⟨-, -, -, -, hentrust, -⟩ := owned_task_is_kept_or_let_go hw₁ hs₁
  obtain ⟨w₂, hr₂, hs₂, howner⟩ := hentrust _ _ _ _ _ _ hschedule
  obtain ⟨hkept, -⟩ := owned_task_is_kept_or_let_go (hw₁.reaches hr₂) hs₂
  exact ⟨w₂, s₂, hs₂, howner, hactive, hkept ⟨0⟩ ⟨1⟩ howner hactive⟩

/-- Makes an entity, schedules a task through it and unbinds the engine. -/
def abandonment : Program Unit .listener :=
  .request (.create Forest.root none none) fun
    | .error _ => .done ()
    | .ok e => .schedule (.entity e) (.entity e) stay.code 0 1 fun _ =>
      .request (.bind false) fun _ => .done ()

/-- The task of an entity goes on when the entity dies while no engine is bound, and also when it cancels
the task then. -/
theorem task_may_outlive_its_owner : ∃ s, execute 3 abandonment (blank true) = .ok ((), s) ∧
    s.engine.isActive ⟨0⟩ = true ∧ ⟨0⟩ ∈ (s.forest.entity ⟨1⟩).tasks.ids ∧
    (∃ s', kill (runCode 2) 3 ⟨1⟩ s = .ok (true, s') ∧ s'.forest.isAlive ⟨1⟩ = false ∧
      s'.engine.isActive ⟨0⟩ = true) ∧
    ∃ s', cancelOwned (.entity ⟨1⟩) ⟨0⟩ s = .ok (false, s') ∧ s'.engine.isActive ⟨0⟩ = true ∧
      ⟨0⟩ ∉ (s'.forest.entity ⟨1⟩).tasks.ids := by
  obtain ⟨_, s, hact, hholds⟩ := endsWith_iff.mp (show endsWith (execute 3 abandonment) (blank true)
    (fun _ s => s.engine.isActive ⟨0⟩ && (s.forest.entity ⟨1⟩).tasks.contains ⟨0⟩ &&
      (endsWith (kill (runCode 2) 3 ⟨1⟩) s fun b s => b && !s.forest.isAlive ⟨1⟩ && s.engine.isActive ⟨0⟩) &&
      endsWith (cancelOwned (.entity ⟨1⟩) ⟨0⟩) s fun b s =>
        !b && s.engine.isActive ⟨0⟩ && !(s.forest.entity ⟨1⟩).tasks.contains ⟨0⟩) = true by decide +kernel)
  simp only [Bool.and_eq_true, Bool.not_eq_true', endsWith_iff, TaskTracker.contains,
    List.contains_iff_mem] at hholds
  obtain ⟨⟨⟨hactive, htracked⟩, _, s₁, hkill, ⟨rfl, hdead⟩, hactive₁⟩, _, s₂, hcancel, ⟨rfl, hactive₂⟩,
    hgone⟩ := hholds
  refine ⟨s, hact, hactive, htracked, ⟨s₁, hkill, hdead, hactive₁⟩, s₂, hcancel, hactive₂, fun hmem => ?_⟩
  rw [List.contains_iff_mem.mpr hmem] at hgone
  cases hgone

end Vivarium
