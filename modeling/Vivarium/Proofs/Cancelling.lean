import Vivarium.Proofs.Fading
import Vivarium.Proofs.Histories
import Vivarium.Proofs.Sessions

/-! # Cancelled tasks

A task is active while it is queued, or in flight and not flagged. It never becomes active again, and
only the bodies of active tasks begin. So cancelling a task, which answers whether it was active, ends
it for good, wherever it was. This holds of a machine, which says in what order the operations come, and
of a world, in which they come in any order: there a body may begin a tick.
-/

namespace Vivarium

namespace Machine

variable {β : Type} {m m' : Machine β}

theorem Ledger.tidy (h : m.Ledger) : m.engine.Tidy :=
  ⟨h.queue, h.held_nodup, fun id hid => h.lt id (h.held_issued hid), h.emptied⟩

theorem Ledger.call_fades (h : m.Ledger) (c : EngineCall β) :
    Engine.Fades m.engine (c.effect m.engine) := by
  cases c with
  | schedule work delay period =>
    by_cases hs : m.engine.state = .stopped
    · simp only [EngineCall.effect, Engine.schedule_of_stopped hs]
      exact .refl _
    · obtain ⟨-, -, -, hfades, -⟩ := h.tidy.schedule (Engine.schedule_ok hs)
      simp only [EngineCall.effect, Engine.schedule_ok hs]
      exact hfades
  | cancel id => exact (h.tidy.cancel id).2.1
  | flag id => exact (Engine.Stays.flag id _).fades
  | pause => exact (Engine.Stays.pause _).fades
  | stop => exact h.tidy.stop.2
  | setBoundary which work => exact (Engine.Stays.setBoundary which work _).fades
  | setClock clock => exact (Engine.Stays.clock clock _).fades

theorem Ledger.finish_fades (h : m.Ledger) (t : Task β) (b : TickBarrier) :
    Engine.Fades m.engine ({ m.engine with barrier := b }.finish t) := by
  have htidy : Engine.Tidy { m.engine with barrier := b } :=
    h.tidy.stays ⟨rfl, rfl, Nat.le_refl _, Iff.rfl⟩
  obtain ⟨hnext, hactive⟩ := (htidy.complete t).2
  exact ⟨hnext, hactive⟩

theorem Sound.step_fades (h : m.Sound) (hs : m.Step m') : Engine.Fades m.engine m'.engine := by
  cases hs with
  | call c => exact h.ledger.call_fades c
  | step _ _ he =>
    obtain ⟨hs, rfl⟩ := Engine.enter_ok he
    exact ⟨Nat.le_refl _, fun _ _ ha => ha⟩
  | tick _ he => exact (Engine.Stays.start he).fades
  | again _ he =>
    obtain ⟨hnext, hactive⟩ := (Engine.Stays.continues he).fades
    exact ⟨hnext, hactive⟩
  | leave _ he => exact (Engine.Stays.continues he).fades
  | absent => exact .refl _
  | @pass _ which t => exact (Engine.Stays.settleBoundary which t _).fades
  | enter => exact .refl _
  | @settle _ which t => exact (Engine.Stays.settleBoundary which t _).fades
  | @launch k => exact (h.ledger.tidy.launch k.deadline).2
  | start => exact ⟨Nat.le_refl _, fun _ _ ha => ha⟩
  | @skip _ t => exact h.ledger.finish_fades t _
  | @finish _ t => exact h.ledger.finish_fades t m.engine.barrier
  | advance => exact ⟨Nat.le_refl _, fun _ _ ha => ha⟩
  | release => exact ⟨Nat.le_refl _, fun _ _ ha => ha⟩
  | @park k => exact (Engine.Stays.endTick k.deadline _).fades

theorem Sound.fades (h : m.Sound) (hr : m.Reaches m') : Engine.Fades m.engine m'.engine := by
  induction hr with
  | refl => exact .refl _
  | tail hr hs ih => exact ih.trans ((h.reaches hr).step_fades hs)

/-- The body of a task begins only if the task is active. -/
theorem Sound.begins_active (h : m.Sound) (hs : m.Step m') {id : TaskId} (hid : id ∈ m.issued)
    (hno : m.engine.isActive id = false) : m'.begun.count id = m.begun.count id := by
  have hbegun : ∀ (e : Engine β) (p : Phase β) (ns : List (Note β)), id ∉ ns.filterMap Note.begun? →
      (m.move e p ns).begun.count id = m.begun.count id := by
    intro e p ns hns
    rw [begun_move, List.count_append, List.count_eq_zero.mpr hns, Nat.add_zero]
  cases hs with
  | call c => exact congrArg (·.count id) (begun_move_of_nil (c.begun_notes _))
  | @enter _ which t _ hb =>
    refine hbegun _ _ _ fun hmem => ?_
    cases List.mem_singleton.mp hmem
    exact h.boundaries.fresh which t hb hid
  | @start k t rest hp hf =>
    refine hbegun _ _ _ fun hmem => ?_
    cases List.mem_singleton.mp hmem
    have hpending : t ∈ m.phase.pending := by rw [hp]; exact List.mem_cons_self
    have hs : m.engine.state ≠ .stopped := fun hs => by
      have hflag := h.control.flagged hs t hpending
      rw [hf] at hflag
      cases hflag
    have hfly : t.id ∈ Entries.keys m.engine.inFlight := by
      rw [h.control.flight hs]
      exact List.mem_map.mpr ⟨(t.id, t), List.mem_map.mpr ⟨t, hpending, rfl⟩, rfl⟩
    rw [(Engine.isActive_iff h.ledger.queue).mpr (Or.inr ⟨hfly, hf⟩)] at hno
    cases hno
  | skip =>
    rw [begun_move, List.filterMap_cons_none rfl, Engine.filterMap_begun_finishNote, List.append_nil]
  | finish => exact congrArg (·.count id) (begun_move_of_nil (Engine.filterMap_begun_finishNote _ _))
  | _ => exact hbegun _ _ _ List.not_mem_nil

/-- A task that is not active stays so, and its body never begins again. -/
theorem Sound.inactive_run (h : m.Sound) (hr : m.Reaches m') {id : TaskId}
    (hid : id.number < m.engine.nextTask) (hno : m.engine.isActive id = false) :
    m'.engine.isActive id = false ∧ (id ∈ m.issued → m'.begun.count id = m.begun.count id) := by
  have hstays : ∀ {m'' : Machine β}, m.Reaches m'' → m''.engine.isActive id = false := fun hr => by
    rw [Bool.eq_false_iff]
    intro ha
    rw [(h.fades hr).active id hid ha] at hno
    cases hno
  refine ⟨hstays hr, fun hissued => ?_⟩
  induction hr with
  | refl => rfl
  | tail hr hs ih =>
    exact ((h.reaches hr).begins_active hs (Reaches.issued hr hissued) (hstays hr)).trans ih

theorem Sound.cancelled (h : m.Sound) (hp : m.phase.listens = true) {id : TaskId}
    (hid : id.number < m.engine.nextTask) (hr : (m.calls [.cancel id]).Reaches m') :
    m'.engine.isActive id = false ∧ (m'.engine.cancel id).1 = false ∧
      (id ∈ m.issued → m'.begun.count id = m.begun.count id) := by
  have hstep : m.Step (m.calls [.cancel id]) := .call (.cancel id) hp trivial
  have h₁ := h.step hstep
  have hid₁ := Nat.lt_of_lt_of_le hid (h.step_fades hstep).next
  obtain ⟨hno, hcount⟩ := h₁.inactive_run hr hid₁ (h.ledger.tidy.cancel id).2.2
  refine ⟨hno, (Engine.cancel_fst (h₁.reaches hr).ledger.queue id).trans hno, fun hissued => ?_⟩
  have hbegun : (m.calls [.cancel id]).begun = m.begun :=
    begun_move_of_nil (EngineCall.begun_notes (.cancel id) _)
  rw [hcount (m.issued_move_subset _ _ _ hissued), hbegun]

end Machine

theorem World.Sound.cancelled {β : Type} {w w' : World β} {ok : Deed → Prop} (h : w.Sound) {id : TaskId}
    (hid : id.number < w.engine.nextTask)
    (hr : World.Reaches ok { w with engine := (w.engine.cancel id).2 } w') :
    w'.engine.isActive id = false ∧ (w'.engine.cancel id).1 = false ∧
      w'.begun.count id = w.begun.count id := by
  have hstep : w.Step .other { w with engine := (w.engine.cancel id).2 } := .cancel id
  have h₁ := h.step hstep
  have hid₁ := Nat.lt_of_lt_of_le hid (h.fades_step hstep).next
  obtain ⟨hno, hcount⟩ := h₁.inactive_run hr hid₁ (h.tidy.cancel id).2.2
  exact ⟨hno, (Engine.cancel_fst (h₁.reaches hr).tidy.queue id).trans hno, hcount⟩

open Simulation

/-- Cancelling answers whether the task was active, ends it for good and spares all others. A task is
active from when it is scheduled until it once ceases to be. All this is so in every run of a machine, and
also where bodies begin ticks: in every run of a world, which is where programs lead. -/
theorem cancel_is_exact_and_final {β μ : Type} :
    (∀ m : Machine β, m.Reachable → ∀ id,
      (m.engine.cancel id).1 = m.engine.isActive id ∧ Engine.Spares id m.engine (m.engine.cancel id).2 ∧
        (m.phase.listens = true → id.number < m.engine.nextTask →
          ∀ m', (m.calls [.cancel id]).Reaches m' →
            m'.engine.isActive id = false ∧ (m'.engine.cancel id).1 = false ∧
              (id ∈ m.issued → m'.begun.count id = m.begun.count id))) ∧
      (∀ m : Machine β, m.Reachable → ∀ work delay period id e,
        m.engine.schedule work delay period = .ok (id, e) → e.isActive id = true) ∧
      (∀ m m' : Machine β, m.Reachable → m.Reaches m' → ∀ id ∈ m.issued,
        m'.engine.isActive id = true → m.engine.isActive id = true) ∧
      (∀ s : Simulation (Code μ) μ, s.Ends →
        ∃ m : Machine (Job (Code μ)), m.Reachable ∧ m.phase = .idle ∧ m.engine = s.engine) ∧
      (∀ w : World β, w.Reachable → ∀ id,
        (w.engine.cancel id).1 = w.engine.isActive id ∧ Engine.Spares id w.engine (w.engine.cancel id).2 ∧
          (id.number < w.engine.nextTask →
            ∀ w', World.Reaches (fun _ => True) { w with engine := (w.engine.cancel id).2 } w' →
              w'.engine.isActive id = false ∧ (w'.engine.cancel id).1 = false ∧
                w'.begun.count id = w.begun.count id)) ∧
      (∀ w : World β, w.Reachable → ∀ work delay period id e,
        w.engine.schedule work delay period = .ok (id, e) →
          e.isActive id = true ∧ id.number < e.nextTask) ∧
      (∀ w w' : World β, w.Reachable → w.Reaches (fun _ => True) w' → ∀ id,
        id.number < w.engine.nextTask → w'.engine.isActive id = true → w.engine.isActive id = true) ∧
      (∀ (bound : Bool) (s : Simulation (Code μ) μ), s.New bound →
        ∃ w : World (Code μ), w.Reachable ∧ w.Shows s) ∧
      ∀ (w : World (Code μ)) (s : Simulation (Code μ) μ), w.Shows s →
        ∀ (r : Role) (p : Program μ r) n a s', execute n p s = .ok (a, s') →
          ∃ w', w.Reaches (fun _ => True) w' ∧ w'.Shows s' := by
  refine ⟨?_, ?_, ?_, fun _ hs => hs.reachable, ?_, ?_, ?_, ?_, ?_⟩
  · intro m hm id
    have h := hm.sound
    exact ⟨Engine.cancel_fst h.ledger.queue id, Engine.cancel_spares h.ledger.queue id,
      fun hp hid m' hr => h.cancelled hp hid hr⟩
  · exact fun m hm _ _ _ _ _ he => (hm.sound.ledger.tidy.schedule he).2.2.2.2
  · exact fun m m' hm hr id hid ha => (hm.sound.fades hr).active id (hm.sound.ledger.lt id hid) ha
  · intro w hw id
    have h := hw.sound
    exact ⟨Engine.cancel_fst h.tidy.queue id, Engine.cancel_spares h.tidy.queue id,
      fun hid w' hr => h.cancelled hid hr⟩
  · intro w hw work delay period id e he
    obtain ⟨rfl, hnext, -, -, hactive⟩ := hw.sound.tidy.schedule he
    exact ⟨hactive, hnext ▸ Nat.lt_succ_self _⟩
  · exact fun w w' hw hr id hid ha => (hw.sound.fades hr).active id hid ha
  · intro bound s hs
    obtain ⟨w, hbegins, hshows⟩ := hs.begins
    exact ⟨w, ⟨bound, w, hbegins, .refl⟩, hshows.toShows⟩
  · intro w s hw r p n a s' hact
    obtain ⟨w', hr, hw', -⟩ := (execute_follows n p s a s' hact).2 w w.doomed hw rfl
    exact ⟨w', hr, hw'⟩

theorem rivals_cancelled : (Machine.rivals.engine.cancel ⟨0⟩).1 = true ∧
    (Machine.rivals.calls [.cancel ⟨0⟩]).engine.isActive ⟨0⟩ = false := by
  obtain ⟨-, -, hfinal⟩ := (cancel_is_exact_and_final (μ := Unit)).1 _ Machine.rivals_reachable ⟨0⟩
  exact ⟨by decide, (hfinal rfl (by decide) _ .refl).1⟩

end Vivarium
