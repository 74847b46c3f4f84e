import Vivarium.Proofs.Sessions

/-! # The places of a task

A task that was scheduled is always in exactly one place. It never comes back from the list of the
first stop or from being gone.
-/

namespace Vivarium

inductive Place
  | queue
  | flight
  | abandoned
  | gone
  deriving DecidableEq, Repr

namespace Machine

variable {β : Type} {m m' : Machine β}

/-- The tasks at a place. -/
def idsAt (m : Machine β) : Place → List TaskId
  | .queue => m.engine.queue.ids
  | .flight => Entries.keys m.engine.inFlight
  | .abandoned => m.abandoned
  | .gone => m.gone

/-- No task is lost, duplicated or revived. -/
structure Placed (m : Machine β) : Prop where
  /-- Scheduling issues the identity that it returns. -/
  issues : ∀ work delay period id e, m.engine.schedule work delay period = .ok (id, e) →
    (EngineCall.notes m.engine (.schedule work delay period)).filterMap
      (fun n => n.scheduled?.map (·.id)) = [id] ∧ id ∉ m.issued
  one_place : ∀ id ∈ m.issued,
    ∃ place, id ∈ m.idsAt place ∧ ∀ place', id ∈ m.idsAt place' → place' = place
  only_issued : ∀ place, m.idsAt place ⊆ m.issued
  once : ∀ place, (m.idsAt place).Nodup
  /-- The first stop gives back what is queued or in flight. -/
  first_stop : m.stops = [] →
    m.engine.stop.1.map (·.id) = m.idsAt .queue ++ m.idsAt .flight ∧
      (m.idsAt .queue ++ m.idsAt .flight).Nodup
  later_stop : m.stops ≠ [] → m.engine.stop.1 = []
  stays : ∀ m', m.Reaches m' → m.issued ⊆ m'.issued ∧ m.idsAt .abandoned ⊆ m'.idsAt .abandoned ∧
    m.idsAt .gone ⊆ m'.idsAt .gone

namespace Ledger

theorem mem_place (h : m.Ledger) {id : TaskId} (hid : id ∈ m.issued) : ∃ place, id ∈ m.idsAt place := by
  rcases List.mem_append.mp (h.places.mem_iff.mpr hid) with hid | hid
  · rcases List.mem_append.mp hid with hid | hid
    · rcases List.mem_append.mp hid with hid | hid
      · exact ⟨.queue, hid⟩
      · exact ⟨.flight, hid⟩
    · exact ⟨.abandoned, hid⟩
  · exact ⟨.gone, hid⟩

theorem place_unique (h : m.Ledger) {id : TaskId} {p p' : Place} (hid : id ∈ m.idsAt p)
    (hid' : id ∈ m.idsAt p') : p' = p := by
  have hsum := List.nodup_iff_count.mp h.places_nodup id
  have hpos := List.count_pos_iff.mpr hid
  have hpos' := List.count_pos_iff.mpr hid'
  simp only [Engine.held, List.count_append] at hsum
  cases p <;> cases p' <;> simp only [idsAt] at hpos hpos' <;> first | rfl | omega

theorem issues (h : m.Ledger) {work : β} {delay period : Nat} {id : TaskId} {e : Engine β}
    (he : m.engine.schedule work delay period = .ok (id, e)) :
    (EngineCall.notes m.engine (.schedule work delay period)).filterMap
      (fun n => n.scheduled?.map (·.id)) = [id] ∧ id ∉ m.issued := by
  have hs : m.engine.state ≠ .stopped := fun hs => by
    rw [Engine.schedule_of_stopped hs] at he
    cases he
  simp only [EngineCall.notes, he]
  rw [Engine.schedule_ok hs] at he
  cases he
  exact ⟨rfl, h.next_not_issued⟩

theorem placed (h : m.Ledger) : m.Placed where
  issues _ _ _ _ _ he := h.issues he
  one_place id hid := by
    obtain ⟨place, hplace⟩ := h.mem_place hid
    exact ⟨place, hplace, fun place' hplace' => h.place_unique hplace hplace'⟩
  only_issued place id hid := by
    cases place with
    | queue => exact h.held_issued (List.mem_append_left _ hid)
    | flight => exact h.held_issued (List.mem_append_right _ hid)
    | abandoned => exact h.abandoned_issued hid
    | gone => exact h.gone_issued hid
  once place := by
    obtain ⟨hnodup, hgone, -⟩ := List.nodup_append.mp h.places_nodup
    obtain ⟨hheld, habandoned, -⟩ := List.nodup_append.mp hnodup
    obtain ⟨hqueue, hflight, -⟩ := List.nodup_append.mp hheld
    cases place with
    | queue => exact hqueue
    | flight => exact hflight
    | abandoned => exact habandoned
    | gone => exact hgone
  first_stop hstops := ⟨(Engine.stop_of_live (h.stops_eq_nil_iff.mp hstops)).1, h.held_nodup⟩
  later_stop hstops := by
    rw [Engine.stop_of_stopped (h.stops_ne_nil_iff.mp hstops)]
  stays m' hr := ⟨hr.issued, hr.abandoned, hr.gone⟩

end Ledger

end Machine

/-- At every point of every run each task is in one place, and sessions end at such points. -/
theorem scheduled_task_has_one_place {β μ : Type} :
    (∀ m : Machine β, m.Reachable → m.Placed) ∧
      ∀ s : Simulation (Code μ) μ, s.Ends →
        ∃ m : Machine (Job (Code μ)), m.Reachable ∧ m.phase = .idle ∧ m.engine = s.engine :=
  ⟨fun _ hm => hm.sound.ledger.placed, fun _ hs => hs.reachable⟩

theorem rivals_placed : Machine.rivals.issued = [⟨0⟩, ⟨1⟩] ∧ Machine.rivals.Placed :=
  ⟨by decide, scheduled_task_has_one_place (μ := Unit) |>.1 _ Machine.rivals_reachable⟩

end Vivarium
