import Vivarium.Proofs.EngineTasks

/-! # The ledger of the tasks

Every task that was ever scheduled is in one place: queued, in flight, given back by the first stop,
or gone. Steps that move no task keep the ledger as it is; each of the others moves one task, or all
that are due, or gives all of them up.
-/

namespace Vivarium

namespace Machine

variable {β : Type} {m m' : Machine β}

theorem issued_move (m : Machine β) (e : Engine β) (p : Phase β) (ns : List (Note β)) :
    (m.move e p ns).issued = m.issued ++ ns.filterMap fun n => n.scheduled?.map (·.id) :=
  List.filterMap_append

theorem stops_move (m : Machine β) (e : Engine β) (p : Phase β) (ns : List (Note β)) :
    (m.move e p ns).stops = m.stops ++ ns.filterMap Note.stopped? := List.filterMap_append

theorem gone_move (m : Machine β) (e : Engine β) (p : Phase β) (ns : List (Note β)) :
    (m.move e p ns).gone = m.gone ++ ns.filterMap Note.gone? := List.filterMap_append

theorem begun_move (m : Machine β) (e : Engine β) (p : Phase β) (ns : List (Note β)) :
    (m.move e p ns).begun = m.begun ++ ns.filterMap Note.begun? := List.filterMap_append

theorem begun_move_of_nil {e : Engine β} {p : Phase β} {ns : List (Note β)}
    (h : ns.filterMap Note.begun? = []) : (m.move e p ns).begun = m.begun := by
  rw [begun_move, h, List.append_nil]

theorem move_move (m : Machine β) (e e' : Engine β) (p p' : Phase β) (ns ns' : List (Note β)) :
    (m.move e p ns).move e' p' ns' = m.move e' p' (ns ++ ns') := by
  simp only [move, List.append_assoc]

structure Ledger (m : Machine β) : Prop where
  queue : m.engine.queue.WellFormed
  places : (m.engine.held ++ m.abandoned ++ m.gone).Perm m.issued
  nodup : m.issued.Nodup
  lt : ∀ id ∈ m.issued, id.number < m.engine.nextTask
  live : m.engine.state ≠ .stopped → m.stops = []
  stopped : m.engine.state = .stopped → ∃ left rest, m.stops = left :: rest ∧ ∀ l ∈ rest, l = []
  emptied : m.engine.state = .stopped → m.engine.held = []

namespace Ledger

theorem places_nodup (h : m.Ledger) : (m.engine.held ++ m.abandoned ++ m.gone).Nodup :=
  h.places.nodup_iff.mpr h.nodup

theorem held_nodup (h : m.Ledger) : m.engine.held.Nodup :=
  (List.nodup_append.mp (List.nodup_append.mp h.places_nodup).1).1

theorem held_issued (h : m.Ledger) {id : TaskId} (hid : id ∈ m.engine.held) : id ∈ m.issued :=
  h.places.mem_iff.mp (List.mem_append_left _ (List.mem_append_left _ hid))

theorem gone_issued (h : m.Ledger) {id : TaskId} (hid : id ∈ m.gone) : id ∈ m.issued :=
  h.places.mem_iff.mp (List.mem_append_right _ hid)

theorem abandoned_issued (h : m.Ledger) {id : TaskId} (hid : id ∈ m.abandoned) : id ∈ m.issued :=
  h.places.mem_iff.mp (List.mem_append_left _ (List.mem_append_right _ hid))

theorem abandoned_of_live (h : m.Ledger) (hs : m.engine.state ≠ .stopped) : m.abandoned = [] := by
  rw [abandoned, h.live hs]
  rfl

theorem stops_eq_nil_iff (h : m.Ledger) : m.stops = [] ↔ m.engine.state ≠ .stopped := by
  constructor
  · intro hstops hs
    obtain ⟨left, rest, heq, -⟩ := h.stopped hs
    rw [heq] at hstops
    cases hstops
  · exact h.live

theorem stops_ne_nil_iff (h : m.Ledger) : m.stops ≠ [] ↔ m.engine.state = .stopped := by
  rw [ne_eq, h.stops_eq_nil_iff, ne_eq, Decidable.not_not]

theorem not_held_of_gone (h : m.Ledger) {id : TaskId} (hid : id ∈ m.gone) : id ∉ m.engine.held :=
  fun hheld => (List.nodup_append.mp h.places_nodup).2.2 id (List.mem_append_left _ hheld) id hid rfl

theorem live_of_held (h : m.Ledger) {id : TaskId} (hid : id ∈ m.engine.held) :
    m.engine.state ≠ .stopped := by
  intro hs
  rw [h.emptied hs] at hid
  cases hid

/-- The next task gets an identity that no task has had. -/
theorem next_not_issued (h : m.Ledger) : ⟨m.engine.nextTask⟩ ∉ m.issued :=
  fun hid => Nat.lt_irrefl _ (h.lt _ hid)

theorem next_not_queued (h : m.Ledger) : ⟨m.engine.nextTask⟩ ∉ m.engine.queue.ids :=
  fun hid => h.next_not_issued (h.held_issued (List.mem_append_left _ hid))

/-- Queued and in flight exclude each other. -/
theorem not_flying_of_queued (h : m.Ledger) {id : TaskId} (hid : id ∈ m.engine.queue.ids) :
    id ∉ Entries.keys m.engine.inFlight :=
  fun hfly => (List.nodup_append.mp h.held_nodup).2.2 id hid id hfly rfl

/-- A move that changes no place: what it notes moves no task. -/
theorem quiet (h : m.Ledger) {e : Engine β} {p : Phase β} {ns : List (Note β)}
    (he : m.engine.SameTasks e) (hi : ns.filterMap (fun n => n.scheduled?.map (·.id)) = [])
    (hs : ns.filterMap Note.stopped? = []) (hg : ns.filterMap Note.gone? = []) :
    (m.move e p ns).Ledger := by
  have hissued : (m.move e p ns).issued = m.issued := by rw [issued_move, hi, List.append_nil]
  have hstops : (m.move e p ns).stops = m.stops := by rw [stops_move, hs, List.append_nil]
  have hgone : (m.move e p ns).gone = m.gone := by rw [gone_move, hg, List.append_nil]
  have hheld : (m.move e p ns).engine.held = m.engine.held := by
    change e.queue.ids ++ Entries.keys e.inFlight = _
    rw [he.queue, he.inFlight]
    rfl
  constructor
  · exact he.queue.symm ▸ h.queue
  · rw [hheld, abandoned, hstops, hgone, hissued]
    exact h.places
  · rw [hissued]
    exact h.nodup
  · rw [hissued]
    exact fun id hid => Nat.lt_of_lt_of_le (h.lt id hid) he.nextTask
  · rw [hstops]
    exact fun hne => h.live fun e => hne (he.stopped.mpr e)
  · rw [hstops]
    exact fun e => h.stopped (he.stopped.mp e)
  · rw [hheld]
    exact fun e => h.emptied (he.stopped.mp e)

/-- A move of an engine that is not stopped and does not stop, by the tasks that it issues and those
that it lets go. -/
theorem shift (h : m.Ledger) {e : Engine β} {p : Phase β} {ns : List (Note β)} (new done : List TaskId)
    (hs : m.engine.state ≠ .stopped) (hs' : e.state ≠ .stopped) (hq : e.queue.WellFormed)
    (hi : ns.filterMap (fun n => n.scheduled?.map (·.id)) = new)
    (hst : ns.filterMap Note.stopped? = []) (hg : ns.filterMap Note.gone? = done)
    (hheld : (e.held ++ done).Perm (m.engine.held ++ new)) (hnew : new.Nodup)
    (hfresh : ∀ id ∈ new, m.engine.nextTask ≤ id.number ∧ id.number < e.nextTask)
    (hnext : m.engine.nextTask ≤ e.nextTask) : (m.move e p ns).Ledger := by
  have hissued : (m.move e p ns).issued = m.issued ++ new := by rw [issued_move, hi]
  have hstops : (m.move e p ns).stops = [] := by rw [stops_move, hst, h.live hs]; rfl
  have hgone : (m.move e p ns).gone = m.gone ++ done := by rw [gone_move, hg]
  have habandoned : (m.move e p ns).abandoned = [] := by rw [abandoned, hstops]; rfl
  refine ⟨hq, ?_, ?_, ?_, fun _ => hstops, fun e => absurd e hs', fun e => absurd e hs'⟩
  · have hplaces := h.places
    rw [h.abandoned_of_live hs] at hplaces
    rw [habandoned, hgone, hissued]
    refine List.perm_iff_count.mpr fun id => ?_
    have h₁ := hplaces.count_eq id
    have h₂ := hheld.count_eq id
    change List.count id (e.held ++ [] ++ (m.gone ++ done)) = _
    simp only [List.count_append, List.count_nil] at h₁ h₂ ⊢
    omega
  · rw [hissued]
    refine List.nodup_append.mpr ⟨h.nodup, hnew, ?_⟩
    rintro id hid _ hid' rfl
    exact Nat.lt_irrefl _ (Nat.lt_of_lt_of_le (h.lt id hid) (hfresh id hid').1)
  · rw [hissued]
    intro id hid
    rcases List.mem_append.mp hid with hid | hid
    · exact Nat.lt_of_lt_of_le (h.lt id hid) hnext
    · exact (hfresh id hid).2

/-! ## Calls -/

theorem schedule (h : m.Ledger) (work : β) (delay period : Nat) (p : Phase β) :
    (m.move (EngineCall.effect m.engine (.schedule work delay period)) p
      (EngineCall.notes m.engine (.schedule work delay period))).Ledger := by
  by_cases hs : m.engine.state = .stopped
  · simp only [EngineCall.effect, EngineCall.notes, Engine.schedule_of_stopped hs]
    exact h.quiet (.refl _) rfl rfl rfl
  · simp only [EngineCall.effect, EngineCall.notes, Engine.schedule_ok hs]
    have hids := h.queue.ids_insert_of_not_mem (t := m.engine.newTask work delay period)
      h.next_not_queued
    refine h.shift [⟨m.engine.nextTask⟩] [] hs hs (h.queue.insert _) rfl rfl rfl ?_
      (List.nodup_cons.mpr ⟨List.not_mem_nil, List.nodup_nil⟩) ?_ (Nat.le_succ _)
    · refine List.perm_iff_count.mpr fun id => ?_
      have hc := hids.count_eq id
      simp only [Engine.held, Engine.newTask, List.count_append, List.count_cons,
        List.count_nil] at hc ⊢
      omega
    · intro id hid
      rw [List.mem_singleton.mp hid]
      exact ⟨Nat.le_refl _, Nat.lt_succ_self _⟩

theorem cancel (h : m.Ledger) (id : TaskId) (p : Phase β) :
    (m.move (EngineCall.effect m.engine (.cancel id)) p
      (EngineCall.notes m.engine (.cancel id))).Ledger := by
  by_cases hid : id ∈ m.engine.queue.ids
  · have hs := h.live_of_held (List.mem_append_left _ hid)
    simp only [EngineCall.effect, EngineCall.notes, Engine.cancel_queued h.queue hid,
      h.queue.contains_iff.mpr hid, if_true]
    refine h.shift [] [id] hs hs (h.queue.remove id) rfl rfl rfl ?_ List.nodup_nil
      (by rintro _ ⟨⟩) (Nat.le_refl _)
    refine List.perm_iff_count.mpr fun a => ?_
    have hd := List.nodup_iff_count.mp h.queue.ids_nodup id
    have hc := List.count_pos_iff.mpr hid
    simp only [Engine.held, h.queue.ids_remove, List.count_append, Distinct.count_remove,
      List.count_cons, List.count_nil, beq_iff_eq, eq_comm (a := id)]
    split
    · next ha =>
      subst ha
      omega
    · omega
  · simp only [EngineCall.effect, EngineCall.notes, h.queue.contains_of_not_mem hid]
    exact h.quiet (.cancel h.queue hid) rfl rfl rfl

/-- The first stop gives back exactly what was queued or in flight; a later one gives nothing. -/
theorem stop (h : m.Ledger) (p : Phase β) :
    (m.move (EngineCall.effect m.engine .stop) p (EngineCall.notes m.engine .stop)).Ledger := by
  have hissued : ∀ e : Engine β, (m.move e p [.stopped m.engine.stop.1]).issued = m.issued :=
    fun e => by rw [issued_move]; exact List.append_nil _
  have hgone : ∀ e : Engine β, (m.move e p [.stopped m.engine.stop.1]).gone = m.gone :=
    fun e => by rw [gone_move]; exact List.append_nil _
  have hstops : ∀ e : Engine β,
      (m.move e p [.stopped m.engine.stop.1]).stops = m.stops ++ [m.engine.stop.1] :=
    fun e => by rw [stops_move]; rfl
  by_cases hs : m.engine.state = .stopped
  · obtain ⟨left, rest, hleft, hrest⟩ := h.stopped hs
    have habandoned : ∀ e : Engine β,
        (m.move e p [.stopped m.engine.stop.1]).abandoned = m.abandoned := fun e => by
      rw [abandoned, hstops, abandoned, hleft]
      rfl
    have hstop := Engine.stop_of_stopped hs
    simp only [EngineCall.effect, EngineCall.notes]
    refine ⟨?_, ?_, ?_, ?_, ?_, fun _ => ⟨left, rest ++ [m.engine.stop.1], ?_, ?_⟩, ?_⟩
    · rw [hstop]
      exact h.queue
    · rw [habandoned, hgone, hissued, hstop]
      exact h.places
    · rw [hissued]
      exact h.nodup
    · rw [hissued, hstop]
      exact h.lt
    · rw [hstop]
      exact fun hne => absurd hs hne
    · rw [hstops, hleft]
      rfl
    · rw [hstop]
      intro l hl
      rcases List.mem_append.mp hl with hl | hl
      · exact hrest l hl
      · exact List.mem_singleton.mp hl
    · rw [hstop]
      exact fun _ => h.emptied hs
  · obtain ⟨hleft, hstop⟩ := Engine.stop_of_live hs
    have habandoned : ∀ e : Engine β,
        (m.move e p [.stopped m.engine.stop.1]).abandoned = m.engine.held := fun e => by
      rw [abandoned, hstops, h.live hs]
      exact hleft
    simp only [EngineCall.effect, EngineCall.notes]
    refine ⟨?_, ?_, ?_, ?_, ?_, fun _ => ⟨m.engine.stop.1, [], ?_, by rintro _ ⟨⟩⟩, ?_⟩
    · rw [hstop]
      exact TaskQueue.wellFormed_drain _
    · have hplaces := h.places
      rw [h.abandoned_of_live hs, List.append_nil] at hplaces
      rw [habandoned, hgone, hissued, hstop]
      exact hplaces
    · rw [hissued]
      exact h.nodup
    · rw [hissued, hstop]
      exact h.lt
    · rw [hstop]
      exact fun hne => absurd rfl hne
    · rw [hstops, h.live hs]
      rfl
    · rw [hstop]
      exact fun _ => rfl

theorem call (h : m.Ledger) (c : EngineCall β) (p : Phase β) :
    (m.move (c.effect m.engine) p (c.notes m.engine)).Ledger := by
  cases c with
  | schedule work delay period => exact h.schedule work delay period p
  | cancel id => exact h.cancel id p
  | flag id => exact h.quiet ⟨rfl, rfl, Nat.le_refl _, Iff.rfl⟩ rfl rfl rfl
  | pause => exact h.quiet (.pause _) rfl rfl rfl
  | stop => exact h.stop p
  | setBoundary which work => exact h.quiet (.setBoundary which work _) rfl rfl rfl
  | setClock clock =>
    exact h.quiet ⟨rfl, rfl, Nat.le_refl _, Iff.rfl⟩ rfl rfl rfl

/-! ## Turns -/

theorem launch (h : m.Ledger) (bound : Nat) (p : Phase β) :
    (m.move (m.engine.launch bound).2 p [.launched (m.engine.launch bound).1]).Ledger := by
  by_cases hs : m.engine.state = .stopped
  · rw [Engine.launch_of_held (h.emptied hs)]
    exact h.quiet (.refl _) rfl rfl rfl
  · obtain ⟨-, heq⟩ := Engine.launch_eq h.queue h.held_nodup bound
    obtain ⟨-, hlist, hwf⟩ := h.queue.popAllDue bound
    rw [heq]
    refine h.shift [] [] hs hs hwf rfl rfl rfl ?_ List.nodup_nil (by rintro _ ⟨⟩) (Nat.le_refl _)
    refine List.perm_iff_count.mpr fun id => ?_
    have hc := ((List.filter_append_perm (·.due < bound) m.engine.queue.toList).map (·.id)).count_eq id
    simp only [Engine.held, TaskQueue.ids, hlist, Entries.keys, List.map_append, List.map_map,
      Function.comp_def, List.count_append, List.count_nil, ← decide_not] at hc ⊢
    omega

theorem complete (h : m.Ledger) (t : Task β) (p : Phase β) :
    (m.move (m.engine.complete t) p [m.engine.finishNote t]).Ledger := by
  by_cases hfly : t.id ∈ Entries.keys m.engine.inFlight
  · have hs := h.live_of_held (List.mem_append_right _ hfly)
    have hnot : t.id ∉ m.engine.queue.ids := fun hq => h.not_flying_of_queued hq hfly
    have hkeys := List.nodup_iff_count.mp (List.nodup_append.mp h.held_nodup).2.1 t.id
    have hcount := List.count_pos_iff.mpr hfly
    rw [Engine.complete_flying hfly hs, Engine.finishNote, if_pos (Entries.has_iff_mem.mpr hfly)]
    cases hback : t.isPeriodic && !m.engine.isFlagged t.id with
    | true =>
      have hids := h.queue.ids_insert_of_not_mem
        (t := { t with due := Duration.after m.engine.now t.period }) hnot
      refine h.shift [] [] hs hs (h.queue.insert _) rfl rfl ?_ ?_ List.nodup_nil
        (by rintro _ ⟨⟩) (Nat.le_refl _)
      · simp [Note.gone?, hback]
      · refine List.perm_iff_count.mpr fun id => ?_
        have hc := hids.count_eq id
        simp only [Engine.held, List.count_append, List.count_cons, List.count_nil, if_true,
          Entries.keys_erase, Distinct.count_remove, beq_iff_eq, eq_comm (a := t.id)] at hc ⊢
        split at hc
        · next ha =>
          subst ha
          simp only [if_true]
          omega
        · next ha =>
          simp only [if_neg ha]
          omega
    | false =>
      refine h.shift [] [t.id] hs hs h.queue rfl rfl ?_ ?_ List.nodup_nil
        (by rintro _ ⟨⟩) (Nat.le_refl _)
      · simp [Note.gone?, hback]
      · refine List.perm_iff_count.mpr fun id => ?_
        simp only [Engine.held, List.count_append, List.count_cons, List.count_nil, Bool.false_eq_true,
          if_false, Entries.keys_erase, Distinct.count_remove, beq_iff_eq, eq_comm (a := t.id)]
        split
        · next ha =>
          subst ha
          omega
        · omega
  · rw [Engine.complete_not_flying hfly, Engine.finishNote,
      if_neg fun hh => hfly (Entries.has_iff_mem.mp hh)]
    exact h.quiet (.refl _) rfl rfl rfl

theorem finish (h : m.Ledger) (t : Task β) (p : Phase β) :
    (m.move (m.engine.finish t) p [m.engine.finishNote t]).Ledger := by
  have hdone : ((m.move (m.engine.complete t) p [m.engine.finishNote t]).move
      (m.engine.finish t) p []).Ledger :=
    (h.complete t p).quiet ⟨rfl, rfl, Nat.le_refl _, Iff.rfl⟩ rfl rfl rfl
  rwa [move_move] at hdone

/-- A flagged task has its turn without its body. -/
theorem skip (h : m.Ledger) (t : Task β) (p : Phase β) :
    (m.move (m.engine.register.finish t) p [.turn t true, m.engine.finishNote t]).Ledger := by
  have hturn : (m.move m.engine.register p [.turn t true]).Ledger :=
    h.quiet ⟨rfl, rfl, Nat.le_refl _, Iff.rfl⟩ rfl rfl rfl
  have hdone := hturn.finish t p
  rwa [move_move] at hdone

theorem step (h : m.Ledger) (hs : m.Step m') : m'.Ledger := by
  cases hs with
  | call c => exact h.call c _
  | step _ _ he =>
    have hsame := Engine.SameTasks.enter (by decide) he
    exact h.quiet ⟨hsame.queue, hsame.inFlight, hsame.nextTask, hsame.stopped⟩ rfl rfl rfl
  | tick _ he => exact h.quiet (.start he) rfl rfl rfl
  | again _ he =>
    have hsame := Engine.SameTasks.continues he
    exact h.quiet ⟨hsame.queue, hsame.inFlight, hsame.nextTask, hsame.stopped⟩ rfl rfl rfl
  | leave _ he => exact h.quiet (.continues he) rfl rfl rfl
  | absent => exact h.quiet (.refl _) rfl rfl rfl
  | pass => exact h.quiet (.settleBoundary _ _ _) rfl rfl rfl
  | enter => exact h.quiet (.refl _) rfl rfl rfl
  | settle => exact h.quiet (.settleBoundary _ _ _) rfl rfl rfl
  | launch => exact h.launch _ _
  | start => exact h.quiet ⟨rfl, rfl, Nat.le_refl _, Iff.rfl⟩ rfl rfl rfl
  | skip => exact h.skip _ _
  | finish => exact h.finish _ _
  | advance => exact h.quiet ⟨rfl, rfl, Nat.le_refl _, Iff.rfl⟩ rfl rfl rfl
  | release => exact h.quiet ⟨rfl, rfl, Nat.le_refl _, Iff.rfl⟩ rfl rfl rfl
  | park => exact h.quiet (.endTick _ _) rfl rfl rfl

theorem initial {config : EngineConfig} {e : Engine β} (he : Engine.create config = .ok e) :
    Ledger { engine := e } := by
  obtain ⟨-, rfl⟩ := Engine.create_ok he
  exact {
    queue := TaskQueue.wellFormed_empty
    places := List.Perm.refl _
    nodup := List.nodup_nil
    lt := by rintro _ ⟨⟩
    live := fun _ => rfl
    stopped := by rintro ⟨⟩
    emptied := fun _ => rfl }

end Ledger

end Machine

end Vivarium
