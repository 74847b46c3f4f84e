import Vivarium.Proofs.Turns

/-! # What a tick leaves in the queue

Once the tasks that are due have been launched, the queue changes by what is scheduled, by what comes
back when its turn ends, and by what is cancelled. A task that is cancelled in the queue is gone, so it
does not matter when that was.
-/

namespace Vivarium

variable {β : Type}

/-- What a queue holds after `ns` if it held `base` before. -/
def remaining (base : List (Task β)) (ns : List (Note β)) : List (Task β) :=
  (base ++ ns.filterMap Note.scheduled? ++ ns.filterMap Note.requeued?).filter fun t =>
    t.id ∉ ns.filterMap Note.withdrawn?

/-- The tasks that `ns` puts into a queue. -/
def Arrives (t : Task β) (ns : List (Note β)) : Prop :=
  t ∈ ns.filterMap Note.scheduled? ∨ t ∈ ns.filterMap Note.requeued?

theorem remaining_of_kept {ns : List (Note β)} (h : ns.filterMap Note.withdrawn? = [])
    (base : List (Task β)) :
    remaining base ns = base ++ ns.filterMap Note.scheduled? ++ ns.filterMap Note.requeued? := by
  rw [remaining, h]
  exact List.filter_eq_self.mpr fun t _ => rfl

theorem remaining_withdrawn (id : TaskId) (base : List (Task β)) :
    remaining base [.withdrawn id] = base.filter (·.id ≠ id) := by
  change (base ++ [] ++ []).filter (fun t : Task β => t.id ∉ [id]) = _
  rw [List.append_nil, List.append_nil]
  exact List.filter_congr fun t _ => decide_eq_decide.mpr (not_congr List.mem_singleton)

theorem remaining_perm {base base' : List (Task β)} (h : base.Perm base') (ns : List (Note β)) :
    (remaining base ns).Perm (remaining base' ns) :=
  ((h.append_right _).append_right _).filter _

/-- Cancellations of the first notes do not concern what arrives later. -/
theorem remaining_append {base : List (Task β)} {ns ns' : List (Note β)}
    (hnew : ∀ t, Arrives t ns' → t.id ∉ ns.filterMap Note.withdrawn?) :
    (remaining (remaining base ns) ns').Perm (remaining base (ns ++ ns')) := by
  have hkeep : ∀ ts : List (Task β), (∀ t ∈ ts, Arrives t ns') →
      ts.filter (fun t => t.id ∉ ns.filterMap Note.withdrawn?) = ts := fun ts hts =>
    List.filter_eq_self.mpr fun t ht => decide_eq_true (hnew t (hts t ht))
  have hsplit : ∀ ts : List (Task β), ts.filter (fun t => t.id ∉ (ns ++ ns').filterMap Note.withdrawn?) =
      (ts.filter fun t => t.id ∉ ns.filterMap Note.withdrawn?).filter fun t =>
        t.id ∉ ns'.filterMap Note.withdrawn? := by
    intro ts
    rw [List.filter_filter]
    refine List.filter_congr fun t _ => ?_
    rw [List.filterMap_append, ← Bool.decide_and]
    exact decide_eq_decide.mpr (by rw [List.mem_append, not_or, and_comm])
  have hlater : (base ++ ns.filterMap Note.scheduled? ++ ns.filterMap Note.requeued? ++
      ns'.filterMap Note.scheduled? ++ ns'.filterMap Note.requeued?).filter (fun t =>
        t.id ∉ ns.filterMap Note.withdrawn?) =
      remaining base ns ++ ns'.filterMap Note.scheduled? ++ ns'.filterMap Note.requeued? := by
    rw [List.filter_append, List.filter_append, hkeep _ fun _ => Or.inl, hkeep _ fun _ => Or.inr]
    rfl
  rw [remaining, ← hlater, ← hsplit]
  refine List.Perm.filter _ ?_
  simp only [List.filterMap_append, List.append_assoc]
  exact ((List.perm_append_comm_assoc _ _ _).append_left _).append_left _

namespace Machine

variable {x y z : Machine β} {ns ns' : List (Note β)}

/-- From `x` to `y` the queue has changed as `ns` says, and nothing has come back from the tasks that
are gone. -/
structure Balances (x y : Machine β) (ns : List (Note β)) : Prop where
  journal : y.journal = x.journal ++ ns
  queue : y.engine.queue.toList.Perm (remaining x.engine.queue.toList ns)
  fresh : ∀ t, Arrives t ns → t.id ∉ x.gone

theorem gone_of_withdrawn {id : TaskId} (hid : id ∈ y.journal.filterMap Note.withdrawn?) :
    id ∈ y.gone := by
  obtain ⟨n, hn, hw⟩ := List.mem_filterMap.mp hid
  refine List.mem_filterMap.mpr ⟨n, hn, ?_⟩
  cases n <;> cases hw
  rfl

namespace Balances

theorem refl (x : Machine β) : Balances x x [] where
  journal := (List.append_nil _).symm
  queue := by
    rw [remaining_of_kept rfl, List.filterMap_nil, List.append_nil, List.filterMap_nil,
      List.append_nil]
  fresh _ ht := by rcases ht with ht | ht <;> cases ht

theorem trans (h : Balances x y ns) (h' : Balances y z ns') : Balances x z (ns ++ ns') where
  journal := by rw [h'.journal, h.journal, List.append_assoc]
  queue := by
    -- What was cancelled before is gone, and what is gone does not arrive.
    refine (h'.queue.trans (remaining_perm h.queue _)).trans (remaining_append fun t ht hid => ?_)
    refine h'.fresh t ht (gone_of_withdrawn ?_)
    rw [h.journal, List.filterMap_append]
    exact List.mem_append_right _ hid
  fresh t ht := by
    intro hid
    have hid' : t.id ∈ y.gone := by
      rw [gone, h.journal, List.filterMap_append]
      exact List.mem_append_left _ hid
    unfold Arrives at ht
    rw [List.filterMap_append, List.filterMap_append, List.mem_append, List.mem_append] at ht
    rcases ht with (ht | ht) | ht | ht
    · exact h.fresh t (Or.inl ht) hid
    · exact h'.fresh t (Or.inl ht) hid'
    · exact h.fresh t (Or.inr ht) hid
    · exact h'.fresh t (Or.inr ht) hid'

/-- A move that leaves the queue alone. -/
theorem quiet {e : Engine β} {p : Phase β} (hq : e.queue = x.engine.queue)
    (hs : ns.filterMap Note.scheduled? = []) (hr : ns.filterMap Note.requeued? = [])
    (hw : ns.filterMap Note.withdrawn? = []) : Balances x (x.move e p ns) ns where
  journal := rfl
  queue := by
    rw [remaining_of_kept hw, hs, hr, List.append_nil, List.append_nil, move, hq]
  fresh t ht := by
    unfold Arrives at ht
    rw [hs, hr] at ht
    rcases ht with ht | ht <;> cases ht

end Balances

theorem Ledger.call_balances (h : x.Ledger) (c : EngineCall β) {p : Phase β}
    (hstops : (x.move (c.effect x.engine) p (c.notes x.engine)).stops = []) :
    Balances x (x.move (c.effect x.engine) p (c.notes x.engine)) (c.notes x.engine) := by
  have hwf := h.queue
  cases c with
  | schedule work delay period =>
    by_cases hs : x.engine.state = .stopped
    · simp only [EngineCall.effect, EngineCall.notes, Engine.schedule_of_stopped hs]
      exact .quiet rfl rfl rfl rfl
    · simp only [EngineCall.effect, EngineCall.notes, Engine.schedule_ok hs]
      refine ⟨rfl, ?_, ?_⟩
      · refine (hwf.toList_insert_of_not_mem h.next_not_queued).trans ?_
        rw [remaining_of_kept rfl]
        change List.Perm _ (x.engine.queue.toList ++ [x.engine.newTask work delay period] ++ [])
        rw [List.append_nil]
        exact (List.perm_append_singleton _ _).symm
      · rintro t (ht | ht) hid
        · cases List.mem_singleton.mp ht
          exact h.next_not_issued (h.gone_issued hid)
        · cases ht
  | cancel id =>
    by_cases hid : id ∈ x.engine.queue.ids
    · simp only [EngineCall.effect, EngineCall.notes, Engine.cancel_queued hwf hid,
        hwf.contains_iff.mpr hid, if_true]
      refine ⟨rfl, ?_, ?_⟩
      · change (x.engine.queue.remove id).2.toList.Perm _
        rw [hwf.toList_remove, remaining_withdrawn]
      · rintro t (ht | ht) <;> cases ht
    · simp only [EngineCall.effect, EngineCall.notes, hwf.contains_of_not_mem hid]
      exact .quiet (Engine.SameTasks.cancel hwf hid).queue rfl rfl rfl
  | flag id => exact .quiet rfl rfl rfl rfl
  | pause => exact .quiet (Engine.SameTasks.pause _).queue rfl rfl rfl
  | stop =>
    rw [stops_move] at hstops
    cases (List.append_eq_nil_iff.mp hstops).2
  | setBoundary which work => exact .quiet (Engine.SameTasks.setBoundary which work _).queue rfl rfl rfl
  | setClock clock => exact .quiet rfl rfl rfl rfl

theorem Ledger.finish_balances (h : x.Ledger) (t : Task β) {p : Phase β} :
    Balances x (x.move (x.engine.finish t) p [x.engine.finishNote t]) [x.engine.finishNote t] := by
  have hqueue : (x.engine.finish t).queue = (x.engine.complete t).queue := rfl
  by_cases hfly : t.id ∈ Entries.keys x.engine.inFlight
  · have hheld : t.id ∈ x.engine.held := List.mem_append_right _ hfly
    have hs := h.live_of_held hheld
    have hnot : t.id ∉ x.engine.queue.ids := fun hq => h.not_flying_of_queued hq hfly
    rw [Engine.complete_flying hfly hs] at hqueue
    rw [Engine.finishNote, if_pos (Entries.has_iff_mem.mpr hfly)]
    cases hback : t.isPeriodic && !x.engine.isFlagged t.id with
    | true =>
      rw [hback, if_pos rfl] at hqueue
      have hnote : (Note.completed t (x.engine.isFlagged t.id) x.engine.now).requeued? =
        some { t with due := Duration.after x.engine.now t.period } := if_pos hback
      refine ⟨rfl, ?_, ?_⟩
      · rw [remaining_of_kept rfl, List.filterMap_cons_some hnote, move, hqueue]
        have hinsert := h.queue.toList_insert_of_not_mem
          (t := { t with due := Duration.after x.engine.now t.period }) hnot
        refine hinsert.trans ?_
        change List.Perm _ (x.engine.queue.toList ++ [] ++ [_])
        rw [List.append_nil]
        exact (List.perm_append_singleton _ _).symm
      · rintro u (hu | hu) hid
        · cases hu
        · rw [List.filterMap_cons_some hnote] at hu
          cases List.mem_singleton.mp hu
          exact h.not_held_of_gone hid hheld
    | false =>
      rw [hback, if_neg Bool.false_ne_true] at hqueue
      have hnote : (Note.completed t (x.engine.isFlagged t.id) x.engine.now).requeued? = none :=
        if_neg (by rw [hback]; exact Bool.false_ne_true)
      exact .quiet hqueue rfl (List.filterMap_cons_none hnote) rfl
  · rw [Engine.complete_not_flying hfly] at hqueue
    rw [Engine.finishNote, if_neg fun hh => hfly (Entries.has_iff_mem.mp hh)]
    exact .quiet hqueue rfl rfl rfl

/-- What every step but the launch does to the queue of an engine that is not stopped. -/
theorem Ledger.step_balances (h : x.Ledger) (hs : x.Step y) (hl : ∀ k, x.phase ≠ .launching k)
    (hstops : y.stops = []) : ∃ ns, Balances x y ns := by
  cases hs with
  | call c => exact ⟨_, h.call_balances c hstops⟩
  | step _ _ he => exact ⟨_, .quiet (Engine.SameTasks.enter (by decide) he).queue rfl rfl rfl⟩
  | tick _ he => exact ⟨_, .quiet (Engine.SameTasks.start he).queue rfl rfl rfl⟩
  | again _ he => exact ⟨_, .quiet (Engine.SameTasks.continues he).queue rfl rfl rfl⟩
  | leave _ he => exact ⟨_, .quiet (Engine.SameTasks.continues he).queue rfl rfl rfl⟩
  | absent => exact ⟨_, .quiet rfl rfl rfl rfl⟩
  | pass => exact ⟨_, .quiet (Engine.SameTasks.settleBoundary _ _ _).queue rfl rfl rfl⟩
  | enter => exact ⟨_, .quiet rfl rfl rfl rfl⟩
  | settle => exact ⟨_, .quiet (Engine.SameTasks.settleBoundary _ _ _).queue rfl rfl rfl⟩
  | launch hp => exact absurd hp (hl _)
  | start => exact ⟨_, .quiet rfl rfl rfl rfl⟩
  | @skip k t rest hp hf =>
    have hturn : Balances x (x.move x.engine.register (.turns k rest) [.turn t true]) [.turn t true] :=
      .quiet rfl rfl rfl rfl
    have hledger : (x.move x.engine.register (.turns k rest) [.turn t true]).Ledger :=
      h.quiet ⟨rfl, rfl, Nat.le_refl _, Iff.rfl⟩ rfl rfl rfl
    have hdone := hturn.trans (hledger.finish_balances t (p := .turns k rest))
    rw [move_move] at hdone
    exact ⟨_, hdone⟩
  | @finish k t rest => exact ⟨_, h.finish_balances t⟩
  | advance => exact ⟨_, .quiet rfl rfl rfl rfl⟩
  | release => exact ⟨_, .quiet rfl rfl rfl rfl⟩
  | park => exact ⟨_, .quiet (Engine.SameTasks.endTick _ _).queue rfl rfl rfl⟩

/-! ## After the launch -/

/-- The launch of a single tick is over. -/
def Late : Phase β → Prop
  | .idle => True
  | .turns k _ | .body k _ _ | .facing k .last | .boundary k .last _ | .parking k => k.looped = false
  | _ => False

theorem Late.leave {k : TickFrame} (hk : k.looped = false) : Late (.leave k : Phase β) := by
  rw [Phase.leave, hk]
  trivial

theorem Late.step (h : Late x.phase) (hs : x.Inside y) : Late y.phase := by
  obtain ⟨hidle, hs⟩ := hs
  cases hs with
  | call => exact h
  | step hp | tick hp => exact absurd hp hidle
  | again hp | leave hp | launch hp =>
    rw [hp] at h
    cases h
  | @absent k which hp | @pass k which t hp | @enter k which t hp | @settle k which t hp =>
    rw [hp] at h
    cases which with
    | first => cases h
    | last => exact h
  | start hp | skip hp | finish hp | advance hp =>
    rw [hp] at h
    exact h
  | release hp | park hp =>
    rw [hp] at h
    exact .leave h

/-- From the launch on the queue of an engine that is not stopped is accounted for. -/
theorem Sound.late_balances (h : x.Sound) (hw : x.Works y) (hl : Late x.phase) (hstops : y.stops = []) :
    ∃ ns, Balances x y ns := by
  -- `Late` is carried along since it rules out that the step is another launch.
  suffices hall : Late y.phase ∧ ∃ ns, Balances x y ns from hall.2
  induction hw with
  | refl => exact ⟨hl, [], .refl x⟩
  | @tail y z hw hs ih =>
    have hprefix : y.stops <+: z.stops := Reaches.stops (.single hs.2)
    rw [hstops, List.prefix_nil] at hprefix
    obtain ⟨hlate, ns, hns⟩ := ih hprefix
    have hlaunch : ∀ k, y.phase ≠ .launching k := by
      intro k hp
      rw [hp] at hlate
      exact hlate
    obtain ⟨ns', hns'⟩ := (h.reaches (Works.reaches hw)).ledger.step_balances hs.2 hlaunch hstops
    exact ⟨hlate.step hs, _, hns.trans hns'⟩

end Machine

end Vivarium
