import Vivarium.Proofs.Control

/-! # Tasks fade

A task is active while it is queued, or in flight and not flagged. What an operation of an engine does
keeps the books of the engine in order, and makes no existing task active that was not.
-/

namespace Vivarium

namespace Engine

variable {β : Type} {e e' : Engine β} {id : TaskId}

/-- The books of an engine: a task is held once, has had its number drawn, and is given up when the
engine stops. -/
structure Tidy (e : Engine β) : Prop where
  queue : e.queue.WellFormed
  nodup : e.held.Nodup
  lt : ∀ id ∈ e.held, id.number < e.nextTask
  emptied : e.state = .stopped → e.held = []

/-- No task moves, and no flag is taken back. -/
structure Stays (e e' : Engine β) : Prop extends SameTasks e e' where
  flagged : ∀ id, e.isFlagged id = true → e'.isFlagged id = true

/-- No existing task that is not active becomes active. -/
structure Fades (e e' : Engine β) : Prop where
  next : e.nextTask ≤ e'.nextTask
  active : ∀ id, id.number < e.nextTask → e'.isActive id = true → e.isActive id = true

theorem Fades.refl (e : Engine β) : Fades e e := ⟨Nat.le_refl _, fun _ _ h => h⟩

theorem Fades.trans {e'' : Engine β} (h : Fades e e') (h' : Fades e' e'') : Fades e e'' :=
  ⟨Nat.le_trans h.next h'.next,
    fun id hid ha => h.active id hid (h'.active id (Nat.lt_of_lt_of_le hid h.next) ha)⟩

theorem Fades.inactive (h : Fades e e') (hid : id.number < e.nextTask) (hno : e.isActive id = false) :
    e'.isActive id = false := by
  rw [Bool.eq_false_iff]
  intro ha
  rw [h.active id hid ha] at hno
  cases hno

namespace Stays

theorem refl (e : Engine β) : Stays e e := ⟨.refl e, fun _ h => h⟩

theorem barrier (b : TickBarrier) (e : Engine β) : Stays e { e with barrier := b } :=
  ⟨⟨rfl, rfl, Nat.le_refl _, Iff.rfl⟩, fun _ h => h⟩

theorem meter (m : TickMeter) (e : Engine β) : Stays e { e with meter := m } :=
  ⟨⟨rfl, rfl, Nat.le_refl _, Iff.rfl⟩, fun _ h => h⟩

theorem clock (c : Clock) (e : Engine β) : Stays e { e with clock := c } :=
  ⟨⟨rfl, rfl, Nat.le_refl _, Iff.rfl⟩, fun _ h => h⟩

theorem flag (id : TaskId) (e : Engine β) : Stays e (e.flag id) :=
  ⟨⟨rfl, rfl, Nat.le_refl _, Iff.rfl⟩, (SameControl.flag id e).flagged⟩

theorem enter {next : Lifecycle} (hn : next ≠ .stopped) (h : e.enter next = .ok e') : Stays e e' := by
  refine ⟨.enter hn h, fun _ hf => ?_⟩
  obtain ⟨-, rfl⟩ := enter_ok h
  exact hf

theorem start {drives : Bool} (h : e.start = .ok (drives, e')) : Stays e e' := by
  refine ⟨.start h, fun _ hf => ?_⟩
  obtain ⟨-, -, _, -, rfl⟩ := start_ok h
  exact hf

theorem continues {goes : Bool} (h : e.continues = (goes, e')) : Stays e e' := by
  refine ⟨.continues h, fun _ hf => ?_⟩
  cases goes with
  | true =>
    obtain ⟨-, -, rfl⟩ := continues_true h
    exact hf
  | false =>
    obtain ⟨-, rfl⟩ := continues_false h
    exact hf

theorem pause (e : Engine β) : Stays e (EngineCall.effect e .pause) := by
  refine ⟨.pause e, fun _ hf => ?_⟩
  rcases effect_pause e with heq | ⟨-, heq⟩ <;> rw [heq] <;> exact hf

theorem setBoundary (which : Boundary) (work : Option β) (e : Engine β) :
    Stays e (e.setBoundary which work) :=
  ⟨.setBoundary which work e, (SameControl.setBoundary which work e).flagged⟩

theorem settleBoundary (which : Boundary) (t : Task β) (e : Engine β) :
    Stays e (e.settleBoundary which t) :=
  ⟨.settleBoundary which t e, (SameControl.settleBoundary which t e).flagged⟩

theorem park (deadline : Nat) (e : Engine β) : Stays e (e.park deadline) := by
  refine ⟨.park deadline e, fun _ hf => ?_⟩
  rcases park_cases deadline e with ⟨-, heq⟩ | ⟨-, heq⟩ <;> rw [heq] <;> exact hf

theorem endTick (deadline : Nat) (e : Engine β) : Stays e (e.endTick deadline) :=
  ⟨.endTick deadline e, (park deadline { e with meter := e.meter.endTick }).flagged⟩

end Stays

theorem Stays.fades (h : Stays e e') : Fades e e' := by
  refine ⟨h.nextTask, fun id _ ha => ?_⟩
  rw [isActive, h.queue, h.inFlight, Bool.or_eq_true, Bool.and_eq_true, Bool.not_eq_true'] at ha
  rw [isActive, Bool.or_eq_true, Bool.and_eq_true, Bool.not_eq_true']
  refine ha.imp_right ?_
  rintro ⟨hfly, hno⟩
  refine ⟨hfly, Bool.eq_false_iff.mpr fun hf => ?_⟩
  rw [h.flagged id hf] at hno
  cases hno

/-- Tasks that are taken away, or go from the queue into flight or back without a flag. -/
theorem Fades.of_ids (h : e.queue.WellFormed) (h' : e'.queue.WellFormed)
    (hnext : e.nextTask ≤ e'.nextTask) (hflag : e'.flagged = e.flagged)
    (hqueue : ∀ id ∈ e'.queue.ids, id.number < e.nextTask → e.isActive id = true)
    (hflight : ∀ id ∈ Entries.keys e'.inFlight, id ∈ e.queue.ids ∨ id ∈ Entries.keys e.inFlight) :
    Fades e e' := by
  refine ⟨hnext, fun id hid ha => ?_⟩
  rcases (isActive_iff h').mp ha with hq | ⟨hf, hno⟩
  · exact hqueue id hq hid
  · refine (isActive_iff h).mpr ((hflight id hf).imp_right fun hf => ⟨hf, ?_⟩)
    rw [isFlagged, hflag] at hno
    exact hno

/-! ## The books of an engine -/

namespace Tidy

theorem create {config : EngineConfig} (h : Engine.create config = .ok e) : e.Tidy := by
  obtain ⟨-, rfl⟩ := create_ok h
  exact ⟨TaskQueue.wellFormed_empty, List.nodup_nil, by rintro _ ⟨⟩, fun _ => rfl⟩

theorem not_flying_of_queued (h : e.Tidy) (hid : id ∈ e.queue.ids) : id ∉ Entries.keys e.inFlight :=
  fun hfly => (List.nodup_append.mp h.nodup).2.2 id hid id hfly rfl

theorem next_not_held (h : e.Tidy) : ⟨e.nextTask⟩ ∉ e.held := fun hid => Nat.lt_irrefl _ (h.lt _ hid)

theorem next_not_queued (h : e.Tidy) : ⟨e.nextTask⟩ ∉ e.queue.ids :=
  fun hid => h.next_not_held (List.mem_append_left _ hid)

theorem live_of_held (h : e.Tidy) (hid : id ∈ e.held) : e.state ≠ .stopped := by
  intro hs
  rw [h.emptied hs] at hid
  cases hid

theorem stays (h : e.Tidy) (hs : SameTasks e e') : e'.Tidy := by
  have hheld : e'.held = e.held := by rw [held, held, hs.queue, hs.inFlight]
  refine ⟨hs.queue.symm ▸ h.queue, hheld.symm ▸ h.nodup, fun id hid => ?_, fun he => ?_⟩
  · rw [hheld] at hid
    exact Nat.lt_of_lt_of_le (h.lt id hid) hs.nextTask
  · rw [hheld]
    exact h.emptied (hs.stopped.mp he)

/-- An engine that holds no more tasks than before. -/
theorem sub (h : e.Tidy) (hq : e'.queue.WellFormed) (hheld : ∀ id, e'.held.count id ≤ e.held.count id)
    (hnext : e'.nextTask = e.nextTask) (hstate : e'.state = .stopped → e.state = .stopped) :
    e'.Tidy := by
  have hsub : ∀ id ∈ e'.held, id ∈ e.held := fun id hid =>
    List.count_pos_iff.mp (Nat.lt_of_lt_of_le (List.count_pos_iff.mpr hid) (hheld id))
  refine ⟨hq, ?_, fun id hid => ?_, fun he => ?_⟩
  · exact List.nodup_iff_count.mpr fun id =>
      Nat.le_trans (hheld id) (List.nodup_iff_count.mp h.nodup id)
  · rw [hnext]
    exact h.lt id (hsub id hid)
  · refine List.eq_nil_iff_forall_not_mem.mpr fun id hid => ?_
    have hmem := hsub id hid
    rw [h.emptied (hstate he)] at hmem
    cases hmem

theorem schedule (h : e.Tidy) {work : β} {delay period : Nat}
    (he : e.schedule work delay period = .ok (id, e')) :
    id = ⟨e.nextTask⟩ ∧ e'.nextTask = e.nextTask + 1 ∧ e'.Tidy ∧ Fades e e' ∧
      e'.isActive id = true := by
  have hs : e.state ≠ .stopped := fun hs => by
    rw [schedule_of_stopped hs] at he
    cases he
  rw [schedule_ok hs] at he
  cases he
  have hids := h.queue.ids_insert_of_not_mem (t := e.newTask work delay period) h.next_not_queued
  have hwf := h.queue.insert (e.newTask work delay period)
  have hperm : ((e.queue.insert (e.newTask work delay period)).ids ++ Entries.keys e.inFlight).Perm
      (⟨e.nextTask⟩ :: e.held) := hids.append_right _
  refine ⟨rfl, rfl, ⟨hwf, ?_, fun id hid => ?_, fun hs' => absurd hs' hs⟩, ?_, ?_⟩
  · exact hperm.nodup_iff.mpr (List.nodup_cons.mpr ⟨h.next_not_held, h.nodup⟩)
  · rcases List.mem_cons.mp (hperm.mem_iff.mp hid) with rfl | hid
    · exact Nat.lt_succ_self _
    · exact Nat.lt_succ_of_lt (h.lt id hid)
  · refine .of_ids h.queue hwf (Nat.le_succ _) rfl (fun id hid hlt => ?_) fun _ => Or.inr
    rcases List.mem_cons.mp (hids.mem_iff.mp hid) with rfl | hid
    · exact absurd hlt (Nat.lt_irrefl _)
    · exact (isActive_iff h.queue).mpr (Or.inl hid)
  · exact (isActive_iff hwf).mpr (Or.inl (hids.mem_iff.mpr List.mem_cons_self))

theorem cancel (h : e.Tidy) (id : TaskId) :
    (e.cancel id).2.Tidy ∧ Fades e (e.cancel id).2 ∧ (e.cancel id).2.isActive id = false := by
  by_cases hid : id ∈ e.queue.ids
  · have hwf := h.queue.remove id
    have hids := h.queue.ids_remove id
    rw [cancel_queued h.queue hid]
    refine ⟨h.sub hwf (fun id => ?_) rfl fun hs => hs, ?_, ?_⟩
    · simp only [held, hids]
      exact (List.filter_sublist.append_right _).count_le id
    · refine .of_ids h.queue hwf (Nat.le_refl _) rfl (fun id' hid' _ => ?_) fun _ => Or.inr
      rw [hids] at hid'
      exact (isActive_iff h.queue).mpr (Or.inl (List.mem_filter.mp hid').1)
    · rw [Bool.eq_false_iff, ne_eq, isActive_iff hwf]
      rintro (hq | ⟨hf, -⟩)
      · rw [hids] at hq
        exact of_decide_eq_true (List.mem_filter.mp hq).2 rfl
      · exact h.not_flying_of_queued hid hf
  · have hsame := SameTasks.cancel h.queue hid
    refine ⟨h.stays hsame, (Stays.mk hsame (SameControl.cancel id e).flagged).fades, ?_⟩
    rw [cancel_not_queued h.queue hid]
    split
    · rw [Bool.eq_false_iff, ne_eq, isActive_iff (e := e.flag id) h.queue]
      rintro (hq | ⟨-, hno⟩)
      · exact hid hq
      · rw [isFlagged_flag.mpr (Or.inr rfl)] at hno
        cases hno
    · next hno =>
      rw [Bool.eq_false_iff, ne_eq, isActive_iff h.queue]
      rintro (hq | ⟨hf, hflag⟩)
      · exact hid hq
      · exact hno (by rw [Entries.has_iff_mem.mpr hf, hflag]; rfl)

theorem stop (h : e.Tidy) : e.stop.2.Tidy ∧ Fades e e.stop.2 := by
  by_cases hs : e.state = .stopped
  · rw [stop_of_stopped hs]
    have hsame : SameTasks e { e with running := false } := ⟨rfl, rfl, Nat.le_refl _, Iff.rfl⟩
    exact ⟨h.stays hsame, Nat.le_refl _, fun _ _ ha => ha⟩
  · rw [(stop_of_live hs).2]
    have hwf := TaskQueue.wellFormed_drain e.queue
    refine ⟨⟨hwf, List.nodup_nil, by rintro _ ⟨⟩, fun _ => rfl⟩, Nat.le_refl _, fun id _ ha => ?_⟩
    rcases (isActive_iff hwf).mp ha with hid | ⟨hid, -⟩ <;> cases hid

theorem launch (h : e.Tidy) (bound : Nat) :
    (e.launch bound).2.Tidy ∧ Fades e (e.launch bound).2 := by
  obtain ⟨-, heq⟩ := launch_eq h.queue h.nodup bound
  obtain ⟨-, hlist, hwf⟩ := h.queue.popAllDue bound
  have hids : ∀ {p : Task β → Bool} {id}, id ∈ (e.queue.toList.filter p).map (·.id) → id ∈ e.queue.ids := by
    intro p id hid
    obtain ⟨t, ht, rfl⟩ := List.mem_map.mp hid
    exact List.mem_map.mpr ⟨t, (List.mem_filter.mp ht).1, rfl⟩
  have hkeys : Entries.keys (e.inFlight ++ (e.queue.toList.filter (·.due < bound)).map fun t => (t.id, t)) =
      Entries.keys e.inFlight ++ (e.queue.toList.filter (·.due < bound)).map (·.id) := by
    rw [Entries.keys, List.map_append, List.map_map]
    rfl
  rw [heq]
  constructor
  · refine h.sub hwf (fun id => ?_) rfl fun hs => hs
    have hc := ((List.filter_append_perm (·.due < bound) e.queue.toList).map (·.id)).count_eq id
    simp only [held, hkeys, TaskQueue.ids, hlist, List.map_append, List.count_append, ← decide_not] at hc ⊢
    omega
  · refine .of_ids h.queue hwf (Nat.le_refl _) rfl (fun id hid _ => ?_) fun id hid => ?_
    · rw [TaskQueue.ids, hlist] at hid
      exact (isActive_iff h.queue).mpr (Or.inl (hids hid))
    · change id ∈ Entries.keys (_ ++ _) at hid
      rw [hkeys] at hid
      exact (List.mem_append.mp hid).symm.imp_left hids

/-- A task that is in flight goes back into the queue. -/
theorem putBack (h : e.Tidy) {t : Task β} (due : Nat) (hfly : t.id ∈ Entries.keys e.inFlight)
    (hno : e.isFlagged t.id = false) :
    Tidy { e with inFlight := Entries.erase t.id e.inFlight, queue := e.queue.insert { t with due } } ∧
      Fades e { e with
        inFlight := Entries.erase t.id e.inFlight, queue := e.queue.insert { t with due } } := by
  have hwf := h.queue.insert { t with due }
  have hnot : t.id ∉ e.queue.ids := fun hq => h.not_flying_of_queued hq hfly
  have hids := h.queue.ids_insert_of_not_mem (t := { t with due }) hnot
  constructor
  -- It is held as often as before: what the flight loses the queue gets.
  · refine h.sub hwf (fun id => ?_) rfl fun hs => hs
    have hc := hids.count_eq id
    have hpos := List.count_pos_iff.mpr hfly
    simp only [held, List.count_append, Entries.keys_erase, Distinct.count_remove, List.count_cons,
      beq_iff_eq, eq_comm (a := t.id)] at hc ⊢
    split at hc
    · next heq =>
      subst heq
      simp only [if_true]
      omega
    · next hne =>
      simp only [if_neg hne]
      omega
  · refine .of_ids h.queue hwf (Nat.le_refl _) rfl (fun id hid _ => ?_) fun id hid => Or.inr ?_
    · rcases List.mem_cons.mp (hids.mem_iff.mp hid) with rfl | hid
      · exact (isActive_iff h.queue).mpr (Or.inr ⟨hfly, hno⟩)
      · exact (isActive_iff h.queue).mpr (Or.inl hid)
    · rw [Entries.keys_erase] at hid
      exact (List.mem_filter.mp hid).1

theorem land (h : e.Tidy) (id : TaskId) :
    Tidy { e with inFlight := Entries.erase id e.inFlight } ∧
      Fades e { e with inFlight := Entries.erase id e.inFlight } := by
  have hleaves : (Entries.keys (Entries.erase id e.inFlight)).Sublist (Entries.keys e.inFlight) := by
    rw [Entries.keys_erase]
    exact List.filter_sublist
  constructor
  · refine h.sub h.queue (fun id => ?_) rfl fun hs => hs
    exact (hleaves.append_left _).count_le id
  · refine .of_ids h.queue h.queue (Nat.le_refl _) rfl (fun id hid _ => ?_) fun id hid => ?_
    · exact (isActive_iff h.queue).mpr (Or.inl hid)
    · exact Or.inr (hleaves.subset hid)

theorem complete (h : e.Tidy) (t : Task β) : (e.complete t).Tidy ∧ Fades e (e.complete t) := by
  by_cases hfly : t.id ∈ Entries.keys e.inFlight
  · rw [complete_flying hfly (h.live_of_held (List.mem_append_right _ hfly))]
    split
    · next hback =>
      rw [Bool.and_eq_true, Bool.not_eq_true'] at hback
      exact h.putBack _ hfly hback.2
    · exact h.land t.id
  · rw [complete_not_flying hfly]
    exact ⟨h, .refl e⟩

end Tidy

theorem cancelAll_cons (id : TaskId) (ids : List TaskId) (e : Engine β) :
    (e.cancelAll (id :: ids)).2 = ((e.cancel id).2.cancelAll ids).2 := by
  have hcount : ∀ (ids : List TaskId) (n n' : Nat) (e : Engine β),
      (ids.foldl (fun p id => (if (p.2.cancel id).1 then p.1 + 1 else p.1, (p.2.cancel id).2)) (n, e)).2 =
        (ids.foldl (fun p id => (if (p.2.cancel id).1 then p.1 + 1 else p.1, (p.2.cancel id).2))
          (n', e)).2 := by
    intro ids
    induction ids with
    | nil => exact fun _ _ _ => rfl
    | cons id ids ih => exact fun _ _ e => ih _ _ (e.cancel id).2
  exact hcount ids _ 0 (e.cancel id).2

namespace Tidy

/-- The tasks that are cancelled one after the other are all inactive in the end. -/
theorem cancelAll (h : e.Tidy) (ids : List TaskId) :
    (e.cancelAll ids).2.Tidy ∧ Fades e (e.cancelAll ids).2 ∧
      ∀ id ∈ ids, id.number < e.nextTask → (e.cancelAll ids).2.isActive id = false := by
  induction ids generalizing e with
  | nil => exact ⟨h, .refl e, by rintro _ ⟨⟩⟩
  | cons id ids ih =>
    obtain ⟨htidy, hfades, hno⟩ := h.cancel id
    obtain ⟨htidy', hfades', hnone⟩ := ih htidy
    rw [cancelAll_cons]
    refine ⟨htidy', hfades.trans hfades', fun id' hid' hlt => ?_⟩
    rcases List.mem_cons.mp hid' with rfl | hid'
    · exact hfades'.inactive (Nat.lt_of_lt_of_le hlt hfades.next) hno
    · exact hnone id' hid' (Nat.lt_of_lt_of_le hlt hfades.next)

end Tidy

/-! ## The other tasks -/

/-- What cancelling a task does to all else. -/
structure Spares (id : TaskId) (e e' : Engine β) : Prop where
  rest : e' = { e with queue := e'.queue, flagged := e'.flagged }
  /-- The others keep their order and the times at which they are due. -/
  queue : e'.queue.toList = e.queue.toList.filter (·.id ≠ id)
  slot : ∀ id', id' ≠ id → Entries.get? id' e'.queue.index = Entries.get? id' e.queue.index
  flag : ∀ id', id' ≠ id → e'.isFlagged id' = e.isFlagged id'
  status : ∀ id', id' ≠ id → e'.status? id' = e.status? id'

theorem cancel_spares (h : e.queue.WellFormed) (id : TaskId) : Spares id e (e.cancel id).2 := by
  by_cases hid : id ∈ e.queue.ids
  · obtain ⟨t, -, -, htake⟩ := h.take_of_mem hid
    have hget : ∀ id', id' ≠ id → (e.queue.remove id).2.get? id' = e.queue.get? id' := by
      intro id' hne
      refine Option.ext fun u => ?_
      rw [(h.remove id).get?_iff, h.get?_iff, h.toList_remove, List.mem_filter, decide_eq_true_eq]
      exact ⟨fun hu => ⟨hu.1.1, hu.2⟩, fun hu => ⟨⟨hu.1, fun he => hne (hu.2.symm.trans he)⟩, hu.2⟩⟩
    rw [cancel_queued h hid]
    refine ⟨rfl, h.toList_remove id, fun id' hne => ?_, fun _ _ => rfl, fun id' hne => ?_⟩
    · change Entries.get? id' (e.queue.take id).2.index = _
      rw [htake]
      exact Entries.get?_erase_of_ne (fun he => hne he.symm) _
    · simp only [status?, hget id' hne]
      rfl
  · have hall : e.queue.toList = e.queue.toList.filter (·.id ≠ id) := by
      refine (List.filter_eq_self.mpr fun u hu => decide_eq_true fun (he : u.id = id) => hid ?_).symm
      exact he ▸ List.mem_map.mpr ⟨u, hu, rfl⟩
    rw [cancel_not_queued h hid]
    split
    · have hflag : ∀ id', id' ≠ id → (e.flag id).isFlagged id' = e.isFlagged id' := by
        intro id' hne
        rw [Bool.eq_iff_iff, isFlagged_flag]
        exact ⟨fun hf => hf.resolve_right hne, Or.inl⟩
      refine ⟨rfl, hall, fun _ _ => rfl, hflag, fun id' hne => ?_⟩
      simp only [status?, hflag id' hne]
      rfl
    · exact ⟨rfl, hall, fun _ _ => rfl, fun _ _ => rfl, fun _ _ => rfl⟩

/-- Tasks are taken from the queue or flagged, but none of those that are kept. -/
structure Leaves (kept : TaskId → Prop) (e e' : Engine β) : Prop where
  rest : e' = { e with queue := e'.queue, flagged := e'.flagged }
  queue : e'.queue.toList.Sublist e.queue.toList
  slot : ∀ id, kept id → Entries.get? id e'.queue.index = Entries.get? id e.queue.index
  status : ∀ id, kept id → e'.status? id = e.status? id
  active : ∀ id, kept id → e'.isActive id = e.isActive id

namespace Leaves

variable {kept : TaskId → Prop} {e'' : Engine β}

theorem refl (e : Engine β) : Leaves kept e e :=
  ⟨rfl, List.Sublist.refl _, fun _ _ => rfl, fun _ _ => rfl, fun _ _ => rfl⟩

theorem trans (h : Leaves kept e e') (h' : Leaves kept e' e'') : Leaves kept e e'' := by
  refine ⟨?_, h'.queue.trans h.queue, fun id hid => (h'.slot id hid).trans (h.slot id hid),
    fun id hid => (h'.status id hid).trans (h.status id hid),
    fun id hid => (h'.active id hid).trans (h.active id hid)⟩
  have hrest := h'.rest
  rw [h.rest] at hrest
  exact hrest

end Leaves

theorem Spares.active {id id' : TaskId} (h : Spares id e e') (hne : id' ≠ id) :
    e'.isActive id' = e.isActive id' := by
  have hfly : e'.inFlight = e.inFlight := congrArg (·.inFlight) h.rest
  unfold isActive TaskQueue.contains Entries.has
  rw [h.slot id' hne, h.flag id' hne, hfly]

theorem cancelAll_leaves (h : e.Tidy) {kept : TaskId → Prop} (ids : List TaskId)
    (hids : ∀ id ∈ ids, ¬kept id) : Leaves kept e (e.cancelAll ids).2 := by
  induction ids generalizing e with
  | nil => exact .refl e
  | cons id ids ih =>
    obtain ⟨hid, hids⟩ := List.forall_mem_cons.mp hids
    have hspares := cancel_spares h.queue id
    have hne : ∀ id', kept id' → id' ≠ id := fun id' hkept heq => hid (heq ▸ hkept)
    rw [cancelAll_cons]
    refine Leaves.trans ⟨hspares.rest, hspares.queue ▸ List.filter_sublist, ?_, ?_, ?_⟩
      (ih (h.cancel id).1 hids)
    · exact fun id' hkept => hspares.slot id' (hne id' hkept)
    · exact fun id' hkept => hspares.status id' (hne id' hkept)
    · exact fun id' hkept => hspares.active (hne id' hkept)

end Engine

end Vivarium
