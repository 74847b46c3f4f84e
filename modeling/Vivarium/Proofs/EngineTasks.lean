import Vivarium.Proofs.Machine

/-! # What the operations of an engine do to its tasks

One statement for each operation: which tasks it queues, launches, lets go or flags, and that it
leaves all else as it is. An operation that moves no task keeps `SameTasks`.
-/

namespace Vivarium

namespace Engine

variable {β : Type} {e e' : Engine β}

/-- The tasks that wait or are in flight. -/
def held (e : Engine β) : List TaskId := e.queue.ids ++ Entries.keys e.inFlight

theorem isFlagged_iff {id : TaskId} : e.isFlagged id = true ↔ id ∈ e.flagged := List.contains_iff_mem

theorem isFlagged_flag {id id' : TaskId} :
    (e.flag id).isFlagged id' = true ↔ e.isFlagged id' = true ∨ id' = id := by
  rw [isFlagged_iff, isFlagged_iff]
  exact Distinct.mem_add

theorem create_ok {config : EngineConfig} (h : Engine.create config = .ok e) :
    config.validate = .ok () ∧ e = { config, meter := { ticksPerSecond := config.ticksPerSecond } } := by
  unfold create at h
  cases hv : config.validate with
  | error error =>
    rw [hv] at h
    cases h
  | ok _ =>
    rw [hv] at h
    cases h
    exact ⟨rfl, rfl⟩

/-! ## Operations that move no task -/

structure SameTasks (e e' : Engine β) : Prop where
  queue : e'.queue = e.queue
  inFlight : e'.inFlight = e.inFlight
  nextTask : e.nextTask ≤ e'.nextTask
  stopped : e'.state = .stopped ↔ e.state = .stopped

theorem SameTasks.refl (e : Engine β) : SameTasks e e := ⟨rfl, rfl, Nat.le_refl _, Iff.rfl⟩

theorem enter_ok {next : Lifecycle} (h : e.enter next = .ok e') :
    e.state ≠ .stopped ∧ e' = { e with state := next } := by
  unfold enter at h
  split at h
  · cases h
  · next hs =>
    split at h
    · cases h
      exact ⟨hs, rfl⟩
    · cases h

theorem enter_of_stopped {next : Lifecycle} (h : e.state = .stopped) :
    e.enter next = .error .shutdown := if_pos h

/-- An engine that is not stopped can always begin a tick. -/
theorem enter_ticking (h : e.state ≠ .stopped) :
    e.enter .ticking = .ok { e with state := .ticking } := by
  have hcan : e.state.canBecome .ticking = true := by
    cases hs : e.state <;> first | rfl | exact absurd hs h
  rw [enter, if_neg h, if_pos hcan]

theorem start_of_stopped (h : e.state = .stopped) : e.start = .error .shutdown := if_pos h

theorem start_of_live (h : e.state ≠ .stopped) : e.start = .ok (!e.loopAlive, { e with
    state := if e.state.isRunning then e.state else .ticking
    running := true
    loopAlive := true }) := by
  unfold start
  rw [if_neg h]
  by_cases hr : e.state.isRunning = true
  · simp only [if_pos hr]
    change (if e.loopAlive then _ else _) = _
    split <;> simp [*]
  · simp only [if_neg hr, enter_ticking h]
    change (if e.loopAlive then _ else _) = _
    split <;> simp [*]

/-- What starting the loop leads to: the engine is live, in a tick or waiting, and asked to run. -/
theorem start_ok {drives : Bool} (h : e.start = .ok (drives, e')) :
    e.state ≠ .stopped ∧ drives = !e.loopAlive ∧
      ∃ state : Lifecycle, state.isRunning = true ∧
        e' = { e with state, running := true, loopAlive := true } := by
  have hs : e.state ≠ .stopped := by
    intro hs
    rw [start_of_stopped hs] at h
    cases h
  rw [start_of_live hs] at h
  cases h
  refine ⟨hs, rfl, _, ?_, rfl⟩
  split
  · assumption
  · rfl

theorem continues_true (h : e.continues = (true, e')) :
    e.running = true ∧ e.state.isRunning = true ∧ e' = { e with state := .ticking } := by
  unfold continues at h
  split at h
  · next hr =>
    cases h
    exact ⟨hr.1, hr.2, rfl⟩
  · cases h

theorem continues_false (h : e.continues = (false, e')) :
    ¬(e.running = true ∧ e.state.isRunning = true) ∧ e' = { e with loopAlive := false } := by
  unfold continues at h
  split at h
  · cases h
  · next hr =>
    cases h
    exact ⟨hr, rfl⟩

theorem pause_ok (h : e.pause = .ok e') :
    e.state ≠ .stopped ∧
      (e.state = .paused ∧ e' = e ∨ e' = { e with state := .paused, running := false }) := by
  unfold pause at h
  split at h
  · next hp =>
    cases h
    exact ⟨by rw [hp]; decide, Or.inl ⟨hp, rfl⟩⟩
  · cases hn : e.enter .paused with
    | error error =>
      rw [hn] at h
      cases h
    | ok e₁ =>
      rw [hn] at h
      cases h
      obtain ⟨hs, rfl⟩ := enter_ok hn
      exact ⟨hs, Or.inr rfl⟩

theorem pause_of_stopped (h : e.state = .stopped) : e.pause = .error .shutdown := by
  have hne : ¬e.state = .paused := by rw [h]; decide
  unfold pause
  rw [if_neg hne, enter_of_stopped h]
  rfl

theorem SameTasks.enter {next : Lifecycle} (hn : next ≠ .stopped) (h : e.enter next = .ok e') :
    SameTasks e e' := by
  obtain ⟨hs, rfl⟩ := enter_ok h
  exact ⟨rfl, rfl, Nat.le_refl _, iff_of_false hn hs⟩

theorem SameTasks.start {drives : Bool} (h : e.start = .ok (drives, e')) : SameTasks e e' := by
  obtain ⟨hs, -, state, hr, rfl⟩ := start_ok h
  refine ⟨rfl, rfl, Nat.le_refl _, iff_of_false (fun he : state = .stopped => ?_) hs⟩
  rw [he] at hr
  cases hr

theorem SameTasks.continues {goes : Bool} (h : e.continues = (goes, e')) : SameTasks e e' := by
  cases goes with
  | true =>
    obtain ⟨-, hr, rfl⟩ := continues_true h
    refine ⟨rfl, rfl, Nat.le_refl _, iff_of_false (by rintro ⟨⟩) fun hs => ?_⟩
    rw [hs] at hr
    cases hr
  | false =>
    obtain ⟨-, rfl⟩ := continues_false h
    exact ⟨rfl, rfl, Nat.le_refl _, Iff.rfl⟩

/-- A pause that is refused, or that finds the engine paused, leaves it as it is. -/
theorem effect_pause (e : Engine β) : EngineCall.effect e .pause = e ∨
    e.state ≠ .stopped ∧
      EngineCall.effect e .pause = { e with state := .paused, running := false } := by
  simp only [EngineCall.effect]
  split
  · next e' he =>
    obtain ⟨hs, ⟨-, rfl⟩ | rfl⟩ := pause_ok he
    · exact Or.inl rfl
    · exact Or.inr ⟨hs, rfl⟩
  · exact Or.inl rfl

theorem SameTasks.pause (e : Engine β) : SameTasks e (EngineCall.effect e .pause) := by
  rcases effect_pause e with heq | ⟨hs, heq⟩ <;> rw [heq]
  · exact .refl _
  · exact ⟨rfl, rfl, Nat.le_refl _, iff_of_false (by rintro ⟨⟩) hs⟩

theorem SameTasks.putBoundary (which : Boundary) (t : Option (Task β)) (e : Engine β) :
    SameTasks e (e.putBoundary which t) := by
  cases which <;> exact ⟨rfl, rfl, Nat.le_refl _, Iff.rfl⟩

theorem SameTasks.setBoundary (which : Boundary) (work : Option β) (e : Engine β) :
    SameTasks e (e.setBoundary which work) := by
  cases which <;> cases work <;>
    exact ⟨rfl, rfl, by simp [Engine.setBoundary, Engine.putBoundary], Iff.rfl⟩

theorem SameTasks.settleBoundary (which : Boundary) (t : Task β) (e : Engine β) :
    SameTasks e (e.settleBoundary which t) := by
  unfold Engine.settleBoundary
  split
  · exact .putBoundary which none e
  · exact .refl e

theorem park_cases (deadline : Nat) (e : Engine β) :
    e.state.isRunning = true ∧
        e.park deadline = { e with state := .waiting, clock := e.clock.parkUntil deadline } ∨
      e.state.isRunning = false ∧ e.park deadline = e := by
  unfold park enterIfRunning
  cases hr : e.state.isRunning with
  | true => exact Or.inl ⟨rfl, rfl⟩
  | false => exact Or.inr ⟨rfl, rfl⟩

theorem SameTasks.park (deadline : Nat) (e : Engine β) : SameTasks e (e.park deadline) := by
  rcases park_cases deadline e with ⟨hr, heq⟩ | ⟨-, heq⟩ <;> rw [heq]
  · refine ⟨rfl, rfl, Nat.le_refl _, iff_of_false (by rintro ⟨⟩) fun hs => ?_⟩
    rw [hs] at hr
    cases hr
  · exact .refl e

theorem SameTasks.endTick (deadline : Nat) (e : Engine β) : SameTasks e (e.endTick deadline) :=
  have h := SameTasks.park deadline { e with meter := e.meter.endTick }
  ⟨h.queue, h.inFlight, h.nextTask, h.stopped⟩

/-! ## Scheduling and cancelling -/

theorem schedule_ok {work : β} {delay period : Nat} (h : e.state ≠ .stopped) :
    e.schedule work delay period = .ok (⟨e.nextTask⟩, { e with
      queue := e.queue.insert (e.newTask work delay period)
      nextTask := e.nextTask + 1 }) := if_neg h

theorem schedule_of_stopped {work : β} {delay period : Nat} (h : e.state = .stopped) :
    e.schedule work delay period = .error .shutdown := if_pos h

theorem cancel_queued (h : e.queue.WellFormed) {id : TaskId} (hid : id ∈ e.queue.ids) :
    e.cancel id = (true, { e with queue := (e.queue.remove id).2 }) := by
  have hr : (e.queue.remove id).1 = true := (h.remove_fst id).trans (h.contains_iff.mpr hid)
  unfold cancel
  rw [show e.queue.remove id = (true, (e.queue.remove id).2) from Prod.ext hr rfl]
  rfl

theorem cancel_not_queued (h : e.queue.WellFormed) {id : TaskId} (hid : id ∉ e.queue.ids) :
    e.cancel id =
      if Entries.has id e.inFlight && !e.isFlagged id then (true, e.flag id) else (false, e) := by
  have hr : (e.queue.remove id).1 = false := by
    rw [h.remove_fst, h.contains_of_not_mem hid]
  unfold cancel
  rw [show e.queue.remove id = (false, (e.queue.remove id).2) from Prod.ext hr rfl]
  rfl

/-- A call to cancel answers whether the task was active. -/
theorem cancel_fst (h : e.queue.WellFormed) (id : TaskId) : (e.cancel id).1 = e.isActive id := by
  by_cases hid : id ∈ e.queue.ids
  · rw [cancel_queued h hid, isActive, h.contains_iff.mpr hid]
    rfl
  · rw [cancel_not_queued h hid, isActive, h.contains_of_not_mem hid, Bool.false_or]
    cases Entries.has id e.inFlight && !e.isFlagged id <;> rfl

theorem SameTasks.cancel (h : e.queue.WellFormed) {id : TaskId} (hid : id ∉ e.queue.ids) :
    SameTasks e (e.cancel id).2 := by
  rw [cancel_not_queued h hid]
  split <;> exact ⟨rfl, rfl, Nat.le_refl _, Iff.rfl⟩

theorem isActive_iff (h : e.queue.WellFormed) {id : TaskId} :
    e.isActive id = true ↔
      id ∈ e.queue.ids ∨ id ∈ Entries.keys e.inFlight ∧ e.isFlagged id = false := by
  rw [isActive, Bool.or_eq_true, h.contains_iff, Bool.and_eq_true, Entries.has_iff_mem,
    Bool.not_eq_true']

/-! ## Stopping -/

theorem stop_of_stopped (h : e.state = .stopped) : e.stop = ([], { e with running := false }) :=
  if_pos h

theorem stop_of_live (h : e.state ≠ .stopped) :
    e.stop.1.map (·.id) = e.held ∧ e.stop.2 = { e with
      state := .stopped
      running := false
      queue := e.queue.drain.2
      inFlight := []
      flagged := Distinct.addAll (Entries.keys e.inFlight) e.flagged
      barrier := e.barrier.terminate } := by
  unfold stop
  rw [if_neg h]
  refine ⟨?_, rfl⟩
  simp [held, TaskQueue.ids, TaskQueue.drain, Function.comp_def]

/-! ## Launching -/

theorem foldl_put {ts : List (Task β)} {f : List (TaskId × Task β)}
    (hts : (ts.map (·.id)).Nodup) (hf : ∀ t ∈ ts, t.id ∉ Entries.keys f) :
    ts.foldl (fun f t => Entries.put t.id t f) f = f ++ ts.map fun t => (t.id, t) := by
  induction ts generalizing f with
  | nil => exact (List.append_nil f).symm
  | cons t ts ih =>
    obtain ⟨ht, hts⟩ := List.nodup_cons.mp hts
    obtain ⟨htf, hf⟩ := List.forall_mem_cons.mp hf
    rw [List.foldl_cons, Entries.put_of_not_mem htf, ih hts, List.append_assoc]
    · rfl
    · intro u hu
      rw [Entries.keys, List.map_append, List.mem_append]
      rintro (hmem | hmem)
      · exact hf u hu hmem
      · rw [List.map_singleton, List.mem_singleton] at hmem
        exact ht (List.mem_map.mpr ⟨u, hu, hmem⟩)

/-- Launching takes exactly the tasks that are due out of the queue and into flight. -/
theorem launch_eq (h : e.queue.WellFormed) (hd : e.held.Nodup) (bound : Nat) :
    (e.launch bound).1 = e.queue.toList.filter (·.due < bound) ∧
      (e.launch bound).2 = { e with
        queue := (e.queue.popAllDue bound).2
        inFlight := e.inFlight ++ (e.queue.toList.filter (·.due < bound)).map fun t => (t.id, t) } := by
  obtain ⟨hdue, -, -⟩ := h.popAllDue bound
  refine ⟨hdue, ?_⟩
  have hsub : ∀ t ∈ e.queue.toList.filter (·.due < bound), t.id ∈ e.queue.ids :=
    fun t ht => List.mem_map.mpr ⟨t, (List.mem_filter.mp ht).1, rfl⟩
  obtain ⟨hq, -, hdisj⟩ := List.nodup_append.mp hd
  rw [← foldl_put (List.Nodup.sublist (List.Sublist.map _ List.filter_sublist) hq)
    fun t ht hmem => hdisj _ (hsub t ht) _ hmem rfl, ← hdue]
  rfl

/-- An engine without tasks has nothing to launch. -/
theorem launch_of_held (h : e.held = []) (bound : Nat) : e.launch bound = ([], e) := by
  have horder : e.queue.order = [] := by
    have hids := (List.append_eq_nil_iff.mp h).1
    rwa [TaskQueue.ids, TaskQueue.toList, List.map_map, List.map_eq_nil_iff] at hids
  have hpop : e.queue.popAllDue bound = ([], e.queue) := by
    rw [TaskQueue.popAllDue]
    split
    · rfl
    · next t q heq =>
      rw [TaskQueue.popDue, horder] at heq
      cases heq
  unfold launch
  rw [hpop]
  rfl

/-! ## Completing -/

theorem complete_eq (t : Task β) (e : Engine β) : e.complete t = { e with
    inFlight := Entries.erase t.id e.inFlight
    queue := if Entries.has t.id e.inFlight = true ∧ t.isPeriodic = true ∧ ¬e.isFlagged t.id = true ∧
        e.state ≠ .stopped then
        e.queue.insert { t with due := Duration.after e.now t.period }
      else e.queue } := by
  by_cases hfly : Entries.has t.id e.inFlight = true
  · simp only [complete, isFlagged, now, hfly, if_true, true_and]
    split
    · next h => exact if_pos h
    · next h => exact if_neg h
  · rw [complete, if_neg hfly, if_neg fun h => hfly h.1,
      Entries.erase_of_not_mem fun h => hfly (Entries.has_iff_mem.mpr h)]

theorem complete_not_flying {t : Task β} (h : t.id ∉ Entries.keys e.inFlight) : e.complete t = e := by
  rw [← Entries.has_iff_mem] at h
  exact if_neg h

/-- The turn of a task that is flying ends: a periodic task that is not flagged is queued again. -/
theorem complete_flying {t : Task β} (h : t.id ∈ Entries.keys e.inFlight) (hs : e.state ≠ .stopped) :
    e.complete t = { e with
      inFlight := Entries.erase t.id e.inFlight
      queue := if t.isPeriodic && !e.isFlagged t.id then
          e.queue.insert { t with due := Duration.after e.now t.period }
        else e.queue } := by
  simp only [complete_eq, Entries.has_iff_mem.mpr h, hs, true_and, ne_eq, not_false_eq_true, and_true,
    Bool.and_eq_true, Bool.not_eq_true, Bool.not_eq_true']

/-! ## The clock -/

theorem clock_finish (t : Task β) (e : Engine β) : (e.finish t).clock = e.clock := by
  rw [finish, complete_eq]

theorem clock_settleBoundary (which : Boundary) (t : Task β) (e : Engine β) :
    (e.settleBoundary which t).clock = e.clock := by
  unfold settleBoundary
  split
  · cases which <;> rfl
  · rfl

end Engine

namespace EngineCall

variable {β : Type}

/-- The call leaves the clock alone. -/
def isStill : EngineCall β → Bool
  | .setClock _ => false
  | _ => true

theorem clock_effect {c : EngineCall β} (h : c.isStill = true) (e : Engine β) :
    (c.effect e).clock = e.clock := by
  cases c with
  | schedule work delay period =>
    by_cases hs : e.state = .stopped
    · simp only [effect, Engine.schedule_of_stopped hs]
    · simp only [effect, Engine.schedule_ok hs]
  | cancel id =>
    simp only [effect, Engine.cancel]
    split
    · rfl
    · split <;> rfl
  | flag id => rfl
  | pause => rcases Engine.effect_pause e with heq | ⟨-, heq⟩ <;> rw [heq]
  | stop =>
    by_cases hs : e.state = .stopped
    · simp only [effect, Engine.stop_of_stopped hs]
    · simp only [effect, (Engine.stop_of_live hs).2]
  | setBoundary which work => cases which <;> cases work <;> rfl
  | setClock clock => cases h

end EngineCall

end Vivarium
