import Vivarium.Proofs.Ledger

/-! # Where the thread stands

The place of the thread in a tick and what the engine holds agree: the tasks in flight are those whose
turns are to come, the barrier waits for the one that has its turn, and the loop is alive as long as
the thread is in it. After a stop the turns that are to come are those of flagged tasks.
-/

namespace Vivarium

namespace Phase

variable {β : Type} (k : TickFrame)

@[simp] theorem pending_past (which : Boundary) : (past k which : Phase β).pending = [] := by
  cases which <;> rfl

@[simp] theorem looped_past (which : Boundary) : (past k which : Phase β).looped = k.looped := by
  cases which <;> rfl

@[simp] theorem parties_past (which : Boundary) : (past k which : Phase β).parties = 0 := by
  cases which <;> rfl

theorem past_ne_facing (which : Boundary) (k' : TickFrame) (which' : Boundary) :
    (past k which : Phase β) ≠ facing k' which' := by
  cases which <;> rintro ⟨⟩

theorem leave_cases : (leave k : Phase β) = between ∧ k.looped = true ∨
    (leave k : Phase β) = idle ∧ k.looped = false := by
  unfold leave
  cases k.looped with
  | true => exact Or.inl ⟨rfl, rfl⟩
  | false => exact Or.inr ⟨rfl, rfl⟩

@[simp] theorem pending_leave : (leave k : Phase β).pending = [] := by
  rcases leave_cases (β := β) k with ⟨h, -⟩ | ⟨h, -⟩ <;> rw [h] <;> rfl

@[simp] theorem looped_leave : (leave k : Phase β).looped = k.looped := by
  rcases leave_cases (β := β) k with ⟨h, hk⟩ | ⟨h, hk⟩ <;> rw [h, hk] <;> rfl

@[simp] theorem parties_leave : (leave k : Phase β).parties = 0 := by
  rcases leave_cases (β := β) k with ⟨h, -⟩ | ⟨h, -⟩ <;> rw [h] <;> rfl

theorem leave_ne_facing (k' : TickFrame) (which : Boundary) : (leave k : Phase β) ≠ facing k' which := by
  rcases leave_cases (β := β) k with ⟨h, -⟩ | ⟨h, -⟩ <;> rw [h] <;> rintro ⟨⟩

end Phase

namespace TickBarrier

theorem await?_true {b b' : TickBarrier} (h : b.await? = some (true, b')) :
    b.terminated = false ∧
      b' = { b with generation := b.generation + 1, registered := 0, arrived := 0 } := by
  unfold await? pass at h
  cases ht : b.terminated <;> cases hb : b.blocks <;> simp_all

theorem await?_false {b b' : TickBarrier} (h : b.await? = some (false, b')) :
    b.terminated = true ∧ b' = b := by
  unfold await? pass at h
  cases ht : b.terminated <;> cases hb : b.blocks <;> simp_all

/-- Whoever passes the barrier has found every party there. -/
theorem complete_of_await? {b b' : TickBarrier} (h : b.await? = some (true, b')) :
    b.registered ≤ b.arrived := by
  have hterm := (await?_true h).1
  unfold await? at h
  split at h
  · cases h
  · next hblocks =>
    refine Nat.le_of_not_lt fun hlt => hblocks ?_
    simp [blocks, hlt, hterm]

theorem await?_of_terminated {b : TickBarrier} (h : b.terminated = true) :
    b.await? = some (false, b) := by
  simp [await?, blocks, pass, h]

/-- A barrier that no party is missing from never holds anybody up. -/
theorem await?_of_complete {b : TickBarrier} (h : b.registered = b.arrived) :
    b.await? = some b.pass := by
  have hb : b.blocks = false := by simp [blocks, h]
  rw [await?, hb]
  rfl

end TickBarrier

/-- What ties the place of the thread to an engine is the same. -/
structure Engine.SameControl {β : Type} (e e' : Engine β) : Prop where
  state : e'.state = e.state
  inFlight : e'.inFlight = e.inFlight
  barrier : e'.barrier = e.barrier
  running : e'.running = e.running
  loopAlive : e'.loopAlive = e.loopAlive
  flagged : ∀ id, e.isFlagged id = true → e'.isFlagged id = true

namespace Engine.SameControl

variable {β : Type}

theorem refl (e : Engine β) : SameControl e e := ⟨rfl, rfl, rfl, rfl, rfl, fun _ h => h⟩

theorem flag (id : TaskId) (e : Engine β) : SameControl e (e.flag id) :=
  ⟨rfl, rfl, rfl, rfl, rfl, fun _ h => isFlagged_flag.mpr (Or.inl h)⟩

theorem cancel (id : TaskId) (e : Engine β) : SameControl e (e.cancel id).2 := by
  unfold Engine.cancel
  simp only
  split
  · exact ⟨rfl, rfl, rfl, rfl, rfl, fun _ h => h⟩
  · split
    · exact .flag id e
    · exact .refl e

theorem putBoundary (which : Boundary) (t : Option (Task β)) (e : Engine β) :
    SameControl e (e.putBoundary which t) := by
  cases which <;> exact ⟨rfl, rfl, rfl, rfl, rfl, fun _ h => h⟩

theorem setBoundary (which : Boundary) (work : Option β) (e : Engine β) :
    SameControl e (e.setBoundary which work) := by
  cases which <;> cases work <;> exact ⟨rfl, rfl, rfl, rfl, rfl, fun _ h => h⟩

theorem settleBoundary (which : Boundary) (t : Task β) (e : Engine β) :
    SameControl e (e.settleBoundary which t) := by
  unfold Engine.settleBoundary
  split
  · exact .putBoundary which none e
  · exact .refl e

theorem effect {a : EngineCall β} (ha : a.atOnce = true) (e : Engine β) : SameControl e (a.effect e) := by
  cases a with
  | schedule work delay period =>
    by_cases hs : e.state = .stopped
    · simp only [EngineCall.effect, Engine.schedule_of_stopped hs]
      exact .refl _
    · simp only [EngineCall.effect, Engine.schedule_ok hs]
      exact ⟨rfl, rfl, rfl, rfl, rfl, fun _ h => h⟩
  | cancel id => exact .cancel id e
  | flag id => exact .flag id e
  | pause => cases ha
  | stop => cases ha
  | setBoundary which work => exact .setBoundary which work e
  | setClock clock => exact ⟨rfl, rfl, rfl, rfl, rfl, fun _ h => h⟩

end Engine.SameControl

namespace Machine

variable {β : Type} {m m' : Machine β}

structure Control (m : Machine β) : Prop where
  flight : m.engine.state ≠ .stopped → m.engine.inFlight = m.phase.pending.map fun t => (t.id, t)
  flagged : m.engine.state = .stopped → ∀ t ∈ m.phase.pending, m.engine.isFlagged t.id = true
  pending : ∀ t ∈ m.phase.pending, t.id ∈ m.issued
  terminated : m.engine.barrier.terminated = true ↔ m.engine.state = .stopped
  parties : m.engine.barrier.registered = m.engine.barrier.arrived + m.phase.parties
  facing : ∀ k which, m.phase = .facing k which → m.engine.state ≠ .stopped
  loopAlive : m.engine.loopAlive = m.phase.looped
  running : m.engine.running = true → m.engine.state.isRunning = true ∧ m.phase.looped = true

/-- Where no operation is in progress the engine is not asked to run. -/
theorem Control.not_running (h : m.Control) (hp : m.phase = .idle) : m.engine.running = false := by
  rw [Bool.eq_false_iff]
  intro hrun
  have hlooped := (h.running hrun).2
  rw [hp] at hlooped
  cases hlooped

/-- What was issued stays issued. -/
theorem issued_move_subset (m : Machine β) (e : Engine β) (p : Phase β) (ns : List (Note β))
    {id : TaskId} (h : id ∈ m.issued) : id ∈ (m.move e p ns).issued := by
  rw [issued_move]
  exact List.mem_append_left _ h

namespace Control

theorem keep (h : m.Control) {e : Engine β} {p : Phase β} {ns : List (Note β)}
    (he : m.engine.SameControl e) (hpending : p.pending = m.phase.pending)
    (hparties : p.parties = m.phase.parties) (hlooped : p.looped = m.phase.looped)
    (hfacing : ∀ k which, p = .facing k which → m.engine.state ≠ .stopped) :
    (m.move e p ns).Control := by
  obtain ⟨hstate, hflight, hbarrier, hrunning, halive, hflagged⟩ := he
  constructor
  · change e.state ≠ _ → e.inFlight = p.pending.map _
    rw [hstate, hflight, hpending]
    exact h.flight
  · change e.state = _ → ∀ t ∈ p.pending, _
    rw [hstate, hpending]
    exact fun hs t ht => hflagged _ (h.flagged hs t ht)
  · change ∀ t ∈ p.pending, _
    rw [hpending]
    exact fun t ht => m.issued_move_subset e p ns (h.pending t ht)
  · change e.barrier.terminated = true ↔ e.state = _
    rw [hbarrier, hstate]
    exact h.terminated
  · change e.barrier.registered = e.barrier.arrived + p.parties
    rw [hbarrier, hparties]
    exact h.parties
  · change ∀ k which, p = _ → e.state ≠ _
    rw [hstate]
    exact hfacing
  · change e.loopAlive = p.looped
    rw [halive, hlooped]
    exact h.loopAlive
  · change e.running = true → e.state.isRunning = true ∧ p.looped = true
    rw [hrunning, hstate, hlooped]
    exact h.running

/-- A move between two states of an engine that is not stopped. -/
theorem shift (h : m.Control) {e : Engine β} {p : Phase β} {ns : List (Note β)}
    (hs : m.engine.state ≠ .stopped) (hs' : e.state ≠ .stopped)
    (hflight : e.inFlight = m.engine.inFlight) (hbarrier : e.barrier = m.engine.barrier)
    (hpending : p.pending = m.phase.pending) (hparties : p.parties = m.phase.parties)
    (halive : e.loopAlive = p.looped)
    (hrunning : e.running = true → e.state.isRunning = true ∧ p.looped = true) :
    (m.move e p ns).Control := by
  constructor
  · change _ → e.inFlight = p.pending.map _
    rw [hflight, hpending]
    exact fun _ => h.flight hs
  · exact fun e => absurd e hs'
  · change ∀ t ∈ p.pending, _
    rw [hpending]
    exact fun t ht => m.issued_move_subset e p ns (h.pending t ht)
  · change e.barrier.terminated = true ↔ _
    rw [hbarrier]
    exact iff_of_false (fun ht => hs (h.terminated.mp ht)) hs'
  · change e.barrier.registered = e.barrier.arrived + p.parties
    rw [hbarrier, hparties]
    exact h.parties
  · exact fun _ _ _ => hs'
  · exact halive
  · exact hrunning

/-! ## Calls -/

theorem not_facing (hp : m.phase.listens = true) (k : TickFrame) (which : Boundary) :
    m.phase ≠ .facing k which := by
  intro e
  rw [e] at hp
  cases hp

theorem stay (h : m.Control) {e : Engine β} {ns : List (Note β)} (he : m.engine.SameControl e) :
    (m.move e m.phase ns).Control := h.keep he rfl rfl rfl h.facing

theorem pause (h : m.Control) (ns : List (Note β)) :
    (m.move (EngineCall.effect m.engine .pause) m.phase ns).Control := by
  rcases Engine.effect_pause m.engine with heq | ⟨hs, heq⟩ <;> rw [heq]
  · exact h.stay (.refl _)
  · exact h.shift hs (by rintro ⟨⟩) rfl rfl rfl rfl h.loopAlive (by rintro ⟨⟩)

theorem stop (h : m.Control) (hp : m.phase.listens = true) (ns : List (Note β)) :
    (m.move m.engine.stop.2 m.phase ns).Control := by
  by_cases hs : m.engine.state = .stopped
  · rw [Engine.stop_of_stopped hs]
    exact {
      flight := fun e => absurd hs e
      flagged := h.flagged
      pending := fun t ht => m.issued_move_subset _ _ ns (h.pending t ht)
      terminated := h.terminated
      parties := h.parties
      facing := h.facing
      loopAlive := h.loopAlive
      running := by rintro ⟨⟩ }
  · rw [(Engine.stop_of_live hs).2]
    exact {
      flight := fun e => absurd rfl e
      flagged := by
        intro _ t ht
        refine Engine.isFlagged_iff.mpr (Distinct.mem_addAll.mpr (Or.inr ?_))
        rw [h.flight hs]
        exact List.mem_map.mpr ⟨(t.id, t), List.mem_map.mpr ⟨t, ht, rfl⟩, rfl⟩
      pending := fun t ht => m.issued_move_subset _ _ ns (h.pending t ht)
      terminated := iff_of_true rfl rfl
      parties := h.parties
      facing := fun k which e => absurd e (not_facing hp k which)
      loopAlive := h.loopAlive
      running := by rintro ⟨⟩ }

theorem call (h : m.Control) (hp : m.phase.listens = true) (c : EngineCall β) :
    (m.move (c.effect m.engine) m.phase (c.notes m.engine)).Control := by
  cases c with
  | pause => exact h.pause _
  | stop => exact h.stop hp _
  | _ => exact h.stay (.effect rfl _)

/-! ## Turns -/

theorem launch (h : m.Control) (hl : m.Ledger) {k : TickFrame} (hp : m.phase = .launching k)
    (ns : List (Note β)) :
    (m.move (m.engine.launch k.deadline).2 (.turns k (m.engine.launch k.deadline).1) ns).Control := by
  by_cases hs : m.engine.state = .stopped
  · rw [Engine.launch_of_held (hl.emptied hs)]
    refine h.keep (.refl _) ?_ ?_ ?_ (by rintro _ _ ⟨⟩) <;> rw [hp] <;> rfl
  · have hflight := h.flight hs
    have hparties := h.parties
    have halive := h.loopAlive
    have hrunning := h.running
    rw [hp] at hflight hparties halive hrunning
    obtain ⟨hdue, heq⟩ := Engine.launch_eq hl.queue hl.held_nodup k.deadline
    rw [heq, hdue]
    constructor
    · intro _
      change m.engine.inFlight ++ _ = _
      rw [hflight]
      rfl
    · exact fun e => absurd e hs
    · intro t ht
      refine m.issued_move_subset _ _ ns (hl.held_issued (List.mem_append_left _ ?_))
      exact List.mem_map.mpr ⟨t, (List.mem_filter.mp ht).1, rfl⟩
    · exact h.terminated
    · exact hparties
    · rintro _ _ ⟨⟩
    · exact halive
    · exact hrunning

/-- A move that only changes the barrier. -/
theorem passing (h : m.Control) {b : TickBarrier} {p : Phase β} {ns : List (Note β)}
    (hterm : b.terminated = m.engine.barrier.terminated) (hb : b.registered = b.arrived + p.parties)
    (hpending : p.pending = m.phase.pending) (hlooped : p.looped = m.phase.looped)
    (hfacing : ∀ k which, p = .facing k which → m.engine.state ≠ .stopped) :
    (m.move { m.engine with barrier := b } p ns).Control := by
  constructor
  · change _ → _ = p.pending.map _
    rw [hpending]
    exact h.flight
  · change _ → ∀ t ∈ p.pending, _
    rw [hpending]
    exact h.flagged
  · change ∀ t ∈ p.pending, _
    rw [hpending]
    exact fun t ht => m.issued_move_subset _ p ns (h.pending t ht)
  · change b.terminated = true ↔ _
    rw [hterm]
    exact h.terminated
  · exact hb
  · exact hfacing
  · change m.engine.loopAlive = p.looped
    rw [hlooped]
    exact h.loopAlive
  · change _ → _ ∧ p.looped = true
    rw [hlooped]
    exact h.running

/-- The end of a turn, for a barrier that waits for the task. -/
theorem finish (h : m.Control) (hl : m.Ledger) {k : TickFrame} {t : Task β} {rest : List (Task β)}
    {b : TickBarrier} {ns : List (Note β)} (hpending : m.phase.pending = t :: rest)
    (hlooped : m.phase.looped = k.looped) (hterm : b.terminated = m.engine.barrier.terminated)
    (hb : b.registered = b.arrived + 1) :
    (m.move ({ m.engine with barrier := b }.finish t) (.turns k rest) ns).Control := by
  have hflight := h.flight
  have hflagged := h.flagged
  have hissued := h.pending
  have halive := h.loopAlive
  have hrunning := h.running
  rw [hpending] at hflight hflagged hissued
  rw [hlooped] at halive hrunning
  rw [Engine.finish, Engine.complete_eq]
  constructor
  · intro hs
    change Entries.erase t.id m.engine.inFlight = rest.map _
    have hnodup := (List.nodup_append.mp hl.held_nodup).2.1
    rw [hflight hs] at hnodup ⊢
    have hrest : t.id ∉ Entries.keys (rest.map fun u => (u.id, u)) := (List.nodup_cons.mp hnodup).1
    have herase := Entries.erase_of_not_mem hrest
    rw [Entries.erase] at herase ⊢
    rw [List.map_cons, List.filter_cons_of_neg (by simp), herase]
  · exact fun hs u hu => hflagged hs u (List.mem_cons_of_mem _ hu)
  · exact fun u hu => m.issued_move_subset _ _ ns (hissued u (List.mem_cons_of_mem _ hu))
  · change b.terminated = true ↔ _
    rw [hterm]
    exact h.terminated
  · exact hb
  · rintro _ _ ⟨⟩
  · exact halive
  · exact hrunning

theorem park (h : m.Control) {k : TickFrame} (hp : m.phase = .parking k) (ns : List (Note β)) :
    (m.move (m.engine.endTick k.deadline) (.leave k) ns).Control := by
  have halive := h.loopAlive
  have hrunning := h.running
  rw [hp] at halive hrunning
  have hpending : (Phase.leave k : Phase β).pending = m.phase.pending := by
    rw [hp, Phase.pending_leave]
    rfl
  have hparties : (Phase.leave k : Phase β).parties = m.phase.parties := by
    rw [hp, Phase.parties_leave]
    rfl
  have hlooped : (Phase.leave k : Phase β).looped = m.phase.looped := by
    rw [hp, Phase.looped_leave]
    rfl
  rcases Engine.park_cases k.deadline { m.engine with meter := m.engine.meter.endTick } with
    ⟨hr, heq⟩ | ⟨-, heq⟩ <;> rw [Engine.endTick, heq]
  · have hs : m.engine.state ≠ .stopped := fun e => by
      change m.engine.state.isRunning = true at hr
      rw [e] at hr
      cases hr
    refine h.shift hs (by rintro ⟨⟩) rfl rfl hpending hparties (hlooped ▸ h.loopAlive) ?_
    exact fun hrun => ⟨rfl, hlooped ▸ (h.running hrun).2⟩
  · exact h.keep ⟨rfl, rfl, rfl, rfl, rfl, fun _ h => h⟩ hpending hparties hlooped
      (fun k' which e => absurd e (Phase.leave_ne_facing k k' which))

theorem step (h : m.Control) (hl : m.Ledger) (hs : m.Step m') : m'.Control := by
  cases hs with
  | call c hp => exact h.call hp c
  | step hp hr he =>
    obtain ⟨hs, rfl⟩ := Engine.enter_ok he
    have halive := h.loopAlive
    rw [hp] at halive
    refine h.shift hs (by rintro ⟨⟩) rfl rfl ?_ ?_ halive ?_
    · rw [hp]
      rfl
    · rw [hp]
      rfl
    · exact fun hrun => absurd (hr.symm.trans hrun) (by decide)
  | tick hp he =>
    obtain ⟨hs, rfl, state, hr, rfl⟩ := Engine.start_ok he
    have halive := h.loopAlive
    rw [hp] at halive
    rw [halive]
    refine h.shift hs ?_ rfl rfl ?_ ?_ rfl (fun _ => ⟨hr, rfl⟩)
    · rintro rfl
      cases hr
    · rw [hp]
      rfl
    · rw [hp]
      rfl
  | again hp he =>
    obtain ⟨hrun, hr, rfl⟩ := Engine.continues_true he
    have halive := h.loopAlive
    rw [hp] at halive
    refine h.shift ?_ (by rintro ⟨⟩) rfl rfl ?_ ?_ halive (fun _ => ⟨rfl, rfl⟩)
    · intro e
      rw [e] at hr
      cases hr
    · rw [hp]
      rfl
    · rw [hp]
      rfl
  | leave hp he =>
    obtain ⟨hno, rfl⟩ := Engine.continues_false he
    have hflight := h.flight
    have hparties := h.parties
    rw [hp] at hflight hparties
    exact {
      flight := hflight
      flagged := by rintro _ _ ⟨⟩
      pending := by rintro _ ⟨⟩
      terminated := h.terminated
      parties := hparties
      facing := by rintro _ _ ⟨⟩
      loopAlive := rfl
      running := fun hrun => absurd ⟨hrun, (h.running hrun).1⟩ hno }
  | @absent k which hp hb =>
    refine h.keep (.refl _) ?_ ?_ ?_ (fun k' w e => absurd e (Phase.past_ne_facing k which k' w)) <;>
      rw [hp] <;> simp <;> rfl
  | @pass k which t hp hb hf =>
    refine h.keep (.settleBoundary which t _) ?_ ?_ ?_
      (fun k' w e => absurd e (Phase.past_ne_facing k which k' w)) <;>
      rw [hp] <;> simp <;> rfl
  | enter hp hb hf =>
    refine h.keep (.refl _) ?_ ?_ ?_ (by rintro _ _ ⟨⟩) <;> rw [hp] <;> rfl
  | @settle k which t hp =>
    refine h.keep (.settleBoundary which t _) ?_ ?_ ?_
      (fun k' w e => absurd e (Phase.past_ne_facing k which k' w)) <;>
      rw [hp] <;> simp <;> rfl
  | launch hp => exact h.launch hl hp _
  | start hp hf =>
    have hparties := h.parties
    rw [hp] at hparties
    refine h.passing rfl ?_ ?_ ?_ (by rintro _ _ ⟨⟩)
    · exact congrArg (· + 1) hparties
    · rw [hp]
      rfl
    · rw [hp]
      rfl
  | @skip k t rest hp hf =>
    have hparties := h.parties
    rw [hp] at hparties
    exact h.finish hl (b := m.engine.register.barrier) (by rw [hp]; rfl) (by rw [hp]; rfl) rfl
      (congrArg (· + 1) hparties)
  | @finish k t rest hp =>
    have hparties := h.parties
    rw [hp] at hparties
    exact h.finish hl (b := m.engine.barrier) (by rw [hp]; rfl) (by rw [hp]; rfl) rfl hparties
  | advance hp hb =>
    obtain ⟨hterm, rfl⟩ := TickBarrier.await?_true hb
    refine h.passing rfl rfl ?_ ?_ ?_
    · rw [hp]
      rfl
    · rw [hp]
      rfl
    · exact fun _ _ _ hs => absurd (hterm.symm.trans (h.terminated.mpr hs)) (by decide)
  | @release k b hp hb =>
    obtain ⟨-, rfl⟩ := TickBarrier.await?_false hb
    have hparties := h.parties
    rw [hp] at hparties
    refine h.passing rfl ?_ ?_ ?_ (fun k' which e => absurd e (Phase.leave_ne_facing k k' which))
    · rw [Phase.parties_leave]
      exact hparties
    · rw [hp, Phase.pending_leave]
      rfl
    · rw [hp, Phase.looped_leave]
      rfl
  | park hp => exact h.park hp _

theorem initial {config : EngineConfig} {e : Engine β} (he : Engine.create config = .ok e) :
    Control { engine := e } := by
  obtain ⟨-, rfl⟩ := Engine.create_ok he
  exact {
    flight := fun _ => rfl
    flagged := by rintro _ _ ⟨⟩
    pending := by rintro _ ⟨⟩
    terminated := iff_of_false (by rintro ⟨⟩) (by rintro ⟨⟩)
    parties := rfl
    facing := by rintro _ _ ⟨⟩
    loopAlive := rfl
    running := by rintro ⟨⟩ }

end Control

end Machine

end Vivarium
