import Vivarium.Proofs.NextTick

/-! # The pace of periodic tasks

A task may begin up to one interval before it is due, and is due again a period after its body has
ended. While only the end of a tick moves the clock, the clock goes in whole intervals, so the begins of
a task are whole intervals apart, and as many as fit into its period.
-/

namespace Vivarium

theorem Clock.now_parkUntil (deadline : Nat) (c : Clock) :
    (c.parkUntil deadline).now = max c.now (deadline % UInt64.size) := by
  have htime : (UInt64.ofNat deadline).toNat = deadline % UInt64.size := UInt64.toNat_ofNat
  change (if c.nanos ≤ UInt64.ofNat deadline then UInt64.ofNat deadline else c.nanos).toNat = _
  split
  · next hle =>
    rw [UInt64.le_iff_toNat_le, htime] at hle
    exact htime.trans (Nat.max_eq_right hle).symm
  · next hle =>
    rw [UInt64.le_iff_toNat_le, htime] at hle
    exact (Nat.max_eq_left (Nat.le_of_not_le hle)).symm

theorem Engine.now_le_endTick {β : Type} (deadline : Nat) (e : Engine β) :
    e.now ≤ (e.endTick deadline).now := by
  rcases park_cases deadline { e with meter := e.meter.endTick } with ⟨-, heq⟩ | ⟨-, heq⟩ <;>
    rw [endTick, heq]
  · have hpark := e.clock.now_parkUntil deadline
    change e.clock.now ≤ (e.clock.parkUntil deadline).now
    omega
  · exact Nat.le_refl _

namespace Note

variable {β : Type} {id : TaskId}

def start? (id : TaskId) : Note β → Option Nat
  | .started t now => if t.id = id then some now else none
  | _ => none

theorem start?_started_self (t : Task β) (now : Nat) : (started t now).start? t.id = some now := if_pos rfl

theorem start?_started_of_ne {t : Task β} (h : t.id ≠ id) (now : Nat) :
    (started t now).start? id = none := if_neg h

theorem start?_finishNote (t : Task β) (e : Engine β) :
    (e.finishNote t).start? id = none := by
  unfold Engine.finishNote
  split <;> rfl

end Note

namespace EngineCall

variable {β : Type}

theorem start_notes (c : EngineCall β) (e : Engine β) (id : TaskId) :
    (c.notes e).filterMap (Note.start? id) = [] := by
  cases c <;> simp only [notes]
  · split <;> rfl
  · split <;> rfl
  all_goals rfl

theorem scheduled_notes (c : EngineCall β) {e : Engine β} {t : Task β}
    (ht : t ∈ (c.notes e).filterMap Note.scheduled?) : t.id = ⟨e.nextTask⟩ := by
  cases c <;> simp only [notes] at ht
  · split at ht
    · cases List.mem_singleton.mp ht
      rfl
    · cases ht
  · split at ht <;> cases ht
  all_goals cases ht

end EngineCall

namespace Phase

variable {β : Type}

/-- The tick that is under way. -/
def frame? : Phase β → Option TickFrame
  | .facing k _ | .boundary k _ _ | .launching k | .turns k _ | .body k _ _ | .parking k => some k
  | _ => none

/-- The launched tasks whose turns are to come. -/
def toCome : Phase β → List (Task β)
  | .turns _ rest | .body _ _ rest => rest
  | _ => []

/-- The next launch is to come. -/
def opens : Phase β → Bool
  | .idle | .between | .facing _ .first | .boundary _ .first _ | .launching _ => true
  | _ => false

theorem frame?_leave (k : TickFrame) : (leave k : Phase β).frame? = none := by
  rcases leave_cases (β := β) k with ⟨h, -⟩ | ⟨h, -⟩ <;> rw [h] <;> rfl

theorem toCome_leave (k : TickFrame) : (leave k : Phase β).toCome = [] := by
  rcases leave_cases (β := β) k with ⟨h, -⟩ | ⟨h, -⟩ <;> rw [h] <;> rfl

theorem frame?_past (k : TickFrame) (which : Boundary) : (past k which : Phase β).frame? = some k := by
  cases which <;> rfl

theorem toCome_past (k : TickFrame) (which : Boundary) : (past k which : Phase β).toCome = [] := by
  cases which <;> rfl

theorem eq_first_of_opens_past {k : TickFrame} {which : Boundary}
    (h : (past k which : Phase β).opens = true) : which = .first := by
  cases which with
  | first => rfl
  | last => cases h

end Phase

namespace Machine

variable {β : Type} {m m' : Machine β} {interval least : Nat} {id : TaskId}

def scheduled (m : Machine β) : List (Task β) := m.journal.filterMap Note.scheduled?

theorem issued_eq (m : Machine β) : m.issued = m.scheduled.map (·.id) := (List.map_filterMap ..).symm

theorem scheduled_move (m : Machine β) (e : Engine β) (p : Phase β) (ns : List (Note β)) :
    (m.move e p ns).scheduled = m.scheduled ++ ns.filterMap Note.scheduled? := List.filterMap_append

/-- The times at which the body of a task has begun. -/
def starts (id : TaskId) (m : Machine β) : List Nat := m.journal.filterMap (Note.start? id)

theorem starts_move (id : TaskId) (m : Machine β) (e : Engine β) (p : Phase β) (ns : List (Note β)) :
    (m.move e p ns).starts id = m.starts id ++ ns.filterMap (Note.start? id) := List.filterMap_append

/-- A task that was scheduled, perhaps with another time at which it is due. -/
def Descends (m : Machine β) (u : Task β) : Prop := ∃ t ∈ m.scheduled, u = { t with due := u.due }

theorem Descends.move {u : Task β} (h : m.Descends u) (e : Engine β) (p : Phase β) (ns : List (Note β)) :
    (m.move e p ns).Descends u := by
  obtain ⟨t, ht, hu⟩ := h
  exact ⟨t, by rw [scheduled_move]; exact List.mem_append_left _ ht, hu⟩

theorem Ledger.descends_unique (h : m.Ledger) {t u : Task β} (ht : t ∈ m.scheduled)
    (hu : m.Descends u) (hid : u.id = t.id) : u.period = t.period := by
  obtain ⟨v, hv, heq⟩ := hu
  have hnodup := h.nodup
  rw [issued_eq] at hnodup
  have hvid : v.id = t.id := by rw [← hid, heq]
  rw [heq, List.inj_on_of_nodup_map hnodup hv ht hvid]

/-- One begin after the other: whole intervals apart, at least so far as to be due again before the
end of the tick. -/
def Spaced (interval least period a b : Nat) : Prop :=
  ∃ j, b = a + j * interval ∧ period < (j + 1) * interval ∧ least ≤ j * interval

/-- The end of a tick moves the clock on by this at least unless the engine was stopped, and nothing
else moves it. -/
def Steady (least : Nat) (m m' : Machine β) : Prop :=
  m.Step m' ∧ ((∀ k, m.phase ≠ .parking k) → m'.engine.clock = m.engine.clock) ∧
    ∀ k, m.phase = .parking k → m.engine.state ≠ .stopped → m.engine.now + least ≤ m'.engine.now

theorem StepBy.steady {ok : EngineCall β → Prop} (hok : ∀ c, ok c → c.isStill = true)
    (h : m.StepBy ok m') : Steady 0 m m' := by
  cases h with
  | call c hp hc hcall =>
    refine ⟨.call c hp hc, fun _ => EngineCall.clock_effect (hok c hcall) _, fun k hk => ?_⟩
    rw [hk] at hp
    cases hp
  | own hs hclock =>
    refine ⟨hs, hclock, fun k hk _ => ?_⟩
    rw [hs.of_parking hk]
    exact m.engine.now_le_endTick k.deadline

/-- A call queues nothing but the task that it schedules. -/
theorem Ledger.call_queues (h : m.Ledger) (c : EngineCall β) {t : Task β}
    (ht : t ∈ (c.effect m.engine).queue.toList) :
    t ∈ m.engine.queue.toList ∨ t ∈ (c.notes m.engine).filterMap Note.scheduled? := by
  have hwf := h.queue
  cases c with
  | schedule work delay period =>
    by_cases hs : m.engine.state = .stopped
    · simp only [EngineCall.effect, Engine.schedule_of_stopped hs] at ht
      exact Or.inl ht
    · simp only [EngineCall.effect, EngineCall.notes, Engine.schedule_ok hs] at ht ⊢
      rcases List.mem_cons.mp ((hwf.toList_insert _).mem_iff.mp ht) with rfl | ht
      · exact Or.inr List.mem_cons_self
      · exact Or.inl (List.mem_filter.mp ht).1
  | cancel id =>
    by_cases hid : id ∈ m.engine.queue.ids
    · simp only [EngineCall.effect, Engine.cancel_queued hwf hid, hwf.toList_remove] at ht
      exact Or.inl (List.mem_filter.mp ht).1
    · change t ∈ (m.engine.cancel id).2.queue.toList at ht
      rw [(Engine.SameTasks.cancel hwf hid).queue] at ht
      exact Or.inl ht
  | flag => exact Or.inl ht
  | pause =>
    rw [(Engine.SameTasks.pause m.engine).queue] at ht
    exact Or.inl ht
  | stop =>
    by_cases hs : m.engine.state = .stopped
    · simp only [EngineCall.effect, Engine.stop_of_stopped hs] at ht
      exact Or.inl ht
    · simp only [EngineCall.effect, (Engine.stop_of_live hs).2] at ht
      cases ht
  | setBoundary which work =>
    change t ∈ (m.engine.setBoundary which work).queue.toList at ht
    rw [(Engine.SameTasks.setBoundary which work m.engine).queue] at ht
    exact Or.inl ht
  | setClock => exact Or.inl ht

structure Paced (interval least : Nat) (m : Machine β) : Prop where
  frame : ∀ k, m.phase.frame? = some k → k.deadline = m.engine.now + interval
  issued : ∀ id, m.starts id ≠ [] → id ∈ m.issued
  apart : ∀ id, ∀ a ∈ m.starts id, ∃ j, m.engine.now = a + j * interval
  queued : ∀ t ∈ m.engine.queue.toList,
    m.Descends t ∧ ∀ a ∈ m.starts t.id, Duration.after a t.period ≤ t.due
  pending : ∀ t ∈ m.phase.pending, m.Descends t
  coming : ∀ t ∈ m.phase.toCome, ∀ a ∈ m.starts t.id,
    a + least ≤ m.engine.now ∧ a + t.period < m.engine.now + interval
  rested : m.engine.state ≠ .stopped → m.phase.opens = true →
    ∀ id, ∀ a ∈ m.starts id, a + least ≤ m.engine.now
  spaced : ∀ t ∈ m.scheduled, (m.starts t.id).Pairwise (Spaced interval least t.period)

namespace Paced

theorem le_now (h : m.Paced interval least) {a : Nat} (ha : a ∈ m.starts id) : a ≤ m.engine.now := by
  obtain ⟨j, hj⟩ := h.apart id a ha
  omega

/-- A move that begins no body and leaves the clock alone. -/
theorem keep (h : m.Paced interval least) {e : Engine β} {p : Phase β} {ns : List (Note β)}
    (hclock : e.clock = m.engine.clock) (hstarts : ∀ id, ns.filterMap (Note.start? id) = [])
    (hnew : ∀ t ∈ ns.filterMap Note.scheduled?, t.id ∉ m.issued)
    (hframe : ∀ k, p.frame? = some k → k.deadline = e.now + interval)
    (hqueue : ∀ t ∈ e.queue.toList, t ∈ m.engine.queue.toList ∨
      (m.move e p ns).Descends t ∧ ∀ a ∈ m.starts t.id, Duration.after a t.period ≤ t.due)
    (hpending : ∀ t ∈ p.pending, t ∈ m.phase.pending ∨ t ∈ m.engine.queue.toList)
    (hcoming : ∀ t ∈ p.toCome, t ∈ m.phase.toCome ∨ ∀ a ∈ m.starts t.id,
      a + least ≤ m.engine.now ∧ a + t.period < m.engine.now + interval)
    (hrested : e.state ≠ .stopped → p.opens = true →
      m.engine.state ≠ .stopped ∧ m.phase.opens = true) :
    (m.move e p ns).Paced interval least := by
  have hnow : e.now = m.engine.now := congrArg Clock.now hclock
  have hsame : ∀ id, (m.move e p ns).starts id = m.starts id := by
    intro id
    rw [starts_move, hstarts, List.append_nil]
  have hnone : ∀ t ∈ ns.filterMap Note.scheduled?, m.starts t.id = [] :=
    fun t ht => Decidable.byContradiction fun hne => hnew t ht (h.issued t.id hne)
  constructor
  · exact hframe
  · intro id hid
    rw [hsame] at hid
    exact m.issued_move_subset e p ns (h.issued id hid)
  · intro id
    rw [hsame]
    exact hnow ▸ h.apart id
  · intro t ht
    rw [hsame]
    rcases hqueue t ht with ht | hnew
    · exact (h.queued t ht).imp_left (·.move e p ns)
    · exact hnew
  · intro t ht
    rcases hpending t ht with ht | ht
    · exact (h.pending t ht).move e p ns
    · exact (h.queued t ht).1.move e p ns
  · intro t ht
    rw [hsame]
    change ∀ a ∈ m.starts t.id, a + least ≤ e.now ∧ a + t.period < e.now + interval
    rw [hnow]
    exact (hcoming t ht).elim (h.coming t) id
  · intro hs hp id
    rw [hsame]
    change ∀ a ∈ m.starts id, a + least ≤ e.now
    rw [hnow]
    obtain ⟨hs, hp⟩ := hrested hs hp
    exact h.rested hs hp id
  · intro t ht
    rw [hsame]
    rw [scheduled_move] at ht
    rcases List.mem_append.mp ht with ht | ht
    · exact h.spaced t ht
    · rw [hnone t ht]
      exact List.Pairwise.nil

/-- A body begins: the begins before it lie as far back as the turn shows. -/
theorem start (h : m.Paced interval least) (hs : m.Sound) {k : TickFrame} {t : Task β}
    {rest : List (Task β)} (hp : m.phase = .turns k (t :: rest))
    (hf : m.engine.isFlagged t.id = false) :
    (m.move m.engine.register (.body k t rest) [.turn t false, .started t m.engine.now]).Paced
      interval least := by
  have hpending : m.phase.pending = t :: rest := by rw [hp]; rfl
  have hmem : t ∈ m.phase.pending := hpending ▸ List.mem_cons_self
  have hlive : m.engine.state ≠ .stopped := by
    intro hstopped
    rw [hs.control.flagged hstopped t hmem] at hf
    cases hf
  have hflight := hs.control.flight hlive
  rw [hpending] at hflight
  have hfly : t.id ∈ Entries.keys m.engine.inFlight := by
    rw [hflight]
    exact List.mem_cons_self
  have hother : ∀ u ∈ rest, t.id ≠ u.id := by
    have hnodup := (List.nodup_append.mp hs.ledger.held_nodup).2.1
    rw [hflight] at hnodup
    intro u hu he
    refine (List.nodup_cons.mp hnodup).1 ?_
    exact List.mem_map.mpr ⟨(u.id, u), List.mem_map.mpr ⟨u, hu, rfl⟩, he.symm⟩
  have hsame : ∀ id, t.id ≠ id → (m.move m.engine.register (.body k t rest)
      [.turn t false, .started t m.engine.now]).starts id = m.starts id := by
    intro id hne
    rw [starts_move, List.filterMap_cons_none rfl,
      List.filterMap_cons_none (Note.start?_started_of_ne hne _), List.filterMap_nil, List.append_nil]
  have hgrown : (m.move m.engine.register (.body k t rest)
      [.turn t false, .started t m.engine.now]).starts t.id = m.starts t.id ++ [m.engine.now] := by
    rw [starts_move, List.filterMap_cons_none rfl,
      List.filterMap_cons_some (Note.start?_started_self t _), List.filterMap_nil]
  constructor
  · intro k' hk
    cases hk
    exact h.frame k (by rw [hp]; rfl)
  · intro id hid
    refine m.issued_move_subset _ _ _ ?_
    by_cases hne : t.id = id
    · exact hne ▸ hs.control.pending t hmem
    · rw [hsame id hne] at hid
      exact h.issued id hid
  · intro id a ha
    by_cases hne : t.id = id
    · rw [← hne, hgrown] at ha
      rcases List.mem_append.mp ha with ha | ha
      · exact h.apart t.id a ha
      · rw [List.mem_singleton.mp ha]
        exact ⟨0, by rw [Nat.zero_mul]; rfl⟩
    · rw [hsame id hne] at ha
      exact h.apart id a ha
  · intro u hu
    have hne : t.id ≠ u.id := fun he =>
      hs.ledger.not_flying_of_queued (List.mem_map.mpr ⟨u, hu, rfl⟩) (he ▸ hfly)
    rw [hsame u.id hne]
    exact (h.queued u hu).imp_left (·.move _ _ _)
  · intro u hu
    exact (h.pending u (hpending ▸ hu)).move _ _ _
  · intro u hu
    rw [hsame u.id (hother u hu)]
    exact h.coming u (by rw [hp]; exact List.mem_cons_of_mem _ hu)
  · rintro - ⟨⟩
  · intro u hu
    rw [scheduled_move, List.filterMap_cons_none rfl, List.filterMap_cons_none rfl, List.filterMap_nil,
      List.append_nil] at hu
    by_cases hne : t.id = u.id
    · have hspaced := h.spaced u hu
      rw [← hne] at hspaced ⊢
      rw [hgrown]
      refine List.pairwise_append.mpr ⟨hspaced, List.pairwise_singleton _ _, fun a ha b hb => ?_⟩
      rw [List.mem_singleton.mp hb]
      obtain ⟨j, hj⟩ := h.apart t.id a ha
      obtain ⟨hleast, hdue⟩ := h.coming t (by rw [hp]; exact List.mem_cons_self) a ha
      rw [hs.ledger.descends_unique hu (h.pending t hmem) hne] at hdue
      refine ⟨j, hj, ?_, ?_⟩
      · rw [Nat.succ_mul]
        omega
      · omega
    · rw [hsame u.id hne]
      exact h.spaced u hu

/-- The end of a tick moves the clock on by the interval, or else not at all. -/
theorem now_endTick (h : m.Paced interval least) (hinterval : interval ≤ Duration.second) {k : TickFrame}
    (hp : m.phase = .parking k) :
    (m.engine.endTick k.deadline).now = m.engine.now + interval ∨
      (m.engine.endTick k.deadline).now = m.engine.now ∧
        (m.engine.state.isRunning = false ∨ UInt64.size ≤ m.engine.now + interval) := by
  rcases Engine.park_cases k.deadline { m.engine with meter := m.engine.meter.endTick } with
    ⟨-, heq⟩ | ⟨hrests, heq⟩ <;> rw [Engine.endTick, heq]
  · have hnow : m.engine.now < UInt64.size := m.engine.clock.now_lt
    have hpark := m.engine.clock.now_parkUntil k.deadline
    have hdeadline := h.frame k (by rw [hp]; rfl)
    change (m.engine.clock.parkUntil k.deadline).now = _ ∨ (m.engine.clock.parkUntil k.deadline).now = _ ∧ _
    change _ = max m.engine.now _ at hpark
    rw [hpark]
    by_cases htop : k.deadline < UInt64.size
    · left
      rw [Nat.mod_eq_of_lt htop]
      omega
    · right
      simp only [UInt64.size, Duration.second] at *
      omega
  · exact Or.inr ⟨rfl, Or.inl hrests⟩

theorem park (h : m.Paced interval least) (hinterval : interval ≤ Duration.second) {k : TickFrame}
    (hp : m.phase = .parking k)
    (hleast : m.engine.state ≠ .stopped →
      m.engine.now + least ≤ (m.engine.endTick k.deadline).now) :
    (m.move (m.engine.endTick k.deadline) (.leave k) []).Paced interval least := by
  have hsame : ∀ id, (m.move (m.engine.endTick k.deadline) (.leave k) []).starts id = m.starts id := by
    intro id
    rw [starts_move]
    exact List.append_nil _
  have htasks := Engine.SameTasks.endTick k.deadline m.engine
  have hmoved : ∃ i, (m.engine.endTick k.deadline).now = m.engine.now + i * interval := by
    rcases h.now_endTick hinterval hp with heq | ⟨heq, -⟩
    · exact ⟨1, by rw [heq, Nat.one_mul]⟩
    · exact ⟨0, by rw [heq, Nat.zero_mul, Nat.add_zero]⟩
  constructor
  · intro k' hk
    change (Phase.leave k : Phase β).frame? = some k' at hk
    rw [Phase.frame?_leave] at hk
    cases hk
  · intro id hid
    rw [hsame] at hid
    exact m.issued_move_subset _ _ _ (h.issued id hid)
  · intro id a ha
    rw [hsame] at ha
    obtain ⟨i, hi⟩ := hmoved
    obtain ⟨j, hj⟩ := h.apart id a ha
    refine ⟨j + i, ?_⟩
    change (m.engine.endTick k.deadline).now = _
    rw [hi, hj, Nat.add_mul, Nat.add_assoc]
  · intro t ht
    rw [hsame]
    change t ∈ (m.engine.endTick k.deadline).queue.toList at ht
    rw [htasks.queue] at ht
    exact (h.queued t ht).imp_left (·.move _ _ _)
  · intro t ht
    change t ∈ (Phase.leave k).pending at ht
    rw [Phase.pending_leave] at ht
    cases ht
  · intro t ht
    change t ∈ (Phase.leave k).toCome at ht
    rw [Phase.toCome_leave] at ht
    cases ht
  · intro hs _ id a ha
    rw [hsame] at ha
    refine Nat.le_trans (Nat.add_le_add_right (h.le_now ha) least) (hleast fun hstopped => ?_)
    exact hs (htasks.stopped.mpr hstopped)
  · intro t ht
    rw [hsame]
    rw [scheduled_move, List.filterMap_nil, List.append_nil] at ht
    exact h.spaced t ht

/-- A move that leaves the queue alone as well. -/
theorem quiet (h : m.Paced interval least) {e : Engine β} {p : Phase β} {ns : List (Note β)}
    (hclock : e.clock = m.engine.clock) (hstarts : ∀ id, ns.filterMap (Note.start? id) = [])
    (hnew : ns.filterMap Note.scheduled? = []) (hqueue : e.queue = m.engine.queue)
    (hframe : ∀ k, p.frame? = some k → m.phase.frame? = some k)
    (hpending : p.pending ⊆ m.phase.pending) (hcoming : p.toCome ⊆ m.phase.toCome)
    (hopens : p.opens = true → m.phase.opens = true)
    (hlive : e.state ≠ .stopped → m.engine.state ≠ .stopped) :
    (m.move e p ns).Paced interval least := by
  have hnow : e.now = m.engine.now := congrArg Clock.now hclock
  refine h.keep hclock hstarts ?_ ?_ (fun t ht => Or.inl (hqueue ▸ ht)) (fun t ht => Or.inl (hpending ht))
    (fun t ht => Or.inl (hcoming ht)) fun hs hp => ⟨hlive hs, hopens hp⟩
  · rw [hnew]
    rintro _ ⟨⟩
  · exact fun k hk => (h.frame k (hframe k hk)).trans (by rw [hnow])

/-- A boundary action is over. -/
theorem past (h : m.Paced interval least) {e : Engine β} {k : TickFrame} {which : Boundary}
    (hclock : e.clock = m.engine.clock) (hqueue : e.queue = m.engine.queue)
    (hframe : m.phase.frame? = some k) (hopens : which = .first → m.phase.opens = true)
    (hlive : e.state ≠ .stopped → m.engine.state ≠ .stopped) :
    (m.move e (.past k which) []).Paced interval least := by
  refine h.quiet hclock (fun _ => rfl) rfl hqueue ?_ ?_ ?_ ?_ hlive
  · intro k' hk
    rw [Phase.frame?_past] at hk
    exact hframe.trans hk
  · rw [Phase.pending_past]
    exact List.nil_subset _
  · rw [Phase.toCome_past]
    exact List.nil_subset _
  · exact fun ho => hopens (Phase.eq_first_of_opens_past ho)

theorem call (h : m.Paced interval least) (hs : m.Sound) (c : EngineCall β)
    (hclock : (c.effect m.engine).clock = m.engine.clock)
    (hlive : (c.effect m.engine).state ≠ .stopped → m.engine.state ≠ .stopped) :
    (m.move (c.effect m.engine) m.phase (c.notes m.engine)).Paced interval least := by
  refine h.keep hclock (c.start_notes _) ?_ ?_ ?_ (fun _ => Or.inl) (fun _ => Or.inl)
    fun hs hp => ⟨hlive hs, hp⟩
  · intro t ht
    rw [c.scheduled_notes ht]
    exact hs.ledger.next_not_issued
  · exact fun k hk => (h.frame k hk).trans (congrArg (·.now + interval) hclock.symm)
  · intro t ht
    rcases hs.ledger.call_queues c ht with ht | hnew
    · exact Or.inl ht
    · refine Or.inr ⟨⟨t, ?_, rfl⟩, ?_⟩
      · rw [scheduled_move]
        exact List.mem_append_right _ hnew
      · have hnone : m.starts t.id = [] := Decidable.byContradiction fun hne => by
          have hissued := h.issued t.id hne
          rw [c.scheduled_notes hnew] at hissued
          exact hs.ledger.next_not_issued hissued
        rw [hnone]
        rintro _ ⟨⟩

/-- The end of a turn, for any barrier: a task that comes back is due a period from now. -/
theorem finish (h : m.Paced interval least) (hs : m.Sound) {k : TickFrame} {t : Task β}
    {rest : List (Task β)} {b : TickBarrier} {ns : List (Note β)} (hpending : m.phase.pending = t :: rest)
    (hframe : m.phase.frame? = some k) (hcoming : ∀ u ∈ rest, u ∈ m.phase.toCome)
    (hstarts : ∀ id, ns.filterMap (Note.start? id) = []) (hnew : ns.filterMap Note.scheduled? = []) :
    (m.move ({ m.engine with barrier := b }.finish t) (.turns k rest) ns).Paced interval least := by
  rw [Engine.finish, Engine.complete_eq]
  refine h.keep rfl hstarts ?_ ?_ ?_ ?_ (fun u hu => Or.inl (hcoming u hu)) (by rintro - ⟨⟩)
  · rw [hnew]
    rintro _ ⟨⟩
  · intro k' hk
    cases hk
    exact h.frame k hframe
  · intro u hu
    change u ∈ TaskQueue.toList (ite _ _ _) at hu
    split at hu
    · rcases List.mem_cons.mp ((hs.ledger.queue.toList_insert _).mem_iff.mp hu) with rfl | hu
      · refine Or.inr ⟨?_, fun a ha => ?_⟩
        · obtain ⟨v, hv, heq⟩ := (h.pending t (hpending ▸ List.mem_cons_self)).move _ _ _
          exact ⟨v, hv, by rw [heq]⟩
        · have hle : a ≤ m.engine.now := h.le_now ha
          change min (a + t.period) Duration.max ≤ min (m.engine.now + t.period) Duration.max
          omega
      · exact Or.inl (List.mem_filter.mp hu).1
    · exact Or.inl hu
  · intro u hu
    rw [hpending]
    exact Or.inl (List.mem_cons_of_mem _ hu)

theorem launch (h : m.Paced interval least) (hs : m.Sound) (hinterval : interval ≤ Duration.second)
    {k : TickFrame} (hp : m.phase = .launching k) :
    (m.move (m.engine.launch k.deadline).2 (.turns k (m.engine.launch k.deadline).1)
      [.launched (m.engine.launch k.deadline).1]).Paced interval least := by
  obtain ⟨hdue, heq⟩ := Engine.launch_eq hs.ledger.queue hs.ledger.held_nodup k.deadline
  obtain ⟨-, hlist, -⟩ := hs.ledger.queue.popAllDue k.deadline
  have hdeadline := h.frame k (by rw [hp]; rfl)
  have hnow : m.engine.now < UInt64.size := m.engine.clock.now_lt
  rw [heq, hdue]
  refine h.keep rfl (fun _ => rfl) (by rintro _ ⟨⟩) ?_ ?_ ?_ ?_ (by rintro - ⟨⟩)
  · intro k' hk
    cases hk
    exact hdeadline
  · intro t ht
    rw [hlist] at ht
    exact Or.inl (List.mem_filter.mp ht).1
  · exact fun t ht => Or.inr (List.mem_filter.mp ht).1
  · intro t ht
    obtain ⟨hqueued, hbefore⟩ := List.mem_filter.mp ht
    have hlive := hs.ledger.live_of_held (List.mem_append_left _ (List.mem_map.mpr ⟨t, hqueued, rfl⟩))
    refine Or.inr fun a ha => ⟨h.rested hlive (by rw [hp]; rfl) t.id a ha, ?_⟩
    have hafter := (h.queued t hqueued).2 a ha
    have hbefore := of_decide_eq_true hbefore
    simp only [Duration.after, Duration.max, Duration.second, UInt64.size] at *
    omega

theorem step (h : m.Paced interval least) (hs : m.Sound) (hinterval : interval ≤ Duration.second)
    (hrate : m.engine.meter.interval = interval) (hstep : Steady least m m') :
    m'.Paced interval least := by
  obtain ⟨hstep, hclock, hleast⟩ := hstep
  have hlive : m'.engine.state ≠ .stopped → m.engine.state ≠ .stopped :=
    fun hne hstopped => hne (hs.stopped_reaches hstopped (.single hstep))
  cases hstep with
  | call c hp =>
    refine h.call hs c (hclock ?_) hlive
    intro k e
    rw [e] at hp
    cases hp
  | step hp _ he =>
    obtain ⟨-, rfl⟩ := Engine.enter_ok he
    refine h.keep rfl (fun _ => rfl) (by rintro _ ⟨⟩) ?_ (fun _ => Or.inl) (by rintro _ ⟨⟩)
      (by rintro _ ⟨⟩) fun hne _ => ⟨hlive hne, by rw [hp]; rfl⟩
    intro k hk
    cases hk
    exact (Engine.deadline_frame false _).trans (congrArg (m.engine.now + ·) hrate)
  | @tick drives _ hp he =>
    obtain ⟨-, -, _, -, rfl⟩ := Engine.start_ok he
    refine h.quiet rfl (fun _ => rfl) rfl rfl ?_ ?_ ?_ (fun _ => by rw [hp]; rfl) hlive <;>
      cases drives <;> first | exact List.nil_subset _ | rintro _ ⟨⟩
  | again hp he =>
    obtain ⟨-, -, rfl⟩ := Engine.continues_true he
    refine h.keep rfl (fun _ => rfl) (by rintro _ ⟨⟩) ?_ (fun _ => Or.inl) (by rintro _ ⟨⟩)
      (by rintro _ ⟨⟩) fun hne _ => ⟨hlive hne, by rw [hp]; rfl⟩
    intro k hk
    cases hk
    exact (Engine.deadline_frame true _).trans (congrArg (m.engine.now + ·) hrate)
  | leave hp he =>
    obtain ⟨-, rfl⟩ := Engine.continues_false he
    exact h.quiet rfl (fun _ => rfl) rfl rfl (by rintro _ ⟨⟩) (List.nil_subset _) (List.nil_subset _)
      (fun _ => by rw [hp]; rfl) hlive
  | absent hp =>
    refine h.past rfl rfl (by rw [hp]; rfl) ?_ hlive
    rintro rfl
    rw [hp]
    rfl
  | @pass k which t hp =>
    refine h.past (hclock (by rw [hp]; rintro _ ⟨⟩)) (Engine.SameTasks.settleBoundary which t _).queue
      (by rw [hp]; rfl) ?_ hlive
    rintro rfl
    rw [hp]
    rfl
  | @enter k which t hp =>
    refine h.quiet rfl (fun _ => rfl) rfl rfl ?_ (List.nil_subset _) (List.nil_subset _) ?_ hlive
    · intro k' hk
      rw [hp]
      exact hk
    · rw [hp]
      cases which <;> exact id
  | @settle k which t hp =>
    refine h.past (hclock (by rw [hp]; rintro _ ⟨⟩)) (Engine.SameTasks.settleBoundary which t _).queue
      (by rw [hp]; rfl) ?_ hlive
    rintro rfl
    rw [hp]
    rfl
  | launch hp => exact h.launch hs hinterval hp
  | start hp hf => exact h.start hs hp hf
  | @skip k t rest hp =>
    refine h.finish hs (b := m.engine.register.barrier) (by rw [hp]; rfl) (by rw [hp]; rfl) ?_ ?_ ?_
    · intro u hu
      rw [hp]
      exact List.mem_cons_of_mem _ hu
    · exact fun id => List.filterMap_cons_none (Note.start?_finishNote t _)
    · exact List.filterMap_cons_none (Engine.scheduled_finishNote t _)
  | @finish k t rest hp =>
    refine h.finish hs (b := m.engine.barrier) (by rw [hp]; rfl) (by rw [hp]; rfl) ?_ ?_ ?_
    · intro u hu
      rw [hp]
      exact hu
    · exact fun id => List.filterMap_cons_none (Note.start?_finishNote t _)
    · exact List.filterMap_cons_none (Engine.scheduled_finishNote t _)
  | advance hp =>
    refine h.quiet rfl (fun _ => rfl) rfl rfl ?_ (List.nil_subset _) (List.nil_subset _) (by rintro ⟨⟩)
      hlive
    intro k' hk
    rw [hp]
    exact hk
  | @release k b hp hb =>
    obtain ⟨hterm, -⟩ := TickBarrier.await?_false hb
    have hstopped := hs.control.terminated.mp hterm
    refine h.keep rfl (fun _ => rfl) (by rintro _ ⟨⟩) ?_ (fun _ => Or.inl) ?_ ?_ fun hne _ => ?_
    · intro k' hk
      rw [Phase.frame?_leave] at hk
      cases hk
    · rw [Phase.pending_leave]
      rintro _ ⟨⟩
    · rw [Phase.toCome_leave]
      rintro _ ⟨⟩
    · exact absurd hstopped hne
  | park hp => exact h.park hinterval hp (hleast _ hp)

theorem initial {config : EngineConfig} {e : Engine β} (he : Engine.create config = .ok e)
    (clock : Clock) : Paced interval least { engine := { e with clock } } := by
  obtain ⟨-, rfl⟩ := Engine.create_ok he
  exact {
    frame := by rintro _ ⟨⟩
    issued := fun _ hne => absurd rfl hne
    apart := by rintro _ _ ⟨⟩
    queued := by rintro _ ⟨⟩
    pending := by rintro _ ⟨⟩
    coming := by rintro _ ⟨⟩
    rested := by rintro _ _ _ _ ⟨⟩
    spaced := by rintro _ ⟨⟩ }

end Paced

/-- A run of a new engine, from any time on. -/
def RunsSteadily (config : EngineConfig) (least : Nat) (m : Machine β) : Prop :=
  ∃ e clock, Engine.create config = .ok e ∧
    Relation.ReflTransGen (Steady least) { engine := { e with clock } } m

theorem RunsSteadily.paced {config : EngineConfig} (h : m.RunsSteadily config least) :
    m.Sound ∧ m.Paced config.interval least := by
  obtain ⟨e, clock, he, hr⟩ := h
  suffices hall : m.Sound ∧ m.engine.meter.interval = config.interval ∧ m.Paced config.interval least from
    ⟨hall.1, hall.2.2⟩
  induction hr with
  | refl =>
    have hset : Step ({ engine := e } : Machine β) { engine := { e with clock } } :=
      .call (.setClock clock) rfl trivial
    refine ⟨(Sound.initial he).step hset, ?_, .initial he clock⟩
    rw [(Engine.create_ok he).2]
    rfl
  | tail _ hs ih =>
    obtain ⟨hsound, hrate, hpaced⟩ := ih
    refine ⟨hsound.step hs.1, ?_, hpaced.step hsound (Nat.div_le_self _ _) hrate hs⟩
    exact (congrArg EngineConfig.tickInterval hs.1.rate).trans hrate

end Machine

end Vivarium
