import Mathlib.Data.List.Nodup
import Vivarium.Proofs.Stopping
import Vivarium.Proofs.WholeTick

/-! # Tasks for the next tick

A task that waits has its turn in the next tick if and only if it is due before that tick ends. The end
is one interval after the beginning, and the interval of a rate above one tick in a nanosecond is zero,
so at such a rate even a task without a delay is left to wait.
-/

namespace Vivarium

theorem Clock.now_lt (c : Clock) : c.now < UInt64.size := c.nanos.toNat_lt

theorem EngineConfig.rate_pos {c : EngineConfig} (h : c.validate = .ok ()) : 0 < c.ticksPerSecond := by
  apply Nat.pos_of_ne_zero
  intro hzero
  rw [validate, if_pos hzero] at h
  cases h

theorem EngineConfig.interval_pos_iff {c : EngineConfig} (h : c.validate = .ok ()) :
    0 < c.interval ↔ c.ticksPerSecond ≤ Duration.second := by
  have hrate := rate_pos h
  rw [interval, tickInterval, Nat.div_pos_iff]
  omega

namespace Engine

variable {β : Type} {e : Engine β}

/-- The end of a tick is never cut off at the longest duration. -/
theorem deadline_frame (looped : Bool) (e : Engine β) :
    (e.frame looped).deadline = e.now + e.meter.interval := by
  have hnow : e.now < UInt64.size := e.clock.now_lt
  have hinterval : e.meter.interval ≤ Duration.second := Nat.div_le_self _ _
  refine Duration.after_eq_add ?_
  simp only [UInt64.size, Duration.second, Duration.max] at *
  omega

theorem due_newTask (work : β) (period : Nat) (e : Engine β) : (e.newTask work 0 period).due = e.now := by
  have hnow : e.now < UInt64.size := e.clock.now_lt
  refine Duration.after_eq_add ?_
  simp only [UInt64.size, Duration.max] at *
  omega

theorem held_of_active (h : e.queue.WellFormed) {id : TaskId} (ha : e.isActive id = true) :
    id ∈ e.held :=
  List.mem_append.mpr (((isActive_iff h).mp ha).imp_right (·.1))

end Engine

namespace Machine

variable {β : Type} {m m' s x y q r : Machine β} {k : TickFrame} {t : Task β}
  {opening turning closing : List (Note β)}

/-! ## The rate of an engine -/

theorem Step.rate (hs : m.Step m') :
    m'.engine.meter.ticksPerSecond = m.engine.meter.ticksPerSecond := by
  have hbegin : ∀ (now : Nat) (meter : TickMeter),
      (meter.beginTick now).ticksPerSecond = meter.ticksPerSecond := by
    intro now meter
    unfold TickMeter.beginTick
    split
    · rfl
    · simp only
      split <;> rfl
  cases hs with
  | call c => exact congrArg (·.ticksPerSecond) (c.meter_effect _)
  | step _ _ he =>
    obtain ⟨-, rfl⟩ := Engine.enter_ok he
    exact hbegin _ _
  | tick _ he =>
    obtain ⟨-, -, _, -, rfl⟩ := Engine.start_ok he
    rfl
  | again _ he =>
    obtain ⟨-, -, rfl⟩ := Engine.continues_true he
    exact hbegin _ _
  | leave _ he =>
    obtain ⟨-, rfl⟩ := Engine.continues_false he
    rfl
  | @pass k which t | @settle k which t =>
    exact congrArg (·.ticksPerSecond) (Engine.meter_settleBoundary which t _)
  | skip | finish =>
    rw [Engine.finish, Engine.complete_eq]
    rfl
  | @park k =>
    rcases Engine.park_cases k.deadline { m.engine with meter := m.engine.meter.endTick } with
      ⟨-, heq⟩ | ⟨-, heq⟩ <;> rw [Engine.endTick, heq] <;> rfl
  | _ => rfl

theorem Reaches.rate (hr : m.Reaches m') :
    m'.engine.meter.ticksPerSecond = m.engine.meter.ticksPerSecond := by
  induction hr with
  | refl => rfl
  | tail _ hs ih => exact hs.rate.trans ih

/-! ## Waiting -/

/-- Calls come from outside, and nothing else happens. -/
def Hears : Machine β → Machine β → Prop :=
  Relation.ReflTransGen fun m m' =>
    m.phase = .idle ∧ ∃ c, m.Allows c ∧ m' = m.move (c.effect m.engine) m.phase (c.notes m.engine)

theorem Hears.reaches (h : m.Hears s) : m.Reaches s := by
  refine Relation.ReflTransGen.mono ?_ _ _ h
  rintro x _ ⟨hp, c, hc, rfl⟩
  exact .call c (by rw [hp]; rfl) hc

theorem Hears.idle (h : m.Hears s) (hp : m.phase = .idle) : s.phase = .idle := by
  induction h with
  | refl => exact hp
  | tail _ hs ih =>
    obtain ⟨hp, c, -, rfl⟩ := hs
    exact hp

theorem Hears.begun (h : m.Hears s) : s.begun = m.begun := by
  induction h with
  | refl => rfl
  | tail _ hs ih =>
    obtain ⟨-, c, -, rfl⟩ := hs
    exact (begun_move_of_nil (c.begun_notes _)).trans ih

/-- Only a launch or a cancellation takes a task out of the queue. -/
theorem Sound.step_keeps (h : x.Sound) (hs : x.Step y) (hl : ∀ k, x.phase ≠ .launching k)
    (ht : t ∈ x.engine.queue.toList) (ha : y.engine.isActive t.id = true) :
    t ∈ y.engine.queue.toList := by
  have hy := (h.step hs).ledger
  have hheld := Engine.held_of_active hy.queue ha
  obtain ⟨ns, hns⟩ := h.ledger.step_balances hs hl (hy.live (hy.live_of_held hheld))
  refine hns.queue.mem_iff.mpr (List.mem_filter.mpr ⟨?_, decide_eq_true fun hid => ?_⟩)
  · exact List.mem_append_left _ (List.mem_append_left _ ht)
  · refine hy.not_held_of_gone (gone_of_withdrawn ?_) hheld
    rw [hns.journal, List.filterMap_append]
    exact List.mem_append_right _ hid

theorem Ledger.schedule_queues (h : m.Ledger) (hs : m.engine.state ≠ .stopped) (work : β)
    (delay period : Nat) : m.engine.newTask work delay period ∈
      (EngineCall.effect m.engine (.schedule work delay period)).queue.toList := by
  simp only [EngineCall.effect, Engine.schedule_ok hs]
  exact (h.queue.toList_insert _).mem_iff.mpr List.mem_cons_self

/-- What is active now was active when it was queued. -/
theorem Sound.was_active (h : x.Sound) (ht : t ∈ x.engine.queue.toList) (hxy : x.Reaches y)
    (hym : y.Reaches m') (ha : m'.engine.isActive t.id = true) : y.engine.isActive t.id = true := by
  have hissued := h.ledger.held_issued (List.mem_append_left _ (List.mem_map.mpr ⟨t, ht, rfl⟩))
  exact ((h.reaches hxy).fades hym).active t.id
    (Nat.lt_of_lt_of_le (h.ledger.lt _ hissued) (h.fades hxy).next) ha

/-- A task that is active at the end of a step was so all along. -/
theorem Sound.active_throughout (h : m.Sound) (hp : m.phase = .idle) (ht : t ∈ m.engine.queue.toList)
    (ha : m'.engine.isActive t.id = true) (hy : m.beginStep.Works y) (hym : y.Works m') :
    y.engine.isActive t.id = true := by
  have hlive := h.ledger.live_of_held (List.mem_append_left _ (List.mem_map.mpr ⟨t, ht, rfl⟩))
  have hstep : m.Step m.beginStep :=
    .step hp (h.control.not_running hp) (Engine.enter_ticking hlive)
  exact h.was_active ht (Relation.ReflTransGen.head hstep (Works.reaches hy)) (Works.reaches hym) ha

theorem Sound.hears_keeps (h : m.Sound) (hs : m.Hears s) (ht : t ∈ m.engine.queue.toList)
    (ha : s.engine.isActive t.id = true) : t ∈ s.engine.queue.toList := by
  induction hs with
  | refl => exact ht
  | @tail x y hx hs ih =>
    obtain ⟨hp, c, hc, rfl⟩ := hs
    have hstep : x.Step _ := .call c (by rw [hp]; rfl) hc
    have hxs := Hears.reaches hx
    refine (h.reaches hxs).step_keeps hstep (by rw [hp]; rintro _ ⟨⟩) (ih ?_) ha
    exact h.was_active ht hxs (.single hstep) ha

/-- The launch of a single tick is to come. -/
def Early : Phase β → Prop
  | .facing k .first | .boundary k .first _ | .launching k => k.looped = false
  | _ => False

theorem Early.step (h : Early x.phase) (hl : ∀ k, x.phase ≠ .launching k) (hs : x.Step y) :
    Early y.phase := by
  cases hp : x.phase with
  | facing k which =>
    rw [hp] at h
    cases which with
    | first => rcases hs.of_facing hp with ⟨-, rfl⟩ | ⟨t, -, ⟨-, rfl⟩ | ⟨-, rfl⟩⟩ <;> exact h
    | last => cases h
  | boundary k which t =>
    rw [hp] at h
    cases which with
    | first =>
      rcases hs.of_boundary hp with ⟨c, -, rfl⟩ | rfl
      · rw [← hp] at h
        exact h
      · exact h
    | last => cases h
  | launching k => exact absurd hp (hl k)
  | _ => rw [hp] at h; cases h

/-- Until the launch an active task stays queued. -/
theorem Sound.early_keeps (h : x.Sound) (hw : x.Works y) (hearly : Early x.phase)
    (ht : t ∈ x.engine.queue.toList) (ha : y.engine.isActive t.id = true) :
    Late y.phase ∨ Early y.phase ∧ t ∈ y.engine.queue.toList := by
  induction hw with
  | refl => exact Or.inr ⟨hearly, ht⟩
  | @tail y z hw hs ih =>
    have hxy := Works.reaches hw
    have hy := h.reaches hxy
    rcases ih (h.was_active ht hxy (.single hs.2) ha) with hlate | ⟨hearly, ht⟩
    · exact Or.inl (hlate.step hs)
    · cases hp : y.phase with
      | launching k =>
        rw [hp] at hearly
        rw [hs.2.of_launching hp]
        exact Or.inl hearly
      | _ =>
        have hl : ∀ k, y.phase ≠ .launching k := by rw [hp]; rintro _ ⟨⟩
        exact Or.inr ⟨hearly.step hl hs.2, hy.step_keeps hs.2 hl ht ha⟩

/-! ## Having a turn -/

namespace WholeTick

/-- The first action is no task. -/
theorem opening_begun (h : WholeTick k m q r m' opening turning closing) (hm : m.Sound) {id : TaskId}
    (hid : id ∈ m.issued) : q.begun.count id = m.begun.count id := by
  have hnone : id ∉ opening.filterMap Note.begun? := by
    rw [h.opens, Option.mem_toList]
    intro hmem
    obtain ⟨t, ht, rfl⟩ := Option.map_eq_some_iff.mp hmem
    exact hm.boundaries.fresh .first t ht hid
  rw [Machine.begun, h.opened.2.2, List.filterMap_append, List.count_append,
    List.count_eq_zero.mpr hnone]
  rfl

/-- The bodies of a tick are those of its turns and of the boundary actions. -/
theorem count_begun (h : WholeTick k m q r m' opening turning closing) (hm : m.Sound) {id : TaskId}
    (hid : id ∈ m.issued) :
    m'.begun.count id = m.begun.count id + (turning.filterMap Note.begun?).count id := by
  have hmr := Works.reaches (h.opened.1.trans h.turned.1)
  have hnone : id ∉ closing.filterMap Note.begun? := by
    intro hmem
    rcases closing_begun h.closes h.skips with hnil | ⟨t, ht, heq⟩
    · rw [hnil] at hmem
      cases hmem
    · rw [heq, List.mem_singleton] at hmem
      exact (hm.reaches hmr).boundaries.fresh .last t ht (hmem ▸ hmr.issued hid)
  rw [← h.opening_begun hm hid, Machine.begun, h.closed.2, h.turned.2.2, List.filterMap_append,
    List.filterMap_append, List.filterMap_cons_none rfl, List.count_append, List.count_append,
    List.count_eq_zero.mpr hnone]
  rfl

theorem turning_begun (h : WholeTick k m q r m' opening turning closing) {id : TaskId}
    (hid : id ∈ turning.filterMap Note.begun?) : ∃ t, Note.turn t false ∈ turning ∧ t.id = id := by
  rw [h.starts] at hid
  obtain ⟨⟨t, flagged⟩, hmem, rfl⟩ := List.mem_map.mp hid
  obtain ⟨hturn, hno⟩ := List.mem_filter.mp hmem
  obtain ⟨n, hn, heq⟩ := List.mem_filterMap.mp hturn
  cases n <;> cases heq
  cases flagged
  · exact ⟨t, hn, rfl⟩
  · cases hno

theorem mem_batch_iff (h : WholeTick k m q r m' opening turning closing) :
    t ∈ q.batch k ↔ ∃ flagged, Note.turn t flagged ∈ turning := by
  rw [← h.turns, List.mem_map]
  constructor
  · rintro ⟨⟨t, flagged⟩, hmem, rfl⟩
    obtain ⟨n, hn, heq⟩ := List.mem_filterMap.mp hmem
    cases n <;> cases heq
    exact ⟨flagged, hn⟩
  · rintro ⟨flagged, hn⟩
    exact ⟨(t, flagged), List.mem_filterMap.mpr ⟨_, hn, rfl⟩, rfl⟩

end WholeTick

/-- The turn of a task that is active has no flag. -/
theorem Sound.unflagged_turn (h : y.Sound) {rest : List (Task β)} (hp : y.phase = .turns k (t :: rest))
    (ha : y.engine.isActive t.id = true) : y.engine.isFlagged t.id = false := by
  have hs := h.ledger.live_of_held (Engine.held_of_active h.ledger.queue ha)
  rcases (Engine.isActive_iff h.ledger.queue).mp ha with hqueued | ⟨-, hno⟩
  · refine absurd ?_ (h.ledger.not_flying_of_queued hqueued)
    rw [h.control.flight hs, hp]
    exact List.mem_cons_self
  · exact hno

/-- A task that waits when a step is taken, and is active for as long as its body has not begun, has
its turn in that tick if and only if it is due before the end of the tick. -/
theorem Sound.starts_if_due (h : s.Sound) (hp : s.phase = .idle) (ht : t ∈ s.engine.queue.toList)
    (hw : s.beginStep.Works m') (hi : m'.phase = .idle)
    (hactive : ∀ y, s.beginStep.Works y → y.Works m' → y.begun.count t.id = s.begun.count t.id →
      y.engine.isActive t.id = true) :
    m'.begun.count t.id =
      s.begun.count t.id + if t.due < s.engine.now + s.engine.meter.interval then 1 else 0 := by
  have hid : t.id ∈ s.engine.held := List.mem_append_left _ (List.mem_map.mpr ⟨t, ht, rfl⟩)
  have hissued := h.ledger.held_issued hid
  have hlive := h.ledger.live_of_held hid
  have hb : s.beginStep.Sound :=
    h.step (.step hp (h.control.not_running hp) (Engine.enter_ticking hlive))
  have hissued' : t.id ∈ s.beginStep.issued := s.issued_move_subset _ _ _ hissued
  have hbegun : s.beginStep.begun = s.begun := begun_move_of_nil rfl
  obtain ⟨q, r, opening, turning, closing, htick⟩ := hb.wholeTick hw hi rfl rfl
  obtain ⟨hsq, hpq, hjq⟩ := htick.opened
  obtain ⟨hqr, -, -⟩ := htick.turned
  have hrm := htick.closed.1
  have hq := hb.reaches hsq.reaches
  have hcount := htick.count_begun hb hissued'
  rw [hbegun] at hcount
  rw [hcount, ← Engine.deadline_frame false]
  refine congrArg (s.begun.count t.id + ·) ?_
  -- Bodies that have begun stay so, hence a task whose body does not begin in its turn is active at it.
  have hturn : ∀ flagged, Note.turn t flagged ∈ turning →
      t.id ∈ turning.filterMap Note.begun? ∨ flagged = false := by
    intro flagged hn
    refine or_iff_not_imp_left.mpr fun hno => ?_
    obtain ⟨y, rest, hqy, hyr, hpy, rfl⟩ := htick.flags t flagged hn
    have hsy := hsq.trans hqy
    have hym := hyr.trans hrm
    refine (hb.reaches (Works.reaches hsy)).unflagged_turn hpy (hactive y hsy hym ?_)
    have hmono : ∀ {a b : Machine β}, a.Works b → a.begun.count t.id ≤ b.begun.count t.id :=
      fun hw => ((Works.reaches hw).journal.filterMap _).sublist.count_le _
    have hlow := hmono hsy
    have hhigh := hmono hym
    rw [hcount, List.count_eq_zero.mpr hno] at hhigh
    rw [hbegun] at hlow
    omega
  have hqueued : t ∈ q.engine.queue.toList := by
    have hcountq : q.begun.count t.id = s.begun.count t.id := by
      rw [htick.opening_begun hb hissued', hbegun]
    have haq := hactive q hsq (hqr.trans hrm) hcountq
    rcases hb.early_keeps hsq rfl ht haq with hlate | ⟨-, hqueued⟩
    · rw [hpq] at hlate
      cases hlate
    · exact hqueued
  split
  · next hdue =>
    obtain ⟨flagged, hn⟩ := htick.mem_batch_iff.mp (List.mem_filter.mpr ⟨hqueued, decide_eq_true hdue⟩)
    have hmem : t.id ∈ turning.filterMap Note.begun? := by
      rcases hturn flagged hn with hmem | rfl
      · exact hmem
      · rw [htick.starts]
        exact List.mem_map.mpr ⟨(t, false), List.mem_filter.mpr
          ⟨List.mem_filterMap.mpr ⟨_, hn, rfl⟩, rfl⟩, rfl⟩
    have hnodup := htick.once
    rw [List.filterMap_append] at hnodup
    exact List.count_eq_one_of_mem (List.nodup_append.mp hnodup).1 hmem
  · next hdue =>
    rw [List.count_eq_zero]
    intro hmem
    obtain ⟨u, hn, heq⟩ := htick.turning_begun hmem
    have hu := List.mem_filter.mp (htick.mem_batch_iff.mpr ⟨false, hn⟩)
    cases List.inj_on_of_nodup_map hq.ledger.queue.ids_nodup hu.1 hqueued heq
    exact hdue (of_decide_eq_true hu.2)

end Machine

theorem Simulation.Ends.step_works {μ : Type} {s : Simulation (Code μ) μ} (h : s.Ends)
    (hs : s.engine.state ≠ .stopped) (bound : Nat) :
    ∃ s', Simulation.step (Simulation.runCode (bound + 1)) s = .ok (.ok (), s') ∧
      ∃ m m' : Machine (Job (Code μ)), m.Reachable ∧ m.phase = .idle ∧ m.engine = s.engine ∧
        m.beginStep.Works m' ∧ m'.phase = .idle ∧ m'.engine = s'.engine := by
  obtain ⟨m, hm, hp, ht⟩ := h.tied
  have htotal : (Code.total μ).Tied m s := ⟨ht.sound, ht.serves, ht.engine, ht.seen⟩
  rw [ht.engine] at hs
  obtain ⟨s', m', hact, hworks, hp', ht'⟩ :=
    Conduct.step_returns (Code.total_obeys bound) (fun _ => id) htotal hp hs
  exact ⟨s', hact, m, m', hm, hp, ht.engine.symm, hworks, hp', ht'.engine.symm⟩

/-- A task without a delay that stays active begins in the next step if and only if the time at which
it was scheduled is before the end of that tick. If the clock has not been set back this is so for
every rate up to one tick in a nanosecond. -/
theorem undelayed_task_begins_before_deadline {β μ : Type} :
    (∀ (config : EngineConfig) (e : Engine β), Engine.create config = .ok e →
      ∀ m : Machine β, Machine.Reaches { engine := e } m → m.phase = .idle →
        ∀ work period id e', m.engine.schedule work 0 period = .ok (id, e') →
          ∀ s, (m.calls [.schedule work 0 period]).Hears s →
            ∀ m', s.beginStep.Works m' → m'.phase = .idle →
              (∀ y, s.beginStep.Works y → y.Works m' → y.begun.count id = m.begun.count id →
                y.engine.isActive id = true) →
              m'.begun.count id =
                m.begun.count id + if m.engine.now < s.engine.now + config.interval then 1 else 0) ∧
      (∀ config : EngineConfig, config.validate = .ok () →
        (0 < config.interval ↔ config.ticksPerSecond ≤ Duration.second)) ∧
      ∀ s : Simulation (Code μ) μ, s.Ends → s.engine.state ≠ .stopped → ∀ bound,
        ∃ s', Simulation.step (Simulation.runCode (bound + 1)) s = .ok (.ok (), s') ∧
          ∃ m m' : Machine (Job (Code μ)), m.Reachable ∧ m.phase = .idle ∧ m.engine = s.engine ∧
            m.beginStep.Works m' ∧ m'.phase = .idle ∧ m'.engine = s'.engine := by
  refine ⟨?_, fun _ => EngineConfig.interval_pos_iff, fun _ hs => hs.step_works⟩
  intro config e he m hm hp work period id e' hsched s hs m' hw hi hactive
  have h : m.Sound := (Machine.Sound.initial he).reaches hm
  have hlive : m.engine.state ≠ .stopped := by
    intro hstopped
    rw [Engine.schedule_of_stopped hstopped] at hsched
    cases hsched
  rw [Engine.schedule_ok hlive] at hsched
  cases hsched
  -- The call queues the new task, and until the step it stays there.
  have hstep : m.Step (m.calls [.schedule work 0 period]) := .call _ (by rw [hp]; rfl) trivial
  have h₁ := h.step hstep
  have hs₁ := h₁.reaches hs.reaches
  have hbegun : s.begun = m.begun :=
    hs.begun.trans (Machine.begun_move_of_nil (EngineCall.begun_notes _ _))
  have ht : m.engine.newTask work 0 period ∈
      (m.calls [.schedule work 0 period]).engine.queue.toList := h.ledger.schedule_queues hlive _ _ _
  have hinterval : s.engine.meter.interval = config.interval := by
    have hrate := Machine.Reaches.rate ((hm.tail hstep).trans hs.reaches)
    rw [(Engine.create_ok he).2] at hrate
    exact congrArg EngineConfig.tickInterval hrate
  have hbegin : s.beginStep.begun = m.begun := (Machine.begun_move_of_nil rfl).trans hbegun
  have hactive₁ : s.engine.isActive ⟨m.engine.nextTask⟩ = true :=
    hactive s.beginStep .refl hw (congrArg (List.count _) hbegin)
  have hqueued := h₁.hears_keeps hs ht hactive₁
  rw [← hbegun] at hactive ⊢
  rw [← hinterval, ← Engine.due_newTask work period m.engine]
  exact hs₁.starts_if_due (hs.idle hp) hqueued hw hi hactive

namespace Machine

/-- A new engine without tasks. -/
def fresh (rate : Nat) : Machine Unit where
  engine := { config := (EngineConfig.standard 1).withTicksPerSecond rate
              meter := { ticksPerSecond := rate } }

/-- A new engine with one periodic task. -/
def lone (rate : Nat) : Machine Unit := (fresh rate).calls [.schedule () 0 1]

theorem lone_sound {rate : Nat} (h : Engine.create ((EngineConfig.standard 1).withTicksPerSecond rate) =
    .ok (fresh rate).engine) : (lone rate).Sound :=
  (Sound.initial h).reaches (reaches_calls rfl (by simp))

/-- The tick in which the task has its turn. -/
theorem lone_works : ∃ m', (lone 30).beginStep.Works m' ∧ m'.phase = .idle ∧
    m'.engine.isActive ⟨0⟩ = true := by
  have hsound : (lone 30).Sound := lone_sound rfl
  have hledger := hsound.ledger
  have hdue : ((lone 30).beginStep.engine.launch ((lone 30).engine.frame false).deadline).1 =
      [⟨⟨0⟩, (), 1, 0⟩] := (Engine.launch_eq hledger.queue hledger.held_nodup _).1
  have hw : (lone 30).beginStep.Works (lone 30).beginStep := .refl
  have hw := hw.after (by rintro ⟨⟩) (.absent rfl rfl)
  have hw := hw.after (by rintro ⟨⟩) (.launch rfl)
  have hw := hw.after (by rintro ⟨⟩) (.start (congrArg (Phase.turns _) hdue) (by decide +kernel))
  have hw := hw.after (by rintro ⟨⟩) (.finish rfl)
  have hw := hw.after (by rintro ⟨⟩) (.advance (b := { generation := 1 }) rfl (by decide +kernel))
  have hw := hw.after (by rintro ⟨⟩) (.absent rfl (by decide +kernel))
  have hw := hw.after (by rintro ⟨⟩) (.park rfl)
  exact ⟨_, hw, rfl, by decide +kernel⟩

theorem lone_begins : ∃ m', (lone 30).beginStep.Works m' ∧ m'.phase = .idle ∧
    m'.begun.count ⟨0⟩ = 1 := by
  obtain ⟨m', hw, hi, ha⟩ := lone_works
  have hcount := (undelayed_task_begins_before_deadline (μ := Unit)).1 (.standard 1) _ rfl (fresh 30)
    .refl rfl () 1 ⟨0⟩ _ rfl (lone 30) .refl m' hw hi
    fun y hy hym _ => (lone_sound rfl).active_throughout rfl List.mem_cons_self ha hy hym
  exact ⟨m', hw, hi, hcount.trans (by decide)⟩

/-- The tick at a rate of two ticks in a nanosecond ends when it begins, so nothing is due before. -/
theorem idle_tick_works : ∃ m', (lone 2000000000).beginStep.Works m' ∧ m'.phase = .idle ∧
    m'.engine.isActive ⟨0⟩ = true ∧ m'.begun = [] := by
  have hsound : (lone 2000000000).Sound := lone_sound rfl
  have hledger := hsound.ledger
  have hdue : ((lone 2000000000).beginStep.engine.launch
      ((lone 2000000000).engine.frame false).deadline).1 = [] :=
    (Engine.launch_eq hledger.queue hledger.held_nodup _).1
  have hw : (lone 2000000000).beginStep.Works (lone 2000000000).beginStep := .refl
  have hw := hw.after (by rintro ⟨⟩) (.absent rfl rfl)
  have hw := hw.after (by rintro ⟨⟩) (.launch rfl)
  have hw := hw.after (by rintro ⟨⟩) (.advance (b := { generation := 1 })
    (congrArg (Phase.turns _) hdue) (by decide +kernel))
  have hw := hw.after (by rintro ⟨⟩) (.absent rfl (by decide +kernel))
  have hw := hw.after (by rintro ⟨⟩) (.park rfl)
  exact ⟨_, hw, rfl, by decide +kernel, by decide +kernel⟩

/-- Not every valid rate lets a task without a delay begin in the next step. -/
theorem undelayed_task_may_be_left_waiting :
    ¬∀ (config : EngineConfig) (e : Engine Unit), Engine.create config = .ok e →
      ∀ m : Machine Unit, Machine.Reaches { engine := e } m → m.phase = .idle →
        ∀ work period id e', m.engine.schedule work 0 period = .ok (id, e') →
          ∀ m', (m.calls [.schedule work 0 period]).beginStep.Works m' → m'.phase = .idle →
            (∀ y, (m.calls [.schedule work 0 period]).beginStep.Works y → y.Works m' →
              y.begun.count id = m.begun.count id → y.engine.isActive id = true) →
            m'.begun.count id = m.begun.count id + 1 := by
  intro hclaim
  obtain ⟨m', hw, hi, ha, hbegun⟩ := idle_tick_works
  have hcount := hclaim ((EngineConfig.standard 1).withTicksPerSecond 2000000000) _ rfl
    (fresh 2000000000) .refl rfl () 1 ⟨0⟩ _ rfl m' hw hi
    fun y hy hym _ => (lone_sound rfl).active_throughout rfl List.mem_cons_self ha hy hym
  rw [hbegun] at hcount
  cases hcount

end Machine

end Vivarium
