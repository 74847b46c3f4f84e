import Vivarium.Proofs.Pace

/-! # The stride of a periodic task

The begins of a periodic task are one stride apart at least: as many whole intervals as fit into its
period, and one if none does. So a period of whole intervals is kept, and any other is cut short by
less than one interval.
-/

namespace Vivarium

/-- The least time from one begin of a periodic task to the next, if every tick takes its interval. -/
def EngineConfig.stride (c : EngineConfig) (period : Nat) : Nat := max 1 (period / c.interval) * c.interval

namespace EngineConfig

variable {c : EngineConfig} {period : Nat}

theorem lt_stride_add (h : 0 < c.interval) (period : Nat) : period < c.stride period + c.interval := by
  have hdiv : period < (period / c.interval + 1) * c.interval :=
    (Nat.div_lt_iff_lt_mul h).mp (Nat.lt_succ_self _)
  have hmax := Nat.mul_le_mul_right c.interval (Nat.le_max_right 1 (period / c.interval))
  rw [Nat.succ_mul] at hdiv
  rw [stride]
  omega

theorem le_stride (h : period ≤ c.interval ∨ c.interval ∣ period) : period ≤ c.stride period := by
  rcases h with hle | hdvd
  · have hmax := Nat.mul_le_mul_right c.interval (Nat.le_max_left 1 (period / c.interval))
    rw [Nat.one_mul] at hmax
    exact Nat.le_trans hle hmax
  · have hmax := Nat.mul_le_mul_right c.interval (Nat.le_max_right 1 (period / c.interval))
    rwa [Nat.div_mul_cancel hdvd] at hmax

end EngineConfig

theorem Machine.Spaced.stride {c : EngineConfig} {least period a b : Nat}
    (h : Spaced c.interval least period a b) (hlong : c.interval ≤ period ∨ c.interval ≤ least) :
    a + c.stride period ≤ b := by
  obtain ⟨j, rfl, hdue, hleast⟩ := h
  have hpos : 0 < c.interval := by
    refine Nat.pos_of_ne_zero fun hzero => ?_
    rw [hzero, Nat.mul_zero] at hdue
    cases hdue
  have hfit : period / c.interval ≤ j := Nat.le_of_lt_succ ((Nat.div_lt_iff_lt_mul hpos).mpr hdue)
  have hone : 1 ≤ j := by
    rcases hlong with hlong | hlong
    · exact Nat.le_trans (Nat.div_pos hlong hpos) hfit
    · refine Nat.pos_of_ne_zero fun hzero => ?_
      rw [hzero, Nat.zero_mul] at hleast
      omega
  exact Nat.add_le_add_left (Nat.mul_le_mul_right c.interval (Nat.max_le.mpr ⟨hone, hfit⟩)) a

/-! ## The end of a tick -/

theorem EngineCall.not_created {β : Type} (c : EngineCall β) {e : Engine β} (h : e.state ≠ .created) :
    (c.effect e).state ≠ .created := by
  cases c with
  | pause =>
    rcases Engine.effect_pause e with heq | ⟨-, heq⟩ <;> rw [heq]
    · exact h
    · rintro ⟨⟩
  | stop =>
    by_cases hs : e.state = .stopped
    · rw [effect, Engine.stop_of_stopped hs]
      exact h
    · rw [effect, (Engine.stop_of_live hs).2]
      rintro ⟨⟩
  | _ =>
    rw [(Engine.SameControl.effect rfl e).state]
    exact h

namespace Machine

variable {β : Type} {m m' : Machine β}

/-- An operation that runs the engine takes it out of its first state at once. -/
theorem Step.not_created (hs : m.Step m') (h : m.phase ≠ .idle → m.engine.state ≠ .created)
    (hp' : m'.phase ≠ .idle) : m'.engine.state ≠ .created := by
  have hin : ∀ {p : Phase β}, m.phase = p → p ≠ .idle → m.engine.state ≠ .created :=
    fun hp hne => h (hp ▸ hne)
  cases hs with
  | call c => exact c.not_created (h hp')
  | step _ _ he =>
    obtain ⟨-, rfl⟩ := Engine.enter_ok he
    rintro ⟨⟩
  | tick _ he =>
    obtain ⟨-, -, state, hr, rfl⟩ := Engine.start_ok he
    rintro (rfl : state = .created)
    cases hr
  | again _ he =>
    obtain ⟨-, -, rfl⟩ := Engine.continues_true he
    rintro ⟨⟩
  | leave => exact absurd rfl hp'
  | pass hp | settle hp =>
    change (Engine.settleBoundary _ _ _).state ≠ .created
    rw [(Engine.SameControl.settleBoundary _ _ _).state]
    exact hin hp (by rintro ⟨⟩)
  | skip hp | finish hp =>
    change (Engine.complete _ _).state ≠ .created
    rw [Engine.complete_eq]
    exact hin hp (by rintro ⟨⟩)
  | @park k hp =>
    change (m.engine.endTick k.deadline).state ≠ .created
    rcases Engine.park_cases k.deadline { m.engine with meter := m.engine.meter.endTick } with
      ⟨-, heq⟩ | ⟨-, heq⟩ <;> rw [Engine.endTick, heq]
    · rintro ⟨⟩
    · exact hin hp (by rintro ⟨⟩)
  | absent hp | enter hp | launch hp | start hp | advance hp | release hp =>
    exact hin hp (by rintro ⟨⟩)

variable {config : EngineConfig} {least : Nat}

theorem RunsSteadily.not_created (h : m.RunsSteadily config least) (hp : m.phase ≠ .idle) :
    m.engine.state ≠ .created := by
  obtain ⟨e, clock, -, hr⟩ := h
  induction hr with
  | refl => exact absurd rfl hp
  | tail _ hs ih => exact hs.1.not_created ih hp

theorem RunsSteadily.ends_tick (h : m.RunsSteadily config least) {k : TickFrame} (hp : m.phase = .parking k)
    (hs : m.Step m') :
    m'.engine.now = m.engine.now + config.interval ∨ m'.engine.now = m.engine.now ∧
      (m.engine.state = .paused ∨ m.engine.state = .stopped ∨
        UInt64.size ≤ m.engine.now + config.interval) := by
  have hbegun := h.not_created (by rw [hp]; rintro ⟨⟩)
  rw [hs.of_parking hp]
  refine (h.paced.2.now_endTick (Nat.div_le_self _ _) hp).imp_right ?_
  rintro ⟨hstands, hrests | htop⟩
  · refine ⟨hstands, ?_⟩
    cases hstate : m.engine.state with
    | created => exact absurd hstate hbegun
    | ticking | waiting =>
      rw [hstate] at hrests
      cases hrests
    | paused => exact Or.inl rfl
    | stopped => exact Or.inr (Or.inl rfl)
  · exact ⟨hstands, Or.inr (Or.inr htop)⟩

end Machine

/-! ## Begins in a span of time -/

/-- Times that lie apart fill the time before the last of them. -/
theorem apart_le {stride x last : Nat} {xs : List Nat}
    (h : (x :: xs).Pairwise fun a b => a + stride ≤ b) (hlast : ∀ a ∈ x :: xs, a ≤ last) :
    x + xs.length * stride ≤ last := by
  induction xs generalizing x with
  | nil =>
    rw [List.length_nil, Nat.zero_mul]
    exact hlast x List.mem_cons_self
  | cons y ys ih =>
    obtain ⟨hx, hys⟩ := List.pairwise_cons.mp h
    have hy := hx y List.mem_cons_self
    have hrest := ih hys fun a ha => hlast a (List.mem_cons_of_mem x ha)
    rw [List.length_cons, Nat.succ_mul]
    omega

/-- How many times that lie apart a span can hold. -/
theorem length_filter_span_le {stride : Nat} (hstride : 0 < stride) {times : List Nat}
    (h : times.Pairwise fun a b => a + stride ≤ b) (lo span : Nat) :
    (times.filter fun a => lo ≤ a ∧ a ≤ lo + span).length ≤ span / stride + 1 := by
  have hall : ∀ a ∈ times.filter fun a => lo ≤ a ∧ a ≤ lo + span, lo ≤ a ∧ a ≤ lo + span :=
    fun a ha => of_decide_eq_true (List.mem_filter.mp ha).2
  have hpairs := h.filter fun a => lo ≤ a ∧ a ≤ lo + span
  cases hlist : times.filter fun a => lo ≤ a ∧ a ≤ lo + span with
  | nil => exact Nat.zero_le _
  | cons x xs =>
    rw [hlist] at hall hpairs
    have hfill := apart_le hpairs fun a ha => (hall a ha).2
    have hx := (hall x List.mem_cons_self).1
    rw [List.length_cons, Nat.add_le_add_iff_right, Nat.le_div_iff_mul_le hstride]
    omega

namespace Simulation

variable {μ : Type}

/-- A session of an engine of this configuration has come to its end. The clock stands anywhere at
first, and nothing in the session moves it. -/
def EndsStill (config : EngineConfig) (s : Simulation (Code μ) μ) : Prop :=
  ∃ (e : Engine (Job (Code μ))) (clock : Clock) (s₀ : Simulation (Code μ) μ) (bound : Nat) (r : Role)
      (p : Program μ r) (a : r.Answer),
    Engine.create config = .ok e ∧ s₀.engine = { e with clock } ∧ p.Asks Request.Outside ∧ p.Still ∧
      execute bound p s₀ = .ok (a, s)

theorem EndsStill.runsSteadily {config : EngineConfig} {s : Simulation (Code μ) μ}
    (h : s.EndsStill config) :
    ∃ m : Machine (Job (Code μ)), m.RunsSteadily config 0 ∧ m.phase = .idle ∧ m.engine = s.engine := by
  obtain ⟨e, clock, s₀, bound, r, p, a, he, hs₀, hasks, hstill, hexec⟩ := h
  have hinit : (Code.keeping True μ).Tied { engine := e } { s₀ with engine := e } :=
    tied_initial True he rfl
  -- Setting the clock first is a call, after which the session begins.
  have hfit : EngineCall.IsFit (Code.keeping True μ).good ⟨0⟩ (.setClock clock) := trivial
  have hallow : Machine.Allows ({ engine := e } : Machine (Job (Code μ))) (.setClock clock) := trivial
  have hset : (Code.keeping True μ).Tied { engine := { e with clock } }
      { s₀ with engine := { e with clock } } := hinit.call rfl hallow hfit
  rw [← hs₀] at hset
  have hlead := Program.exec_outside bound p hasks (fun _ => hstill) hset rfl
  obtain ⟨m, hreach, ht, hp⟩ := hlead.of_run hexec
  refine ⟨m, ⟨e, clock, he, ?_⟩, hp, ht.engine.symm⟩
  rw [← hs₀]
  exact Relation.ReflTransGen.mono (fun _ _ hs => hs.steady fun _ hok => hok trivial) _ _ hreach

end Simulation

/-- A span of time holds no more begins of a task than strides and one. -/
theorem Machine.RunsSteadily.starts_in_span {β : Type} {config : EngineConfig} {least : Nat}
    {m : Machine β} (h : m.RunsSteadily config least) {t : Task β} (ht : t ∈ m.scheduled)
    (hlong : config.interval ≤ t.period ∨ config.interval ≤ least) (lo span : Nat) :
    ((m.starts t.id).filter fun a => lo ≤ a ∧ a ≤ lo + span).length ≤
      span / config.stride t.period + 1 := by
  have hspaced := h.paced.2.spaced t ht
  rcases Nat.eq_zero_or_pos config.interval with hzero | hpos
  · -- Without an interval nothing is due a second time.
    have hnever : (m.starts t.id).Pairwise fun a b => a + (span + 1) ≤ b := by
      refine hspaced.imp fun hs => ?_
      obtain ⟨j, -, hdue, -⟩ := hs
      rw [hzero, Nat.mul_zero] at hdue
      cases hdue
    refine Nat.le_trans (length_filter_span_le (Nat.succ_pos span) hnever lo span) ?_
    rw [Nat.div_eq_of_lt (Nat.lt_succ_self span)]
    exact Nat.le_add_left _ _
  · refine length_filter_span_le ?_ (hspaced.imp (·.stride hlong)) lo span
    exact Nat.mul_pos (Nat.lt_of_lt_of_le Nat.one_pos (Nat.le_max_left _ _)) hpos

/-- The begins of a periodic task are whole intervals apart and less than one interval short of its
period. If the period is an interval or more, or every tick takes its interval, they are a stride
apart, so a span of time holds no more of them than strides and one. A stride is less than one interval
short of the period, and not short if the period is at most one interval or whole intervals. A tick takes
its interval unless the engine is paused or stopped at its end, or the clock at the end of its range. -/
theorem periodic_begins_keep_stride {β μ : Type} :
    (∀ (config : EngineConfig) (least : Nat) (m : Machine β), m.RunsSteadily config least →
      ∀ t ∈ m.scheduled,
        ((m.starts t.id).Pairwise fun a b =>
          ∃ j, b = a + j * config.interval ∧ t.period < (j + 1) * config.interval) ∧
        (config.interval ≤ t.period ∨ config.interval ≤ least →
          ((m.starts t.id).Pairwise fun a b => a + config.stride t.period ≤ b) ∧
            ∀ lo span, ((m.starts t.id).filter fun a => lo ≤ a ∧ a ≤ lo + span).length ≤
              span / config.stride t.period + 1) ∧
        (0 < config.interval → t.period < config.stride t.period + config.interval) ∧
        (t.period ≤ config.interval ∨ config.interval ∣ t.period →
          t.period ≤ config.stride t.period)) ∧
      (∀ (config : EngineConfig) (least : Nat) (m : Machine β), m.RunsSteadily config least →
        ∀ k m', m.phase = .parking k → m.Step m' →
          m'.engine.now = m.engine.now + config.interval ∨ m'.engine.now = m.engine.now ∧
            (m.engine.state = .paused ∨ m.engine.state = .stopped ∨
              UInt64.size ≤ m.engine.now + config.interval)) ∧
      ∀ (config : EngineConfig) (s : Simulation (Code μ) μ), s.EndsStill config →
        ∃ m : Machine (Job (Code μ)), m.RunsSteadily config 0 ∧ m.phase = .idle ∧
          m.engine = s.engine := by
  refine ⟨fun config least m h t ht => ?_, fun config least m h k m' hp hs => h.ends_tick hp hs,
    fun _ _ hs => hs.runsSteadily⟩
  have hspaced := h.paced.2.spaced t ht
  refine ⟨hspaced.imp ?_, fun hlong => ⟨hspaced.imp (·.stride hlong), h.starts_in_span ht hlong⟩,
    fun hpos => EngineConfig.lt_stride_add hpos t.period, EngineConfig.le_stride⟩
  rintro a b ⟨j, hj, hdue, -⟩
  exact ⟨j, hj, hdue⟩

namespace Machine

theorem Steady.of_clock {β : Type} {least : Nat} {m m' : Machine β} (hs : m.Step m')
    (hp : ∀ k, m.phase ≠ .parking k) (hclock : m'.engine.clock = m.engine.clock) : Steady least m m' :=
  ⟨hs, fun _ => hclock, fun k e => absurd e (hp k)⟩

/-- A launch of one task, whose body begins. -/
theorem launch_begins {β : Type} {least : Nat} {s m : Machine β} {k : TickFrame} (id : TaskId)
    (hm : Relation.ReflTransGen (Steady least) s m) (hp : m.phase = .launching k)
    (hids : (m.engine.launch k.deadline).1.map (·.id) = [id]) (hf : m.engine.isFlagged id = false) :
    ∃ m', Relation.ReflTransGen (Steady least) s m' ∧ m'.starts id = m.starts id ++ [m.engine.now] := by
  obtain ⟨t, hdue, rfl⟩ := List.map_eq_singleton_iff.mp hids
  have hlaunch := hm.tail (.of_clock (.launch hp) (by rw [hp]; rintro _ ⟨⟩) rfl)
  have hstart := hlaunch.tail
    (.of_clock (.start (congrArg (Phase.turns k) hdue) hf) (by rintro _ ⟨⟩) rfl)
  refine ⟨_, hstart, ?_⟩
  rw [starts_move, starts_move, List.append_assoc, List.filterMap_cons_none rfl, List.filterMap_nil,
    List.nil_append, List.filterMap_cons_none rfl, List.filterMap_cons_some (Note.start?_started_self t _)]
  rfl

/-- A new engine at ten ticks in a second, with a task whose period is one and a half intervals. -/
def offbeat : Machine Unit := (fresh 10).calls [.schedule () 0 150000000]

theorem two_ticks : ∃ m : Machine Unit,
    m.RunsSteadily ((EngineConfig.standard 1).withTicksPerSecond 10) 100000000 ∧
      offbeat.scheduled ⊆ m.scheduled ∧ m.starts ⟨0⟩ = [0, 100000000] := by
  have hcall : Steady 100000000 (fresh 10) offbeat :=
    .of_clock (.call (.schedule () 0 150000000) rfl trivial) (by rintro _ ⟨⟩) rfl
  have hruns : ∀ {m : Machine Unit}, Relation.ReflTransGen (Steady 100000000) offbeat m →
      m.RunsSteadily ((EngineConfig.standard 1).withTicksPerSecond 10) 100000000 :=
    fun hw => ⟨(fresh 10).engine, {}, rfl, .head hcall hw⟩
  have hw : Relation.ReflTransGen (Steady 100000000) offbeat offbeat := .refl
  have hledger := (hruns hw).paced.1.ledger
  have hdue : (offbeat.beginStep.engine.launch (offbeat.engine.frame false).deadline).1 =
      [⟨⟨0⟩, (), 150000000, 0⟩] := (Engine.launch_eq hledger.queue hledger.held_nodup _).1
  have hw := hw.tail (.of_clock (.step rfl rfl (Engine.enter_ticking (by decide))) (by rintro _ ⟨⟩) rfl)
  have hw := hw.tail (.of_clock (.absent rfl rfl) (by rintro _ ⟨⟩) rfl)
  have hw := hw.tail (.of_clock (.launch rfl) (by rintro _ ⟨⟩) rfl)
  have hw := hw.tail (.of_clock (.start (congrArg (Phase.turns _) hdue) (by decide +kernel))
    (by rintro _ ⟨⟩) rfl)
  have hw := hw.tail (.of_clock (.finish rfl) (by rintro _ ⟨⟩) (Engine.clock_finish _ _))
  have hw := hw.tail (.of_clock (.advance (b := { generation := 1 }) rfl (by decide +kernel))
    (by rintro _ ⟨⟩) rfl)
  have hw := hw.tail (.of_clock (.absent rfl (by decide +kernel)) (by rintro _ ⟨⟩) rfl)
  have hw := hw.tail ⟨.park rfl, fun hp => absurd rfl (hp _), fun k e _ => by
    cases e
    decide +kernel⟩
  have hw := hw.tail (.of_clock (.step rfl (by decide +kernel) (Engine.enter_ticking (by decide +kernel)))
    (by rintro _ ⟨⟩) rfl)
  have hw := hw.tail (.of_clock (.absent rfl (by decide +kernel)) (by rintro _ ⟨⟩) rfl)
  obtain ⟨m, hm, hstarts⟩ := launch_begins ⟨0⟩ hw rfl (by decide +kernel) (by decide +kernel)
  have hreach : offbeat.Reaches m := Relation.ReflTransGen.mono (fun _ _ hs => hs.1) _ _ hm
  exact ⟨m, hruns hm, (hreach.journal.filterMap _).subset, hstarts.trans (by decide +kernel)⟩

theorem offbeat_keeps_stride : ∃ m : Machine Unit,
    m.RunsSteadily ((EngineConfig.standard 1).withTicksPerSecond 10) 100000000 ∧
      (m.starts ⟨0⟩).Pairwise fun a b =>
        a + ((EngineConfig.standard 1).withTicksPerSecond 10).stride 150000000 ≤ b := by
  obtain ⟨m, hm, hscheduled, -⟩ := two_ticks
  have hsteady := (periodic_begins_keep_stride (μ := Unit)).1 _ _ m hm
  obtain ⟨-, hstride, -⟩ := hsteady ⟨⟨0⟩, (), 150000000, 0⟩ (hscheduled List.mem_cons_self)
  exact ⟨m, hm, (hstride (Or.inl (by decide))).1⟩

/-- A period that is not a whole number of intervals is not kept, even if every tick takes its
interval. -/
theorem begins_may_be_short_of_period :
    ¬∀ (config : EngineConfig) (m : Machine Unit), m.RunsSteadily config config.interval →
      ∀ t ∈ m.scheduled, 0 < t.period → (m.starts t.id).Pairwise fun a b => a + t.period ≤ b := by
  intro hclaim
  obtain ⟨m, hm, hscheduled, hstarts⟩ := two_ticks
  have hpairs := hclaim ((EngineConfig.standard 1).withTicksPerSecond 10) m hm
    ⟨⟨0⟩, (), 150000000, 0⟩ (hscheduled List.mem_cons_self) (by decide)
  rw [hstarts] at hpairs
  revert hpairs
  decide

end Machine

end Vivarium
