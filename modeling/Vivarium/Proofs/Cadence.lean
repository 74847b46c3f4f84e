import Vivarium.Proofs.Metering
import Vivarium.Proofs.Pace

/-! # The meter on an ideal clock

While only the ends of ticks move the clock, each tick begins one interval after the one before. The
meter closes its window at the first begin a second or more after the window opened, so every window
holds as many ticks as intervals begin in a second. The interval is cut to whole nanoseconds, so these
may be more than the ticks per second that were asked for.
-/

namespace Vivarium

namespace EngineConfig

/-- How many intervals begin in a second. -/
def windowTicks (ticksPerSecond : Nat) : Nat :=
  (Duration.second + tickInterval ticksPerSecond - 1) / tickInterval ticksPerSecond

variable {rate : Nat}

theorem tickInterval_le (rate : Nat) : tickInterval rate ≤ Duration.second := Nat.div_le_self _ _

theorem windowTicks_of_no_interval (h : tickInterval rate = 0) : windowTicks rate = 0 := by
  rw [windowTicks, h, Nat.div_zero]

theorem tickInterval_pos_of_lt {j : Nat} (h : j < windowTicks rate) : 0 < tickInterval rate := by
  apply Nat.pos_of_ne_zero
  intro hzero
  rw [windowTicks_of_no_interval hzero] at h
  cases h

theorem mul_tickInterval_lt_iff (h : 0 < tickInterval rate) (j : Nat) :
    j * tickInterval rate < Duration.second ↔ j < windowTicks rate := by
  rw [windowTicks, Nat.lt_div_iff_mul_lt h]
  omega

theorem windowTicks_mul_lt (rate : Nat) :
    windowTicks rate * tickInterval rate < Duration.second + Duration.second := by
  have hinterval := tickInterval_le rate
  have hsecond : 0 < Duration.second := by decide
  have hdiv := Nat.div_mul_le_self (Duration.second + tickInterval rate - 1) (tickInterval rate)
  rw [windowTicks]
  omega

theorem windowTicks_le (rate : Nat) : windowTicks rate ≤ Duration.second := by
  rcases Nat.eq_zero_or_pos (tickInterval rate) with hzero | hpos
  · rw [windowTicks_of_no_interval hzero]
    exact Nat.zero_le _
  · apply Nat.le_of_not_lt
    rw [← mul_tickInterval_lt_iff hpos]
    exact Nat.not_lt_of_le (Nat.le_mul_of_pos_right _ hpos)

theorem tickInterval_pos (hpos : 0 < rate) (h : rate ≤ Duration.second) : 0 < tickInterval rate :=
  Nat.div_pos h hpos

theorem le_windowTicks (h : rate ≤ Duration.second) : rate ≤ windowTicks rate := by
  cases rate with
  | zero => exact Nat.zero_le _
  | succ n =>
    have hinterval : 0 < tickInterval (n + 1) := tickInterval_pos (Nat.succ_pos n) h
    have hmul : (n + 1) * tickInterval (n + 1) ≤ Duration.second := Nat.mul_div_le _ _
    rw [Nat.succ_mul] at hmul
    exact (mul_tickInterval_lt_iff hinterval n).mp (by omega)

theorem windowTicks_of_fast (h : Duration.second < rate) : windowTicks rate = 0 :=
  windowTicks_of_no_interval (Nat.div_eq_of_lt h)

/-- As many ticks as were asked for are measured if a second is whole intervals of them, and only then. -/
theorem windowTicks_eq_iff (hpos : 0 < rate) : windowTicks rate = rate ↔ rate ∣ Duration.second := by
  by_cases h : rate ≤ Duration.second
  · have hle := le_windowTicks h
    have hmul : rate * tickInterval rate ≤ Duration.second := Nat.mul_div_le _ _
    calc
      windowTicks rate = rate ↔ ¬rate < windowTicks rate := by omega
      _ ↔ ¬rate * tickInterval rate < Duration.second :=
        not_congr (mul_tickInterval_lt_iff (tickInterval_pos hpos h) rate).symm
      _ ↔ rate * tickInterval rate = Duration.second := by omega
      _ ↔ rate ∣ Duration.second := Nat.mul_div_eq_iff_dvd
  · have hfast : Duration.second < rate := Nat.lt_of_not_le h
    rw [windowTicks_of_fast hfast]
    have hdvd : ¬rate ∣ Duration.second := Nat.not_dvd_of_pos_of_lt (by decide) hfast
    exact iff_of_false (Nat.ne_of_lt hpos) hdvd

end EngineConfig

open EngineConfig

/-! ## The meter on an ideal clock -/

namespace TickMeter

variable {rate n now : Nat} {m : TickMeter}

structure Fresh (n now : Nat) (m : TickMeter) : Prop where
  none : n = 0
  zero : now = 0
  new : m.started = false
  empty : m.inWindow = 0

/-- Every tick so far began an interval after the one before, and the clock stands where the next will
begin. -/
structure Moving (rate n now : Nat) (m : TickMeter) : Prop where
  started : m.started = true
  some : 0 < m.inWindow
  few : m.inWindow ≤ windowTicks rate
  now : now = m.windowStart + m.inWindow * tickInterval rate
  first : n ≤ windowTicks rate → m.inWindow = n ∧ m.windowStart = 0

/-- The clock does not move any more, for want of an interval or at the end of its range. -/
structure Standing (rate n now : Nat) (m : TickMeter) : Prop where
  started : m.started = true
  still : tickInterval rate = 0 ∨ UInt64.size ≤ now + tickInterval rate
  short : now < m.windowStart + Duration.second
  late : windowTicks rate = 0 ∨ windowTicks rate < n

def Underway (rate n now : Nat) (m : TickMeter) : Prop :=
  Moving rate n now m ∨ Standing rate n now m

/-- A meter after `n` ticks on an ideal clock. -/
structure Cadence (rate n now : Nat) (m : TickMeter) : Prop where
  asked : m.ticksPerSecond = rate
  measured : m.measured = if n ≤ windowTicks rate then 0 else windowTicks rate
  place : Fresh n now m ∨ Underway rate n now m

/-- Where the clock stands after a tick. -/
def parked (rate now : Nat) : Nat :=
  if now + tickInterval rate < UInt64.size then now + tickInterval rate else now

theorem parked_of_lt (h : now + tickInterval rate < UInt64.size) :
    parked rate now = now + tickInterval rate := if_pos h

theorem Standing.parked_eq (h : Standing rate n now m) : parked rate now = now := by
  rw [parked]
  split
  · rcases h.still with hzero | htop
    · rw [hzero, Nat.add_zero]
    · omega
  · rfl

theorem asked_tick (now : Nat) (m : TickMeter) :
    (m.beginTick now).endTick.ticksPerSecond = m.ticksPerSecond := by
  unfold beginTick
  simp only
  split
  · rfl
  · split <;> rfl

/-- A tick that is counted in its window is not too many for 32 bits. -/
theorem inWindow_endTick (h : m.inWindow < windowTicks rate) :
    m.endTick.inWindow = m.inWindow + 1 := by
  have hle := windowTicks_le rate
  apply Nat.mod_eq_of_lt
  simp only [Duration.second, UInt32.size] at *
  omega

/-- A tick of the window, the last so far, ends: the clock moves on unless it is at the end of its
range, and by then the first window is long over. -/
theorem underway_parked {ticks : Nat} (hstarted : m.started = true) (hticks : m.inWindow = ticks + 1)
    (hfew : ticks < windowTicks rate) (hnow : now = m.windowStart + ticks * tickInterval rate)
    (hfirst : n ≤ windowTicks rate → m.inWindow = n ∧ m.windowStart = 0) :
    Underway rate n (parked rate now) m := by
  have hshort := (mul_tickInterval_lt_iff (tickInterval_pos_of_lt hfew) ticks).mpr hfew
  by_cases hlt : now + tickInterval rate < UInt64.size
  · left
    rw [parked_of_lt hlt]
    constructor
    · exact hstarted
    · omega
    · omega
    · rw [hticks, Nat.succ_mul]
      omega
    · exact hfirst
  · right
    rw [parked, if_neg hlt]
    constructor
    · exact hstarted
    · exact Or.inr (Nat.le_of_not_lt hlt)
    · omega
    · right
      apply Nat.lt_of_not_le
      intro hle
      obtain ⟨hn, hzero⟩ := hfirst hle
      have hbound := windowTicks_mul_lt rate
      have hmul : (ticks + 1) * tickInterval rate ≤ windowTicks rate * tickInterval rate :=
        Nat.mul_le_mul_right _ hfew
      rw [Nat.succ_mul] at hmul
      simp only [UInt64.size, Duration.second] at *
      omega

theorem Fresh.tick (rate : Nat) (h : Fresh n now m) :
    (m.beginTick now).endTick.measured = m.measured ∧
      Underway rate (n + 1) (parked rate now) (m.beginTick now).endTick := by
  obtain ⟨rfl, rfl, hnew, hempty⟩ := h
  have hone : (m.beginTick 0).endTick.inWindow = 1 := by
    rw [beginTick_of_new hnew (by decide), endTick, hempty]
    rfl
  rw [beginTick_of_new hnew (by decide)] at hone ⊢
  refine ⟨rfl, ?_⟩
  rcases Nat.eq_zero_or_pos (tickInterval rate) with hzero | hpos
  · right
    rw [parked, hzero]
    refine ⟨rfl, Or.inl hzero, ?_, Or.inl (windowTicks_of_no_interval hzero)⟩
    change (if 0 + 0 < UInt64.size then 0 + 0 else 0) < 0 + Duration.second
    decide
  · apply underway_parked rfl hone
    · exact (mul_tickInterval_lt_iff hpos 0).mp (by rw [Nat.zero_mul]; decide)
    · rw [Nat.zero_mul]
      rfl
    · intro _
      exact ⟨hone, rfl⟩

theorem Moving.tick_within (h : Moving rate n now m) (hnow : now < UInt64.size)
    (hfew : m.inWindow < windowTicks rate) :
    (m.beginTick now).endTick.measured = m.measured ∧
      Underway rate (n + 1) (parked rate now) (m.beginTick now).endTick := by
  have hearly : now < m.windowStart + Duration.second := by
    rw [h.now]
    exact Nat.add_lt_add_left ((mul_tickInterval_lt_iff (tickInterval_pos_of_lt hfew) _).mpr hfew) _
  rw [beginTick_of_early h.started hnow hearly]
  refine ⟨rfl, ?_⟩
  have hticks := @inWindow_endTick rate { m with delta := now - m.lastStart, lastStart := now } hfew
  apply underway_parked
  · exact h.started
  · exact hticks
  · exact hfew
  · exact h.now
  · intro hle
    obtain ⟨hn, hzero⟩ := h.first (Nat.le_of_succ_le hle)
    exact ⟨hticks.trans (congrArg (· + 1) hn), hzero⟩

/-- A tick that closes the window, which has its ticks. -/
theorem Moving.tick_closing (h : Moving rate n now m) (hnow : now < UInt64.size)
    (hfull : m.inWindow = windowTicks rate) :
    (m.beginTick now).endTick.measured = windowTicks rate ∧ windowTicks rate < n + 1 ∧
      Underway rate (n + 1) (parked rate now) (m.beginTick now).endTick := by
  have hpos : 0 < windowTicks rate := hfull ▸ h.some
  have hlong : Duration.second ≤ m.inWindow * tickInterval rate := by
    apply Nat.le_of_not_lt
    rw [mul_tickInterval_lt_iff (tickInterval_pos_of_lt hpos)]
    omega
  have hlate : m.windowStart + Duration.second ≤ now := by
    rw [h.now]
    exact Nat.add_le_add_left hlong _
  have hover : windowTicks rate < n + 1 := by
    apply Nat.lt_of_not_le
    intro hle
    have hn := (h.first (by omega)).1
    omega
  rw [beginTick_of_late h.started hnow hlate]
  refine ⟨hfull, hover, ?_⟩
  apply underway_parked
  · exact h.started
  · rfl
  · exact hpos
  · rw [Nat.zero_mul]
    rfl
  · intro hle
    omega

theorem Standing.tick (h : Standing rate n now m) (hnow : now < UInt64.size) :
    (m.beginTick now).endTick.measured = m.measured ∧
      Standing rate (n + 1) (parked rate now) (m.beginTick now).endTick := by
  rw [beginTick_of_early h.started hnow h.short, h.parked_eq]
  refine ⟨rfl, h.started, h.still, h.short, ?_⟩
  have hlate := h.late
  omega

theorem Cadence.tick (h : Cadence rate n now m) (hnow : now < UInt64.size) :
    Cadence rate (n + 1) (parked rate now) (m.beginTick now).endTick := by
  have hasked := (asked_tick now m).trans h.asked
  have hmeasured := h.measured
  rcases h.place with hfresh | hmoving | hstanding
  · obtain ⟨hsame, hplace⟩ := hfresh.tick rate
    refine ⟨hasked, ?_, Or.inr hplace⟩
    rw [hsame, hmeasured, hfresh.none]
    split <;> split <;> omega
  · rcases Nat.lt_or_eq_of_le hmoving.few with hfew | hfull
    · obtain ⟨hsame, hplace⟩ := hmoving.tick_within hnow hfew
      refine ⟨hasked, ?_, Or.inr hplace⟩
      rw [hsame, hmeasured]
      -- The window of the first ticks has them all, and it is not full.
      by_cases hle : n ≤ windowTicks rate
      · have hn := (hmoving.first hle).1
        rw [if_pos hle, if_pos (by omega)]
      · rw [if_neg hle, if_neg (by omega)]
    · obtain ⟨hclosed, hover, hplace⟩ := hmoving.tick_closing hnow hfull
      refine ⟨hasked, ?_, Or.inr hplace⟩
      rw [hclosed, if_neg (Nat.not_le_of_lt hover)]
  · obtain ⟨hsame, hplace⟩ := hstanding.tick hnow
    refine ⟨hasked, ?_, Or.inr (Or.inr hplace)⟩
    have hlate := hstanding.late
    rw [hsame, hmeasured]
    split <;> split <;> omega

end TickMeter

theorem Clock.now_park (rate : Nat) (c : Clock) :
    (c.parkUntil (Duration.after c.now (tickInterval rate))).now = TickMeter.parked rate c.now := by
  have hnow := c.now_lt
  have hinterval := tickInterval_le rate
  have hafter : Duration.after c.now (tickInterval rate) = c.now + tickInterval rate := by
    apply Duration.after_eq_add
    simp only [UInt64.size, Duration.second, Duration.max] at *
    omega
  rw [hafter, Clock.now_parkUntil, TickMeter.parked]
  split
  · next hlt =>
    rw [Nat.mod_eq_of_lt hlt]
    omega
  · next hge =>
    simp only [UInt64.size, Duration.second] at *
    omega

end Vivarium
