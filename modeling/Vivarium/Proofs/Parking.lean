import Mathlib.Algebra.Order.Floor.Div
import Vivarium.Time.Clock

/-! # Parking until a deadline

Every reading moves a stepping clock on, so spinning on one ends. How often the clock is read follows
from where it stands after the first reading and the sleep: as many steps as it takes to the deadline.
-/

namespace Vivarium

namespace SteppingClock

variable {c : SteppingClock} {deadline threshold n : Nat}

/-- The clock after `n` readings. -/
def after (n : Nat) (c : SteppingClock) : SteppingClock := { c with time := c.time + n * c.step }

/-- What the next `n` readings give. -/
def upcoming (n : Nat) (c : SteppingClock) : List Nat := (List.range n).map fun i => c.time + i * c.step

/-- The steps that it takes from where the clock stands to the deadline. -/
def stepsTo (deadline : Nat) (c : SteppingClock) : Nat := (deadline - c.time) ⌈/⌉ c.step

theorem after_read (n : Nat) (c : SteppingClock) : c.read.2.after n = c.after (n + 1) := by
  have htime : c.time + c.step + n * c.step = c.time + (n + 1) * c.step := by
    rw [Nat.succ_mul]
    omega
  exact congrArg (SteppingClock.mk · c.step) htime

theorem upcoming_succ (n : Nat) (c : SteppingClock) :
    c.upcoming (n + 1) = c.read.1 :: c.read.2.upcoming n := by
  rw [upcoming, List.range_succ_eq_map, List.map_cons, List.map_map, upcoming, Nat.zero_mul]
  refine congrArg₂ List.cons rfl (List.map_congr_left fun i _ => ?_)
  change c.time + (i + 1) * c.step = c.time + c.step + i * c.step
  rw [Nat.succ_mul]
  omega

theorem upcoming_eq_append (n : Nat) (c : SteppingClock) :
    c.upcoming (n + 1) = c.upcoming n ++ [c.time + n * c.step] := by
  rw [upcoming, List.range_succ, List.map_append]
  rfl

theorem stepsTo_le_iff (h : 0 < c.step) : c.stepsTo deadline ≤ n ↔ deadline ≤ c.time + n * c.step := by
  rw [stepsTo, ceilDiv_le_iff_le_mul h, Nat.mul_comm]
  omega

/-! ## Spinning -/

theorem spin_of_reached (h : deadline ≤ c.time) : c.spin deadline = some ([c.time], c.after 1) := by
  rw [spin, if_neg (Nat.not_lt.mpr h), read, after, Nat.one_mul]

theorem spin_of_early (hstep : 0 < c.step) (h : c.time < deadline) :
    c.spin deadline = (c.read.2.spin deadline).map fun p => (c.read.1 :: p.1, p.2) := by
  rw [spin, if_pos h, if_neg hstep.ne']

/-- Spinning ends with the first reading that reaches the deadline. -/
theorem spin_of_reaches (hstep : 0 < c.step) (hlast : deadline ≤ c.time + n * c.step)
    (hbefore : ∀ i < n, c.time + i * c.step < deadline) :
    c.spin deadline = some (c.upcoming (n + 1), c.after (n + 1)) := by
  induction n generalizing c with
  | zero =>
    rw [Nat.zero_mul] at hlast
    rw [spin_of_reached hlast, upcoming_succ]
    rfl
  | succ n ih =>
    have hearly := hbefore 0 (Nat.succ_pos n)
    rw [Nat.zero_mul] at hearly
    have hrest : c.read.2.spin deadline =
        some (c.read.2.upcoming (n + 1), c.read.2.after (n + 1)) := by
      refine ih hstep ?_ fun i hi => ?_
      · rw [Nat.succ_mul] at hlast
        change deadline ≤ c.time + c.step + n * c.step
        omega
      · have hnext := hbefore (i + 1) (Nat.succ_lt_succ hi)
        rw [Nat.succ_mul] at hnext
        change c.time + c.step + i * c.step < deadline
        omega
    rw [spin_of_early hstep hearly, hrest, Option.map_some, ← upcoming_succ, after_read]

theorem spin_eq (hstep : 0 < c.step) (deadline : Nat) : c.spin deadline =
    some (c.upcoming (c.stepsTo deadline + 1), c.after (c.stepsTo deadline + 1)) := by
  refine spin_of_reaches hstep ((stepsTo_le_iff hstep).mp le_rfl) fun i hi => ?_
  exact Nat.lt_of_not_le fun hreached => absurd ((stepsTo_le_iff hstep).mpr hreached) (Nat.not_le.mpr hi)

/-! ## Parking -/

/-- The sleep that parking takes, if any. -/
def nap (deadline threshold : Nat) (c : SteppingClock) : List Nat :=
  if threshold < deadline - c.time then [deadline - c.time - threshold] else []

/-- The clock after the first reading and the sleep. -/
def rested (deadline threshold : Nat) (c : SteppingClock) : SteppingClock :=
  { c with time := c.time + c.step + (c.nap deadline threshold).sum }

theorem parkUntil_of_reached (h : deadline ≤ c.time) :
    c.parkUntil deadline threshold = some ⟨[], [c.time], c.after 1⟩ := by
  rw [parkUntil, after, Nat.one_mul]
  exact if_pos h

theorem foldl_sleep (sleeps : List Nat) (c : SteppingClock) :
    sleeps.foldl (fun c d => c.sleep d) c = { c with time := c.time + sleeps.sum } := by
  induction sleeps generalizing c with
  | nil => rfl
  | cons d ds ih =>
    rw [List.foldl_cons, ih, sleep, List.sum_cons, Nat.add_assoc]

theorem parkUntil_of_early (hstep : 0 < c.step) (h : c.time < deadline) :
    c.parkUntil deadline threshold =
      some ⟨c.nap deadline threshold,
        c.time :: (c.rested deadline threshold).upcoming ((c.rested deadline threshold).stepsTo deadline + 1),
        (c.rested deadline threshold).after ((c.rested deadline threshold).stepsTo deadline + 1)⟩ := by
  have hslept : (c.nap deadline threshold).foldl (fun c d => c.sleep d) c.read.2 =
      c.rested deadline threshold := foldl_sleep _ _
  have hspin := spin_eq (c := c.rested deadline threshold) hstep deadline
  rw [parkUntil]
  refine (if_neg (Nat.not_le.mpr h)).trans ?_
  change (spin deadline ((c.nap deadline threshold).foldl (fun c d => c.sleep d) c.read.2)).map _ = _
  rw [hslept, hspin]
  rfl

/-- The sleep stops a step after the beginning of the threshold: the first reading has moved the clock. -/
theorem rested_of_nap (hearly : c.time < deadline) (h : c.nap deadline threshold ≠ []) :
    (c.rested deadline threshold).time + threshold = deadline + c.step := by
  have hlong : threshold < deadline - c.time := Decidable.byContradiction fun hn => h (if_neg hn)
  rw [rested, nap, if_pos hlong, List.sum_singleton]
  change c.time + c.step + (deadline - c.time - threshold) + threshold = deadline + c.step
  omega

end SteppingClock

open SteppingClock

/-- Parking ends. A deadline that is already reached takes one reading and no sleep. Otherwise the last
reading is the only one that reaches the deadline; the one sleep there may be leaves the threshold and, with
the step of the first reading, ends that much past its beginning; and the readings are the first, one for
each step that is left to the deadline, and the last. -/
theorem parking_ends_at_its_deadline {c : SteppingClock} (hstep : 0 < c.step) (deadline threshold : Nat) :
    ∃ p, c.parkUntil deadline threshold = some p ∧
      (deadline ≤ c.time → p.seen = [c.time] ∧ p.sleeps = []) ∧
      (c.time < deadline → ∃ t,
        t = c.time + c.step + p.sleeps.sum ∧
        p.sleeps = (if 0 < deadline - c.time - threshold then [deadline - c.time - threshold] else []) ∧
        (p.sleeps ≠ [] → t + threshold = deadline + c.step) ∧
        p.readings = 2 + (deadline - t) ⌈/⌉ c.step ∧
        p.seen = c.time :: (List.range (p.readings - 1)).map (fun i => t + i * c.step) ∧
        ∃ before last, p.seen = before ++ [last] ∧ deadline ≤ last ∧ ∀ time ∈ before, time < deadline) := by
  rcases Nat.lt_or_ge c.time deadline with hearly | hreached
  · refine ⟨_, parkUntil_of_early hstep hearly, fun h => absurd h (Nat.not_le.mpr hearly), fun _ => ?_⟩
    set r := c.rested deadline threshold with hr
    have hrstep : 0 < r.step := hstep
    have hcount : (c.time :: r.upcoming (r.stepsTo deadline + 1)).length = 2 + r.stepsTo deadline := by
      rw [List.length_cons, upcoming, List.length_map, List.length_range]
      omega
    refine ⟨r.time, rfl, ?_, rested_of_nap hearly, hcount, ?_, ?_⟩
    · simp only [nap, Nat.sub_pos_iff_lt]
    · rw [Parking.readings, hcount]
      have hpred : 2 + r.stepsTo deadline - 1 = r.stepsTo deadline + 1 := by omega
      rw [hpred]
      rfl
    · refine ⟨c.time :: r.upcoming (r.stepsTo deadline), r.time + r.stepsTo deadline * r.step, ?_, ?_, ?_⟩
      · rw [upcoming_eq_append, List.cons_append]
      · exact (stepsTo_le_iff hrstep).mp le_rfl
      · intro time htime
        rcases List.mem_cons.mp htime with rfl | htime
        · exact hearly
        · obtain ⟨i, hi, rfl⟩ := List.mem_map.mp htime
          refine Nat.lt_of_not_le fun hlate => absurd ((stepsTo_le_iff hrstep).mpr hlate) ?_
          exact Nat.not_le.mpr (List.mem_range.mp hi)
  · exact ⟨_, parkUntil_of_reached hreached, fun _ => ⟨rfl, rfl⟩, fun h => absurd hreached (Nat.not_le.mpr h)⟩

/-- The sleep ends just before the deadline, and the step of one reading jumps over it. -/
theorem parking_oversteps : 0 < (⟨3, 4⟩ : SteppingClock).step ∧
    ∃ p, (⟨3, 4⟩ : SteppingClock).parkUntil 20 5 = some p ∧ p.sleeps = [12] ∧ p.seen = [3, 19, 23] := by
  obtain ⟨p, hpark, -, hparked⟩ := parking_ends_at_its_deadline (c := ⟨3, 4⟩) (by decide) 20 5
  obtain ⟨t, ht, hsleeps, -, hreadings, hseen, -⟩ := hparked (by decide)
  refine ⟨by decide, p, hpark, hsleeps, ?_⟩
  rw [hsleeps] at ht
  subst ht
  rw [hseen, hreadings]
  rfl

end Vivarium
