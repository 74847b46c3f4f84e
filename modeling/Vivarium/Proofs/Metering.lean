import Mathlib.Algebra.GroupWithZero.Nat
import Mathlib.Data.List.Chain
import Vivarium.Engine.TickMeter

/-! # What the meter measures

A meter is told when ticks begin and when they end. What it shows is a function of that history: the
begins that publish a rate cut the history into windows, and the rate they publish is the number of
ticks that ended in the window.
-/

namespace Vivarium

/-- What a meter is told. -/
inductive Beat
  | began (start : Nat)
  | ended
  deriving DecidableEq, Repr

/-! Histories have what was last first. -/

namespace Beat

def start? : Beat → Option Nat
  | .began t => some t
  | .ended => none

def starts (past : List Beat) : List Nat := past.filterMap start?

def ends (past : List Beat) : Nat := past.count .ended

/-- When the first tick of a window began. -/
def opening (window : List Beat) : Option Nat := (starts window).getLast?

/-- A begin closes the window if that opened a second before or earlier. -/
def closes (window : List Beat) : Beat → Bool
  | .began t => (opening window).any fun o => o + Duration.second ≤ t
  | .ended => false

@[simp] theorem starts_began (t : Nat) (past : List Beat) : starts (.began t :: past) = t :: starts past :=
  rfl

@[simp] theorem ends_began (t : Nat) (past : List Beat) : ends (.began t :: past) = ends past :=
  List.count_cons_of_ne (by simp)

@[simp] theorem ends_ended (past : List Beat) : ends (.ended :: past) = ends past + 1 :=
  List.count_cons_self

theorem closes_iff {window : List Beat} {b : Beat} : b.closes window = true ↔
    ∃ t o, b = .began t ∧ opening window = some o ∧ o + Duration.second ≤ t := by
  cases b with
  | began t => simp [closes, Option.any_eq_true]
  | ended => simp [closes]

theorem not_closes_iff {window : List Beat} {t o : Nat} (ho : opening window = some o) :
    (Beat.began t).closes window = false ↔ t < o + Duration.second := by
  rw [← Bool.not_eq_true, closes_iff, ← Nat.not_le]
  apply not_congr
  constructor
  · rintro ⟨_, _, ⟨⟩, ho', hle⟩
    obtain rfl := Option.some.inj (ho.symm.trans ho')
    exact hle
  · intro hle
    exact ⟨t, o, rfl, ho, hle⟩

theorem opening_cons_of_some {o : Nat} {window : List Beat} (h : opening window = some o) (b : Beat) :
    opening (b :: window) = some o := by
  cases b with
  | began t =>
    rw [opening] at h
    rw [opening, starts_began, List.getLast?_cons, h]
    rfl
  | ended => exact h

theorem starts_of_opening_eq_none {window : List Beat} (h : opening window = none) :
    starts window = [] := List.getLast?_eq_none_iff.mp h

end Beat

open Beat

/-- The window that is open, and those that were closed, the latest first. -/
structure Windows where
  current : List Beat := []
  closed : List (List Beat) := []
  deriving DecidableEq, Repr

namespace Windows

variable {b : Beat} {past : List Beat}

def add (b : Beat) (w : Windows) : Windows :=
  if b.closes w.current then ⟨[b], w.current :: w.closed⟩ else { w with current := b :: w.current }

def of : List Beat → Windows
  | [] => {}
  | b :: past => (of past).add b

theorem of_cons_of_closes (h : b.closes (of past).current = true) :
    of (b :: past) = ⟨[b], (of past).current :: (of past).closed⟩ := if_pos h

theorem of_cons_of_not_closes (h : b.closes (of past).current = false) :
    of (b :: past) = { of past with current := b :: (of past).current } := by
  rw [of, add, h]
  rfl

theorem of_cons_ended (past : List Beat) :
    of (.ended :: past) = { of past with current := .ended :: (of past).current } :=
  of_cons_of_not_closes rfl

/-- The values that were published, the latest first. -/
def published (w : Windows) : List Nat := w.closed.map ends

theorem flatten_of (past : List Beat) : (of past).current ++ (of past).closed.flatten = past := by
  induction past with
  | nil => rfl
  | cons b past ih =>
    rw [of, add]
    split
    · simp only [List.singleton_append, List.flatten_cons, ih]
    · simp only [List.cons_append, ih]

/-- Every tick that ended did so in one window. -/
theorem sum_published (past : List Beat) :
    (of past).published.sum + ends (of past).current = ends past := by
  conv_rhs => rw [← flatten_of past]
  rw [published, ends, ends, List.count_append, List.count_flatten, Nat.add_comm]
  rfl

/-- How a history is cut: a window holds no begin that is a second or more after it opened, and each but
the first opens with one that is that long after the window before it opened. -/
structure Cuts (past : List Beat) (w : Windows) : Prop where
  parts : w.current ++ w.closed.flatten = past
  short : ∀ window ∈ w.current :: w.closed, ∀ o ∈ opening window, ∀ t ∈ starts window,
    t < o + Duration.second
  turns : (w.current :: w.closed).IsChain fun window old =>
    ∃ t o, window.getLast? = some (.began t) ∧ opening old = some o ∧ o + Duration.second ≤ t

theorem short_cons {window : List Beat} (hb : b.closes window = false)
    (hshort : ∀ o ∈ opening window, ∀ t ∈ starts window, t < o + Duration.second) :
    ∀ o ∈ opening (b :: window), ∀ t ∈ starts (b :: window), t < o + Duration.second := by
  intro o ho t ht
  cases b with
  | ended => exact hshort o ho t ht
  | began t' =>
    cases hopen : opening window with
    | none =>
      have hnone := starts_of_opening_eq_none hopen
      rw [opening, starts_began, hnone, List.getLast?_singleton, Option.mem_some_iff] at ho
      rw [starts_began, hnone, List.mem_singleton] at ht
      rw [ht, ← ho]
      exact Nat.lt_add_of_pos_right (by decide)
    | some o' =>
      rw [opening_cons_of_some hopen, Option.mem_some_iff] at ho
      subst ho
      rw [starts_began, List.mem_cons] at ht
      rcases ht with rfl | ht
      · exact (not_closes_iff hopen).mp hb
      · exact hshort o' hopen t ht

theorem cuts_of (past : List Beat) : Cuts past (of past) := by
  induction past with
  | nil => exact ⟨rfl, by simp [of, opening, starts], by simp [of]⟩
  | cons b past ih =>
    have hparts := flatten_of (b :: past)
    cases hb : b.closes (of past).current with
    | true =>
      obtain ⟨t, o, rfl, ho, hle⟩ := closes_iff.mp hb
      rw [of_cons_of_closes hb] at hparts ⊢
      have hnew := @short_cons (.began t) [] rfl (by simp [opening, starts])
      exact ⟨hparts, List.forall_mem_cons.mpr ⟨hnew, ih.short⟩,
        ih.turns.cons_cons ⟨t, o, rfl, ho, hle⟩⟩
    | false =>
      obtain ⟨hnow, hbefore⟩ := List.forall_mem_cons.mp ih.short
      rw [of_cons_of_not_closes hb] at hparts ⊢
      refine ⟨hparts, List.forall_mem_cons.mpr ⟨short_cons hb hnow, hbefore⟩, ?_⟩
      refine List.IsChain.imp_head ?_ ih.turns
      rintro old ⟨t, o, ht, ho, hle⟩
      refine ⟨t, o, ?_, ho, hle⟩
      rw [List.getLast?_cons, ht]
      rfl

end Windows

namespace TickMeter

variable {past : List Beat} {m : TickMeter} {t : Nat}

def beat (m : TickMeter) : Beat → TickMeter
  | .began t => m.beginTick t
  | .ended => m.endTick

def after (ticksPerSecond : Nat) : List Beat → TickMeter
  | [] => { ticksPerSecond }
  | b :: past => (after ticksPerSecond past).beat b

theorem beginTick_of_new (h : m.started = false) (ht : t < UInt64.size) :
    m.beginTick t = { m with started := true, windowStart := t, lastStart := t, delta := 0 } := by
  simp only [beginTick, Nat.mod_eq_of_lt ht, h, Bool.not_false, if_true]

theorem beginTick_of_late (h : m.started = true) (ht : t < UInt64.size)
    (hlate : m.windowStart + Duration.second ≤ t) : m.beginTick t =
      { m with delta := t - m.lastStart, lastStart := t, measured := m.inWindow, inWindow := 0,
               windowStart := t } := by
  simp only [beginTick, Nat.mod_eq_of_lt ht, h, Bool.not_true, Bool.false_eq_true, if_false]
  exact if_pos (Nat.le_sub_of_add_le' hlate)

theorem beginTick_of_early (h : m.started = true) (ht : t < UInt64.size)
    (hearly : t < m.windowStart + Duration.second) :
    m.beginTick t = { m with delta := t - m.lastStart, lastStart := t } := by
  simp only [beginTick, Nat.mod_eq_of_lt ht, h, Bool.not_true, Bool.false_eq_true, if_false]
  apply if_neg
  have hsecond : 0 < Duration.second := by decide
  omega

/-- The starts are not decreasing and have 64 bits, and the ticks of one window are counted in 32. -/
structure Orderly (past : List Beat) : Prop where
  sorted : (starts past).Pairwise (· ≥ ·)
  bounded : ∀ t ∈ starts past, t < UInt64.size
  few : ∀ window ∈ (Windows.of past).current :: (Windows.of past).closed, ends window < UInt32.size

theorem Orderly.tail {b : Beat} (h : Orderly (b :: past)) : Orderly past := by
  have hstarts : (starts past).Sublist (starts (b :: past)) :=
    (List.sublist_cons_self b past).filterMap start?
  refine ⟨h.sorted.sublist hstarts, fun t ht => h.bounded t (hstarts.subset ht), ?_⟩
  have hfew := h.few
  cases hb : b.closes (Windows.of past).current with
  | true =>
    rw [Windows.of_cons_of_closes hb] at hfew
    exact (List.forall_mem_cons.mp hfew).2
  | false =>
    rw [Windows.of_cons_of_not_closes hb] at hfew
    obtain ⟨hnow, hbefore⟩ := List.forall_mem_cons.mp hfew
    have hle : ends (Windows.of past).current ≤ ends (b :: (Windows.of past).current) :=
      List.count_le_count_cons
    exact List.forall_mem_cons.mpr ⟨Nat.lt_of_le_of_lt hle hnow, hbefore⟩

/-- The time between the last two starts. -/
def gap : List Nat → Nat
  | t :: last :: _ => t - last
  | _ => 0

theorem gap_cons {last : Nat} {before : List Nat} (h : before.head? = some last) (t : Nat) :
    gap (t :: before) = t - last := by
  obtain ⟨rest, rfl⟩ := List.head?_eq_some_iff.mp h
  rfl

structure Keeps (past : List Beat) (m : TickMeter) : Prop where
  count : m.count = ends past % UInt64.size
  delta : m.delta = gap (starts past)
  last : (starts past).head? = if m.started then some m.lastStart else none
  window : opening (Windows.of past).current = if m.started then some m.windowStart else none
  inWindow : m.inWindow = ends (Windows.of past).current
  measured : m.measured = (Windows.of past).published.headD 0

theorem Keeps.ended (h : Keeps past m) (ho : Orderly (.ended :: past)) :
    Keeps (.ended :: past) m.endTick where
  count := by
    rw [endTick, ends_ended, h.count]
    exact Nat.mod_add_mod _ _ _
  delta := h.delta
  last := h.last
  window := h.window
  inWindow := by
    have hfew := ho.few _ List.mem_cons_self
    rw [Windows.of_cons_ended, ends_ended] at hfew ⊢
    rw [endTick, h.inWindow, Nat.mod_eq_of_lt hfew]
  measured := h.measured

theorem Keeps.began_first (h : Keeps past m) (ht : t < UInt64.size) (hnew : m.started = false) :
    Keeps (.began t :: past) (m.beginTick t) := by
  have hlast := h.last
  have hwindow := h.window
  rw [hnew] at hlast hwindow
  have hstarts := List.head?_eq_none_iff.mp hlast
  have hnone := starts_of_opening_eq_none hwindow
  have hopen : (Beat.began t).closes (Windows.of past).current = false := by
    rw [closes, hwindow]
    rfl
  rw [beginTick_of_new hnew ht]
  refine ⟨?_, ?_, rfl, ?_, ?_, ?_⟩
  · rw [ends_began]
    exact h.count
  · rw [starts_began, hstarts]
    rfl
  · rw [Windows.of_cons_of_not_closes hopen, opening, starts_began, hnone]
    rfl
  · rw [Windows.of_cons_of_not_closes hopen, ends_began]
    exact h.inWindow
  · rw [Windows.of_cons_of_not_closes hopen]
    exact h.measured

theorem Keeps.began_late (h : Keeps past m) (ht : t < UInt64.size) (hstarted : m.started = true)
    (hlate : m.windowStart + Duration.second ≤ t) : Keeps (.began t :: past) (m.beginTick t) := by
  have hlast := h.last
  have hwindow := h.window
  rw [hstarted, if_pos rfl] at hlast hwindow
  have hcloses := closes_iff.mpr ⟨t, m.windowStart, rfl, hwindow, hlate⟩
  rw [beginTick_of_late hstarted ht hlate]
  refine ⟨?_, (gap_cons hlast t).symm, ?_, ?_, ?_, ?_⟩
  · rw [ends_began]
    exact h.count
  · rw [hstarted]
    rfl
  · rw [Windows.of_cons_of_closes hcloses, hstarted]
    rfl
  · rw [Windows.of_cons_of_closes hcloses]
    rfl
  · rw [Windows.of_cons_of_closes hcloses]
    exact h.inWindow

theorem Keeps.began_early (h : Keeps past m) (ht : t < UInt64.size) (hstarted : m.started = true)
    (hearly : t < m.windowStart + Duration.second) : Keeps (.began t :: past) (m.beginTick t) := by
  have hlast := h.last
  have hwindow := h.window
  rw [hstarted, if_pos rfl] at hlast hwindow
  have hopen := (not_closes_iff hwindow).mpr hearly
  rw [beginTick_of_early hstarted ht hearly]
  refine ⟨?_, (gap_cons hlast t).symm, ?_, ?_, ?_, ?_⟩
  · rw [ends_began]
    exact h.count
  · rw [hstarted]
    rfl
  · rw [Windows.of_cons_of_not_closes hopen, hstarted]
    exact opening_cons_of_some hwindow _
  · rw [Windows.of_cons_of_not_closes hopen, ends_began]
    exact h.inWindow
  · rw [Windows.of_cons_of_not_closes hopen]
    exact h.measured

theorem Keeps.began (h : Keeps past m) (ho : Orderly (.began t :: past)) :
    Keeps (.began t :: past) (m.beginTick t) := by
  have ht := ho.bounded t List.mem_cons_self
  cases hstarted : m.started with
  | false => exact h.began_first ht hstarted
  | true =>
    rcases Nat.lt_or_ge t (m.windowStart + Duration.second) with hearly | hlate
    · exact h.began_early ht hstarted hearly
    · exact h.began_late ht hstarted hlate

theorem keeps_after (rate : Nat) (ho : Orderly past) : Keeps past (after rate past) := by
  induction past with
  | nil => exact ⟨rfl, rfl, rfl, rfl, rfl, rfl⟩
  | cons b past ih =>
    cases b with
    | began t => exact (ih ho.tail).began ho
    | ended => exact (ih ho.tail).ended ho

theorem Keeps.publishes (h : Keeps past m) (ht : t < UInt64.size)
    (hcloses : (Beat.began t).closes (Windows.of past).current = true) :
    (m.beginTick t).measured = m.inWindow ∧ (m.beginTick t).inWindow = 0 := by
  obtain ⟨_, o, ⟨⟩, ho, hle⟩ := closes_iff.mp hcloses
  have hwindow := h.window
  rw [ho] at hwindow
  split at hwindow
  · next hstarted =>
    obtain rfl := Option.some.inj hwindow
    rw [beginTick_of_late hstarted ht hle]
    exact ⟨rfl, rfl⟩
  · cases hwindow

theorem Keeps.not_publishes (h : Keeps past m) (ht : t < UInt64.size)
    (hopen : (Beat.began t).closes (Windows.of past).current = false) :
    (m.beginTick t).measured = m.measured ∧ (m.beginTick t).inWindow = m.inWindow := by
  have hwindow := h.window
  cases hstarted : m.started with
  | false =>
    rw [beginTick_of_new hstarted ht]
    exact ⟨rfl, rfl⟩
  | true =>
    rw [hstarted, if_pos rfl] at hwindow
    rw [beginTick_of_early hstarted ht ((not_closes_iff hwindow).mp hopen)]
    exact ⟨rfl, rfl⟩

/-- What a meter shows after a history, and what the next beat publishes. The count has 64 bits. -/
structure Accounts (past : List Beat) (m : TickMeter) : Prop where
  count : m.count = ends past % UInt64.size
  counted : ends past < UInt64.size → m.count = ends past
  still : (starts past).length ≤ 1 → m.delta = 0
  delta : ∀ t last before, starts past = t :: last :: before → last + m.delta = t
  cuts : (Windows.of past).Cuts past
  measured : m.measured = (Windows.of past).published.headD 0
  unpublished : m.inWindow = ends (Windows.of past).current
  total : (Windows.of past).published.sum + m.inWindow = ends past
  publishes : ∀ t, t < UInt64.size → (Beat.began t).closes (Windows.of past).current = true →
    (m.beginTick t).measured = m.inWindow ∧ (m.beginTick t).inWindow = 0
  keeps : ∀ t, t < UInt64.size → (Beat.began t).closes (Windows.of past).current = false →
    (m.beginTick t).measured = m.measured ∧ (m.beginTick t).inWindow = m.inWindow
  silent : m.endTick.measured = m.measured

theorem Keeps.accounts (h : Keeps past m) (ho : Orderly past) : Accounts past m where
  count := h.count
  counted hlt := h.count.trans (Nat.mod_eq_of_lt hlt)
  still hshort := by
    rw [h.delta]
    match starts past, hshort with
    | [], _ => rfl
    | [_], _ => rfl
  delta t last before hstarts := by
    have hsorted := ho.sorted
    rw [hstarts] at hsorted
    rw [h.delta, hstarts]
    exact Nat.add_sub_cancel' (List.rel_of_pairwise_cons hsorted List.mem_cons_self)
  cuts := Windows.cuts_of past
  measured := h.measured
  unpublished := h.inWindow
  total := by
    rw [h.inWindow]
    exact Windows.sum_published past
  publishes _ ht hcloses := h.publishes ht hcloses
  keeps _ ht hopen := h.not_publishes ht hopen
  silent := rfl

end TickMeter

open TickMeter

/-- After any begins and ends of ticks a meter shows how many ended and how long ago the tick before the
last began, and it publishes at exactly those begins that come a second or more after the window opened
how many ticks ended in it, each of them in one window. -/
theorem meter_accounts_for_every_tick {past : List Beat} (ho : Orderly past) (ticksPerSecond : Nat) :
    Accounts past (after ticksPerSecond past) :=
  (keeps_after ticksPerSecond ho).accounts ho

/-- Ticks that begin after 0, 0.4, 1 and 2.1 seconds, the last first. -/
def patter : List Beat :=
  [.began 2100000000, .ended, .began 1000000000, .ended, .began 400000000, .ended, .began 0]

theorem patter_is_accounted_for : Orderly patter ∧ Accounts patter (after 10 patter) ∧
    (Windows.of patter).published = [1, 2] ∧ (after 10 patter).measured = 1 := by
  have ho : Orderly patter := ⟨by decide +kernel, by decide +kernel, by decide +kernel⟩
  exact ⟨ho, meter_accounts_for_every_tick ho 10, by decide +kernel, by decide +kernel⟩

end Vivarium
