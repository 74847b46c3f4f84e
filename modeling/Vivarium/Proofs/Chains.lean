import Vivarium.Proofs.Notes

/-! # What listeners of attributes hear

Notes of listeners who begin to deal with changes of attributes and are done with them. The turns of
listeners are nested, as a listener who changes an attribute has others told in its own turn. The events
that one listener is told of form a chain if each begins with the value that the last one left.
-/

namespace Vivarium

/-- What a listener notes when it begins to deal with a change, and when it is done. -/
structure Hearing where
  stage : TurnStage
  listener : ListenerId
  event : AttributeEvent

namespace Hearing

variable (k : AttributeKey) (ids : List ListenerId) (l : ListenerId)

/-- One of `ids` begins to deal with a change of the key. -/
def begins (r : Hearing) : Bool := r.stage = .told ∧ r.event.key = k ∧ r.listener ∈ ids

/-- One of `ids` is done with a change of the key. -/
def ends (r : Hearing) : Bool := r.stage = .done ∧ r.event.key = k ∧ r.listener ∈ ids

/-- The listener is told of a change of the key. -/
def reaches (r : Hearing) : Bool := r.stage = .told ∧ r.event.key = k ∧ r.listener = l

/-- It is about another key or another listener. -/
def Aside (r : Hearing) : Prop := r.begins k ids = false ∧ r.ends k ids = false ∧ r.reaches k l = false

end Hearing

section

variable {k : AttributeKey} {ids : List ListenerId} {l : ListenerId} {rs rs' : List Hearing} {r r' : Hearing}

/-! ## Turns within turns -/

/-- How many turns of `ids` with the key have begun and not ended. -/
def pending (k : AttributeKey) (ids : List ListenerId) (rs : List Hearing) : Int :=
  rs.countP (·.begins k ids) - rs.countP (·.ends k ids)

@[simp] theorem pending_nil : pending k ids [] = 0 := rfl

@[simp] theorem pending_append : pending k ids (rs ++ rs') = pending k ids rs + pending k ids rs' := by
  simp only [pending, List.countP_append]
  omega

theorem pending_cons (r : Hearing) (rs : List Hearing) :
    pending k ids (r :: rs) = pending k ids [r] + pending k ids rs := by
  rw [← pending_append]
  rfl

theorem pending_begins (h : r.begins k ids = true) : pending k ids [r] = 1 := by
  have hends : r.ends k ids = false := by
    simp only [Hearing.begins, Hearing.ends, decide_eq_true_eq, decide_eq_false_iff_not] at h ⊢
    simp [h.1]
  simp [pending, h, hends]

theorem pending_ends (h : r.ends k ids = true) : pending k ids [r] = -1 := by
  have hbegins : r.begins k ids = false := by
    simp only [Hearing.begins, Hearing.ends, decide_eq_true_eq, decide_eq_false_iff_not] at h ⊢
    simp [h.1]
  simp [pending, h, hbegins]

theorem pending_other (h : r.begins k ids = false) (h' : r.ends k ids = false) : pending k ids [r] = 0 := by
  simp [pending, h, h']

/-- Turns end after they have begun, and all of them end. -/
structure Nested (k : AttributeKey) (ids : List ListenerId) (rs : List Hearing) : Prop where
  sane : ∀ pre post, rs = pre ++ post → 0 ≤ pending k ids pre
  settled : pending k ids rs = 0

namespace Nested

theorem nil : Nested k ids [] where
  sane := by simp
  settled := rfl

theorem append (h : Nested k ids rs) (h' : Nested k ids rs') : Nested k ids (rs ++ rs') := by
  constructor
  · intro pre post heq
    rcases List.append_eq_append_iff.mp heq with ⟨pre', rfl, heq'⟩ | ⟨post', heq', -⟩
    · have hsane := h'.sane pre' post heq'
      rw [pending_append, h.settled]
      omega
    · exact h.sane pre post' heq'
  · rw [pending_append, h.settled, h'.settled]
    rfl

theorem other (h : r.begins k ids = false) (h' : r.ends k ids = false) : Nested k ids [r] := by
  constructor
  · intro pre post heq
    rcases pre with _ | ⟨x, pre⟩
    · exact Int.le_refl 0
    · obtain ⟨rfl, hrest⟩ := List.cons.inj heq
      obtain ⟨rfl, -⟩ := List.append_eq_nil_iff.mp hrest.symm
      exact Int.le_of_eq (pending_other h h').symm
  · exact pending_other h h'

theorem turn (hr : r.begins k ids = true) (h : Nested k ids rs) (hr' : r'.ends k ids = true) :
    Nested k ids (r :: rs ++ [r']) := by
  constructor
  · intro pre post heq
    rcases pre with _ | ⟨x, pre⟩
    · exact Int.le_refl 0
    · obtain ⟨rfl, hrest⟩ := List.cons.inj heq
      rw [pending_cons, pending_begins hr]
      -- `pre` ends with the turn or within it.
      rcases List.append_eq_append_iff.mp hrest with ⟨last, rfl, hlast⟩ | ⟨post', heq', -⟩
      · rcases last with _ | ⟨x', last⟩
        · simp [h.settled]
        · obtain ⟨rfl, hnone⟩ := List.cons.inj hlast
          obtain ⟨rfl, -⟩ := List.append_eq_nil_iff.mp hnone.symm
          rw [pending_append, h.settled, pending_ends hr']
          decide
      · have hsane := h.sane pre post' heq'
        omega
  · rw [pending_append, pending_cons, pending_begins hr, h.settled, pending_ends hr']
    rfl

end Nested

/-! ## A calm course -/

/-- Whenever the listener is told of a change of the key, none of `ids` is at work on one. -/
def Calm (k : AttributeKey) (ids : List ListenerId) (l : ListenerId) (rs : List Hearing) : Prop :=
  ∀ pre r post, rs = pre ++ r :: post → r.reaches k l = true → pending k ids pre = 0

namespace Calm

theorem left (h : Calm k ids l (rs ++ rs')) : Calm k ids l rs := by
  rintro pre r post rfl hr
  apply h pre r (post ++ rs') _ hr
  simp

theorem right (h : Calm k ids l (rs ++ rs')) (hsettled : pending k ids rs = 0) : Calm k ids l rs' := by
  rintro pre r post rfl hr
  have hpending := h (rs ++ pre) r post (by simp) hr
  rw [pending_append, hsettled] at hpending
  omega

theorem of_unreached (h : ∀ r ∈ rs, r.reaches k l = false) : Calm k ids l rs := by
  rintro pre r post rfl hr
  rw [h r (by simp)] at hr
  cases hr

theorem of_first : Calm k [] l rs := by
  intro pre r post _ _
  simp [pending, Hearing.begins, Hearing.ends]

/-- The listener is told of nothing in the turn of one of `ids`. -/
theorem unreached (h : Calm k ids l (r :: rs ++ [r'])) (hr : r.begins k ids = true)
    (hrs : Nested k ids rs) : ∀ q ∈ rs, q.reaches k l = false := by
  intro q hq
  apply Bool.eq_false_iff.mpr
  intro hreaches
  obtain ⟨pre, post, rfl⟩ := List.append_of_mem hq
  have hpending := h (r :: pre) q (post ++ [r']) (by simp) hreaches
  have hsane := hrs.sane pre (q :: post) rfl
  rw [pending_cons, pending_begins hr] at hpending
  omega

end Calm

/-! ## Chains of events -/

/-- The events of which the listener is told about the key. -/
def received (k : AttributeKey) (l : ListenerId) (rs : List Hearing) : List AttributeEvent :=
  (rs.filter (·.reaches k l)).map (·.event)

@[simp] theorem received_append : received k l (rs ++ rs') = received k l rs ++ received k l rs' := by
  simp [received]

theorem received_cons_of_reaches (h : r.reaches k l = true) :
    received k l (r :: rs) = r.event :: received k l rs := by
  simp [received, h]

theorem received_eq_nil (h : ∀ r ∈ rs, r.reaches k l = false) : received k l rs = [] := by
  rw [received, List.filter_eq_nil_iff.mpr, List.map_nil]
  intro r hr
  rw [h r hr]
  decide

/-- From one value to another, each event beginning with the value that the last one left. -/
def Chain : Option Value → List AttributeEvent → Option Value → Prop
  | v, [], w => v = w
  | v, e :: es, w => e.previous = v ∧ Chain e.value es w

namespace Chain

variable {u v w : Option Value} {es es' : List AttributeEvent}

theorem append (h : Chain u es v) (h' : Chain v es' w) : Chain u (es ++ es') w := by
  induction es generalizing u with
  | nil =>
    obtain rfl : u = v := h
    exact h'
  | cons e es ih => exact ⟨h.1, ih h.2⟩

theorem last {e : AttributeEvent} (h : Chain u (es ++ [e]) w) : e.value = w := by
  induction es generalizing u with
  | nil => exact h.2
  | cons _ es ih => exact ih h.2

end Chain

end

end Vivarium
