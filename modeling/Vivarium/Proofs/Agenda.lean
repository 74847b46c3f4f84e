import Vivarium.Proofs.Queue

/-! # A queue as a stably sorted list

An agenda is the plain list of the waiting tasks: an insertion deletes the entry of the same identity
and puts the task behind everything due no later. A sequence of calls gets the same answers from a
queue as from an agenda, and the queue holds the agenda throughout.
-/

namespace Vivarium

inductive QueueCall (β : Type) where
  | insert (t : Task β)
  | peekDue (bound : Nat)
  | popDue (bound : Nat)
  | remove (id : TaskId)
  | take (id : TaskId)
  | get (id : TaskId)
  | contains (id : TaskId)
  | nextDue
  | drain
  | size

inductive QueueAnswer (β : Type) where
  | done
  | found (t : Option (Task β))
  | said (b : Bool)
  | time (due : Option Nat)
  | all (ts : List (Task β))
  | count (n : Nat)

def QueueCall.inserts {β : Type} : QueueCall β → Bool
  | .insert _ => true
  | _ => false

/-- Makes calls one after the other, on whatever answers them. -/
def QueueCall.play {β σ : Type} (answer : QueueCall β → σ → QueueAnswer β × σ) :
    List (QueueCall β) → σ → List (QueueAnswer β) × σ
  | [], s => ([], s)
  | c :: cs, s =>
    let (a, s) := answer c s
    let (as, s) := play answer cs s
    (a :: as, s)

namespace Agenda

variable {β : Type}

def without (id : TaskId) (ts : List (Task β)) : List (Task β) := ts.filter (·.id ≠ id)

def find (id : TaskId) (ts : List (Task β)) : Option (Task β) := ts.find? (·.id = id)

/-- Puts a task behind everything due no later and before everything due later. -/
def enter (t : Task β) (ts : List (Task β)) : List (Task β) :=
  ts.filter (·.due ≤ t.due) ++ t :: ts.filter (t.due < ·.due)

def headDue (bound : Nat) (ts : List (Task β)) : Option (Task β) :=
  ts.head?.filter (·.due < bound)

def answer : QueueCall β → List (Task β) → QueueAnswer β × List (Task β)
  | .insert t, ts => (.done, enter t (without t.id ts))
  | .peekDue bound, ts => (.found (headDue bound ts), ts)
  | .popDue bound, ts => (.found (headDue bound ts), if (headDue bound ts).isSome then ts.tail else ts)
  | .remove id, ts => (.said (ts.any (·.id = id)), without id ts)
  | .take id, ts => (.found (find id ts), without id ts)
  | .get id, ts => (.found (find id ts), ts)
  | .contains id, ts => (.said (ts.any (·.id = id)), ts)
  | .nextDue, ts => (.time (ts.head?.map (·.due)), ts)
  | .drain, ts => (.all ts, [])
  | .size, ts => (.count ts.length, ts)

theorem enter_cons_of_le {t u : Task β} {ts : List (Task β)} (hle : u.due ≤ t.due) :
    enter t (u :: ts) = u :: enter t ts := by
  rw [enter, List.filter_cons_of_pos (by simpa using hle), List.filter_cons_of_neg (by simpa using hle)]
  rfl

theorem enter_of_forall_lt {t : Task β} {ts : List (Task β)} (h : ∀ u ∈ ts, t.due < u.due) :
    enter t ts = t :: ts := by
  have hnone : ts.filter (·.due ≤ t.due) = [] := by
    refine List.filter_eq_nil_iff.mpr fun u hu => ?_
    simpa using h u hu
  have hall : ts.filter (t.due < ·.due) = ts := by
    refine List.filter_eq_self.mpr fun u hu => ?_
    simpa using h u hu
  rw [enter, hnone, hall]
  rfl

end Agenda

namespace TaskQueue

variable {β : Type}

def answer : QueueCall β → TaskQueue β → QueueAnswer β × TaskQueue β
  | .insert t, q => (.done, q.insert t)
  | .peekDue bound, q => (.found (q.peekDue bound), q)
  | .popDue bound, q =>
    match q.popDue bound with
    | some (t, q') => (.found (some t), q')
    | none => (.found none, q)
  | .remove id, q => (.said (q.remove id).1, (q.remove id).2)
  | .take id, q => (.found (q.take id).1, (q.take id).2)
  | .get id, q => (.found (q.get? id), q)
  | .contains id, q => (.said (q.contains id), q)
  | .nextDue, q => (.time q.nextDue, q)
  | .drain, q => (.all q.drain.1, q.drain.2)
  | .size, q => (.count q.size, q)

theorem take_fst (id : TaskId) (q : TaskQueue β) : (q.take id).1 = q.get? id := by
  unfold take get?
  cases Entries.get? id q.index <;> rfl

theorem length_toList (q : TaskQueue β) : q.toList.length = q.size := List.length_map _

theorem peekDue_eq_popDue (bound : Nat) (q : TaskQueue β) :
    q.peekDue bound = (q.popDue bound).map (·.1) := by
  unfold peekDue popDue
  cases q.order with
  | nil => rfl
  | cons p rest =>
    simp only
    split <;> rfl

theorem nextTurn_take (id : TaskId) (q : TaskQueue β) : (q.take id).2.nextTurn = q.nextTurn := by
  unfold take
  cases Entries.get? id q.index <;> rfl

theorem nextTurn_popDue {bound : Nat} {q rest : TaskQueue β} {t : Task β}
    (h : q.popDue bound = some (t, rest)) : rest.nextTurn = q.nextTurn := by
  unfold popDue at h
  split at h
  · split at h
    · cases h
      rfl
    · cases h
  · cases h

/-- No slot has the turn of a new one, so the due times alone decide its place. -/
theorem map_place {t : Task β} {n : Nat} {order : List (Slot × Task β)}
    (hs : order.Pairwise fun a b => a.1.lt b.1) (hdue : ∀ p ∈ order, p.1.due = p.2.due)
    (hturn : ∀ p ∈ order, p.1.turn < n) :
    (place ⟨t.due, n⟩ t order).map (·.2) = Agenda.enter t (order.map (·.2)) := by
  induction order with
  | nil => rfl
  | cons p rest ih =>
    obtain ⟨⟨due, turn⟩, u⟩ := p
    obtain ⟨hhead, htail⟩ := List.pairwise_cons.mp hs
    obtain ⟨hu, hdue⟩ := List.forall_mem_cons.mp hdue
    obtain ⟨hn, hturn⟩ := List.forall_mem_cons.mp hturn
    change due = u.due at hu
    change turn < n at hn
    rw [place]
    split
    · next hlt =>
      have hbefore : t.due < due := by
        simp only [Slot.lt] at hlt
        omega
      have hall : ∀ v ∈ u :: rest.map (·.2), t.due < v.due := by
        intro v hv
        rcases List.mem_cons.mp hv with rfl | hv
        · exact hu ▸ hbefore
        · obtain ⟨p, hp, rfl⟩ := List.mem_map.mp hv
          have hlater := hhead p hp
          have hpdue := hdue p hp
          simp only [Slot.lt] at hlater
          omega
      exact (Agenda.enter_of_forall_lt hall).symm
    · next hlt =>
      have hle : u.due ≤ t.due := by
        simp only [Slot.lt] at hlt
        omega
      have hne : (⟨t.due, n⟩ : Slot) ≠ ⟨due, turn⟩ := by
        intro e
        cases e
        exact Nat.lt_irrefl _ hn
      rw [if_neg hne, List.map_cons, List.map_cons, Agenda.enter_cons_of_le hle]
      exact congrArg (u :: ·) (ih htail hdue hturn)

namespace WellFormed

variable {q : TaskQueue β}

theorem toList_insert_eq (h : q.WellFormed) (t : Task β) :
    (q.insert t).toList = Agenda.enter t (Agenda.without t.id q.toList) := by
  have hq := h.take t.id
  rw [Agenda.without, ← h.toList_take t.id]
  exact map_place hq.sorted hq.due_eq hq.turn_lt

theorem peekDue_eq (h : q.WellFormed) (bound : Nat) :
    q.peekDue bound = Agenda.headDue bound q.toList := by
  have hdue := h.due_eq
  unfold TaskQueue.peekDue Agenda.headDue toList
  cases horder : q.order with
  | nil => rfl
  | cons p rest =>
    have hp : p.1.due = p.2.due := hdue p (horder ▸ List.mem_cons_self)
    simp only [List.map_cons, List.head?_cons, Option.filter_some, hp, decide_eq_true_eq]

theorem nextDue_eq (h : q.WellFormed) : q.nextDue = q.toList.head?.map (·.due) := by
  have hdue := h.due_eq
  unfold TaskQueue.nextDue toList
  cases horder : q.order with
  | nil => rfl
  | cons p rest => exact congrArg some (hdue p (horder ▸ List.mem_cons_self))

theorem get?_eq (h : q.WellFormed) (id : TaskId) : q.get? id = Agenda.find id q.toList := by
  unfold Agenda.find
  cases hfind : q.toList.find? (·.id = id) with
  | none =>
    refine Option.eq_none_iff_forall_ne_some.mpr fun t ht => ?_
    obtain ⟨hmem, hid⟩ := h.get?_iff.mp ht
    exact List.find?_eq_none.mp hfind t hmem (decide_eq_true hid)
  | some t =>
    exact h.get?_iff.mpr ⟨List.mem_of_find?_eq_some hfind, by simpa using List.find?_some hfind⟩

theorem contains_eq (h : q.WellFormed) (id : TaskId) :
    q.contains id = q.toList.any (·.id = id) := by
  rw [Bool.eq_iff_iff, h.contains_iff, ids, List.mem_map, List.any_eq_true]
  simp only [decide_eq_true_eq]

/-- The index is the inverse of the order: it leads to a slot exactly for the task held there. -/
theorem index_inverse (h : q.WellFormed) (id : TaskId) (slot : Slot) :
    Entries.get? id q.index = some slot ↔ ∃ t, Entries.get? slot q.order = some t ∧ t.id = id := by
  rw [h.index_iff]
  constructor
  · rintro ⟨t, ht, hid⟩
    exact ⟨t, h.get?_slot ht, hid⟩
  · rintro ⟨t, ht, hid⟩
    exact ⟨t, Entries.mem_of_get? ht, hid⟩

end WellFormed

/-- A queue that holds an agenda after so many insertions. -/
structure Holds (q : TaskQueue β) (agenda : List (Task β)) (insertions : Nat) : Prop where
  wellFormed : q.WellFormed
  toList_eq : q.toList = agenda
  nextTurn_eq : q.nextTurn = insertions

theorem holds_empty : (empty : TaskQueue β).Holds [] 0 := ⟨wellFormed_empty, rfl, rfl⟩

/-- A call gets the answer of the agenda and leaves the queue holding what is left of it. -/
theorem Holds.answer {q : TaskQueue β} {agenda : List (Task β)} {n : Nat} (h : q.Holds agenda n)
    (call : QueueCall β) :
    (q.answer call).1 = (Agenda.answer call agenda).1 ∧
      (q.answer call).2.Holds (Agenda.answer call agenda).2 (n + call.inserts.toNat) := by
  obtain ⟨hq, rfl, rfl⟩ := h
  cases call with
  | insert t =>
    refine ⟨rfl, hq.insert t, hq.toList_insert_eq t, ?_⟩
    exact congrArg (· + 1) (nextTurn_take t.id q)
  | peekDue bound => exact ⟨congrArg QueueAnswer.found (hq.peekDue_eq bound), hq, rfl, rfl⟩
  | popDue bound =>
    have hpeek := hq.peekDue_eq bound
    rw [peekDue_eq_popDue] at hpeek
    simp only [TaskQueue.answer, Agenda.answer, ← hpeek]
    cases hpop : q.popDue bound with
    | none => exact ⟨rfl, hq, rfl, rfl⟩
    | some p =>
      obtain ⟨t, rest⟩ := p
      obtain ⟨_, hlist, hrest⟩ := hq.popDue hpop
      exact ⟨rfl, hrest, by rw [hlist]; rfl, nextTurn_popDue hpop⟩
  | remove id =>
    refine ⟨congrArg QueueAnswer.said ?_, hq.remove id, hq.toList_remove id, nextTurn_take id q⟩
    exact (hq.remove_fst id).trans (hq.contains_eq id)
  | take id =>
    refine ⟨congrArg QueueAnswer.found ?_, hq.take id, hq.toList_take id, nextTurn_take id q⟩
    exact (take_fst id q).trans (hq.get?_eq id)
  | get id => exact ⟨congrArg QueueAnswer.found (hq.get?_eq id), hq, rfl, rfl⟩
  | contains id => exact ⟨congrArg QueueAnswer.said (hq.contains_eq id), hq, rfl, rfl⟩
  | nextDue => exact ⟨congrArg QueueAnswer.time hq.nextDue_eq, hq, rfl, rfl⟩
  | drain => exact ⟨rfl, wellFormed_drain q, rfl, rfl⟩
  | size => exact ⟨congrArg QueueAnswer.count q.length_toList.symm, hq, rfl, rfl⟩

theorem Holds.play {q : TaskQueue β} {agenda : List (Task β)} {n : Nat} (h : q.Holds agenda n)
    (calls : List (QueueCall β)) :
    (QueueCall.play TaskQueue.answer calls q).1 = (QueueCall.play Agenda.answer calls agenda).1 ∧
      (QueueCall.play TaskQueue.answer calls q).2.Holds (QueueCall.play Agenda.answer calls agenda).2
        (n + calls.countP QueueCall.inserts) := by
  induction calls generalizing q agenda n with
  | nil => exact ⟨rfl, h⟩
  | cons call calls ih =>
    obtain ⟨hanswer, hleft⟩ := h.answer call
    obtain ⟨hanswers, hend⟩ := ih hleft
    have hcount : n + (call :: calls).countP QueueCall.inserts =
        n + call.inserts.toNat + calls.countP QueueCall.inserts := by
      rw [List.countP_cons, Nat.add_assoc, Nat.add_comm call.inserts.toNat]
      cases call.inserts <;> rfl
    rw [hcount]
    exact ⟨congr (congrArg List.cons hanswer) hanswers, hend⟩

end TaskQueue

/-- A queue answers every sequence of calls as the stably sorted list does and holds that list
afterwards; its index and its order are then inverse to each other, and as it has given out one turn
for each insertion, a counter of 64 bits does not wrap before the 2^64th. -/
theorem queue_is_stably_sorted_list {β : Type} (calls : List (QueueCall β)) :
    let played := QueueCall.play TaskQueue.answer calls .empty
    let expected := QueueCall.play Agenda.answer calls []
    played.1 = expected.1 ∧ played.2.toList = expected.2 ∧
      (expected.2.Pairwise fun a b => a.due ≤ b.due) ∧
      (∀ id slot, Entries.get? id played.2.index = some slot ↔
        ∃ t, Entries.get? slot played.2.order = some t ∧ t.id = id) ∧
      (∀ slot t, Entries.get? slot played.2.order = some t → slot.due = t.due) ∧
      (∀ slot ∈ Entries.keys played.2.order, slot.turn < played.2.nextTurn) ∧
      played.2.nextTurn = calls.countP QueueCall.inserts := by
  obtain ⟨hanswers, hend⟩ := TaskQueue.holds_empty.play calls
  have hq := hend.wellFormed
  refine ⟨hanswers, hend.toList_eq, hend.toList_eq ▸ hq.toList_sorted, hq.index_inverse, ?_, ?_, ?_⟩
  · exact fun slot t ht => hq.due_eq (slot, t) (Entries.mem_of_get? ht)
  · intro slot hslot
    obtain ⟨p, hp, rfl⟩ := List.mem_map.mp hslot
    exact hq.turn_lt p hp
  · exact hend.nextTurn_eq.trans (Nat.zero_add _)

/-- A task that is put in again goes behind those it was in front of. -/
example :
    (QueueCall.play TaskQueue.answer
      [.insert ⟨⟨0⟩, (), 0, 5⟩, .insert ⟨⟨1⟩, (), 0, 5⟩, .insert ⟨⟨0⟩, (), 0, 5⟩] .empty).2.toList.map (·.id) =
      [⟨1⟩, ⟨0⟩] := rfl

end Vivarium
