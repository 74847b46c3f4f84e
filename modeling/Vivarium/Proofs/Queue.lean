import Vivarium.Schedule.Queue

/-! # The order and the index of a queue

A well-formed queue holds its tasks in the strict order of their slots, and its index leads from an
identity to the slot that holds it. Every operation keeps a queue well-formed. What an operation does
to the list of the waiting tasks is stated here once, so that nothing else looks at the slots.
-/

namespace Vivarium

theorem Slot.lt_trans {a b c : Slot} (hab : a.lt b) (hbc : b.lt c) : a.lt c := by
  unfold Slot.lt at *
  omega

theorem Slot.lt_irrefl (a : Slot) : ¬a.lt a := by
  unfold Slot.lt
  omega

theorem Slot.lt_of_not_lt {a b : Slot} (h : ¬a.lt b) (hne : a ≠ b) : b.lt a := by
  obtain ⟨due, turn⟩ := a
  obtain ⟨due', turn'⟩ := b
  have hne : ¬(due = due' ∧ turn = turn') := by
    rintro ⟨rfl, rfl⟩
    exact hne rfl
  simp only [Slot.lt] at *
  omega

namespace TaskQueue

variable {β : Type}

/-! ## Placing -/

theorem place_perm {slot : Slot} {t : Task β} {order : List (Slot × Task β)}
    (h : ∀ p ∈ order, p.1 ≠ slot) : (place slot t order).Perm ((slot, t) :: order) := by
  induction order with
  | nil => exact List.Perm.refl _
  | cons p rest ih =>
    obtain ⟨s, u⟩ := p
    obtain ⟨hs, hrest⟩ := List.forall_mem_cons.mp h
    rw [place]
    split
    · exact List.Perm.refl _
    · rw [if_neg fun e => hs e.symm]
      exact ((ih hrest).cons (s, u)).trans (List.Perm.swap _ _ _)

theorem place_sorted {slot : Slot} {t : Task β} {order : List (Slot × Task β)}
    (hs : order.Pairwise fun a b => a.1.lt b.1) (h : ∀ p ∈ order, p.1 ≠ slot) :
    (place slot t order).Pairwise fun a b => a.1.lt b.1 := by
  induction order with
  | nil => exact List.pairwise_singleton _ _
  | cons p rest ih =>
    obtain ⟨s, u⟩ := p
    obtain ⟨hhead, htail⟩ := List.pairwise_cons.mp hs
    obtain ⟨hne, hrest⟩ := List.forall_mem_cons.mp h
    rw [place]
    split
    · next hlt =>
      refine List.pairwise_cons.mpr ⟨?_, hs⟩
      intro p hp
      rcases List.mem_cons.mp hp with rfl | hp
      · exact hlt
      · exact Slot.lt_trans hlt (hhead p hp)
    · next hlt =>
      rw [if_neg fun e => hne e.symm]
      refine List.pairwise_cons.mpr ⟨?_, ih htail hrest⟩
      intro p hp
      rcases List.mem_cons.mp ((place_perm hrest).mem_iff.mp hp) with rfl | hp
      · exact Slot.lt_of_not_lt hlt fun e => hne e.symm
      · exact hhead p hp

/-! ## Well-formed queues -/

/-- The identities of the waiting tasks, in the order of the queue. -/
def ids (q : TaskQueue β) : List TaskId := q.toList.map (·.id)

theorem filter_of_not_mem {q : TaskQueue β} {id : TaskId} (hid : id ∉ q.ids) :
    q.order.filter (·.2.id ≠ id) = q.order := by
  refine List.filter_eq_self.mpr fun p hp => decide_eq_true fun e => hid ?_
  exact e ▸ List.mem_map.mpr ⟨p.2, List.mem_map.mpr ⟨p, hp, rfl⟩, rfl⟩

structure WellFormed (q : TaskQueue β) : Prop where
  sorted : q.order.Pairwise fun a b => a.1.lt b.1
  due_eq : ∀ p ∈ q.order, p.1.due = p.2.due
  turn_lt : ∀ p ∈ q.order, p.1.turn < q.nextTurn
  index_iff : ∀ id slot, Entries.get? id q.index = some slot ↔ ∃ t, (slot, t) ∈ q.order ∧ t.id = id

theorem wellFormed_empty : (empty : TaskQueue β).WellFormed where
  sorted := List.Pairwise.nil
  due_eq := by rintro _ ⟨⟩
  turn_lt := by rintro _ ⟨⟩
  index_iff id slot := by simp [empty, Entries.get?]

namespace WellFormed

variable {q : TaskQueue β}

theorem slots_nodup (h : q.WellFormed) : (Entries.keys q.order).Nodup := by
  refine List.pairwise_map.mpr (h.sorted.imp ?_)
  intro a b hlt e
  exact Slot.lt_irrefl b.1 (e ▸ hlt)

theorem get?_slot (h : q.WellFormed) {slot : Slot} {t : Task β} (ht : (slot, t) ∈ q.order) :
    Entries.get? slot q.order = some t := Entries.get?_of_mem h.slots_nodup ht

/-- A slot holds one task and a task has one slot. -/
theorem slot_eq_iff (h : q.WellFormed) {p p' : Slot × Task β} (hp : p ∈ q.order) (hp' : p' ∈ q.order) :
    p.1 = p'.1 ↔ p.2.id = p'.2.id := by
  obtain ⟨slot, t⟩ := p
  obtain ⟨slot', t'⟩ := p'
  constructor
  · rintro rfl
    have heq : some t = some t' := (h.get?_slot hp).symm.trans (h.get?_slot hp')
    cases heq
    rfl
  · intro hid
    have hslot := (h.index_iff t.id slot).mpr ⟨t, hp, rfl⟩
    have hslot' := (h.index_iff t.id slot').mpr ⟨t', hp', hid.symm⟩
    exact Option.some.inj (hslot.symm.trans hslot')

theorem ids_nodup (h : q.WellFormed) : q.ids.Nodup := by
  rw [ids, toList, List.map_map]
  refine List.pairwise_map.mpr (List.Pairwise.imp_of_mem ?_ h.sorted)
  intro p p' hp hp' hlt e
  exact Slot.lt_irrefl p'.1 ((h.slot_eq_iff hp hp').mpr e ▸ hlt)

/-- The waiting tasks come in the order of the times at which they are due. -/
theorem toList_sorted (h : q.WellFormed) : q.toList.Pairwise fun a b => a.due ≤ b.due := by
  refine List.pairwise_map.mpr (List.Pairwise.imp_of_mem ?_ h.sorted)
  intro p p' hp hp' hlt
  rw [← h.due_eq p hp, ← h.due_eq p' hp']
  unfold Slot.lt at hlt
  omega

theorem contains_iff (h : q.WellFormed) {id : TaskId} : q.contains id = true ↔ id ∈ q.ids := by
  rw [contains, Entries.has, Option.isSome_iff_exists]
  simp only [h.index_iff, ids, toList, List.map_map, List.mem_map, Prod.exists, Function.comp_apply]

theorem get?_iff (h : q.WellFormed) {id : TaskId} {t : Task β} :
    q.get? id = some t ↔ t ∈ q.toList ∧ t.id = id := by
  rw [TaskQueue.get?, Option.bind_eq_some_iff]
  constructor
  · rintro ⟨slot, hslot, ht⟩
    obtain ⟨u, hu, hid⟩ := (h.index_iff id slot).mp hslot
    cases (h.get?_slot hu).symm.trans ht
    exact ⟨List.mem_map.mpr ⟨_, hu, rfl⟩, hid⟩
  · rintro ⟨ht, hid⟩
    obtain ⟨⟨slot, u⟩, hu, rfl⟩ := List.mem_map.mp ht
    exact ⟨slot, (h.index_iff id slot).mpr ⟨u, hu, hid⟩, h.get?_slot hu⟩

theorem contains_of_not_mem (h : q.WellFormed) {id : TaskId} (hid : id ∉ q.ids) :
    q.contains id = false := by
  rw [Bool.eq_false_iff, ne_eq, h.contains_iff]
  exact hid

/-- Taking the task of an identity out keeps a queue well-formed. -/
theorem erase (h : q.WellFormed) (id : TaskId) :
    WellFormed { q with
      order := q.order.filter (·.2.id ≠ id)
      index := Entries.erase id q.index } where
  sorted := h.sorted.filter _
  due_eq p hp := h.due_eq p (List.mem_filter.mp hp).1
  turn_lt p hp := h.turn_lt p (List.mem_filter.mp hp).1
  index_iff id' slot := by
    simp only [List.mem_filter, decide_eq_true_eq]
    by_cases hid : id = id'
    · subst hid
      rw [Entries.get?_erase_self]
      constructor
      · intro hno
        cases hno
      · rintro ⟨t, ⟨_, hne⟩, rfl⟩
        exact absurd rfl hne
    · rw [Entries.get?_erase_of_ne hid, h.index_iff]
      constructor
      · rintro ⟨t, ht, rfl⟩
        exact ⟨t, ⟨ht, fun e => hid e.symm⟩, rfl⟩
      · rintro ⟨t, ⟨ht, _⟩, rfl⟩
        exact ⟨t, ht, rfl⟩

/-! ## The operations -/

theorem take_of_not_mem (h : q.WellFormed) {id : TaskId} (hid : id ∉ q.ids) : q.take id = (none, q) := by
  unfold take
  cases hslot : Entries.get? id q.index with
  | none => rfl
  | some slot =>
    refine absurd (h.contains_iff.mp ?_) hid
    rw [contains, Entries.has, hslot]
    rfl

theorem take_of_mem (h : q.WellFormed) {id : TaskId} (hid : id ∈ q.ids) :
    ∃ t ∈ q.toList, t.id = id ∧ q.take id = (some t, { q with
      order := q.order.filter (·.2.id ≠ id)
      index := Entries.erase id q.index }) := by
  obtain ⟨slot, hslot⟩ := Option.isSome_iff_exists.mp (h.contains_iff.mpr hid)
  obtain ⟨t, ht, rfl⟩ := (h.index_iff id slot).mp hslot
  refine ⟨t, List.mem_map.mpr ⟨_, ht, rfl⟩, rfl, ?_⟩
  have horder : Entries.erase slot q.order = q.order.filter (·.2.id ≠ t.id) := by
    refine List.filter_congr fun p hp => ?_
    rw [decide_eq_decide]
    exact not_congr (h.slot_eq_iff hp ht)
  simp only [take, hslot, h.get?_slot ht, horder]

theorem order_take (h : q.WellFormed) (id : TaskId) :
    (q.take id).2.order = q.order.filter (·.2.id ≠ id) := by
  by_cases hid : id ∈ q.ids
  · obtain ⟨t, _, _, heq⟩ := h.take_of_mem hid
    rw [heq]
  · rw [h.take_of_not_mem hid, filter_of_not_mem hid]

theorem take (h : q.WellFormed) (id : TaskId) : (q.take id).2.WellFormed := by
  by_cases hid : id ∈ q.ids
  · obtain ⟨t, _, _, heq⟩ := h.take_of_mem hid
    rw [heq]
    exact h.erase id
  · rw [h.take_of_not_mem hid]
    exact h

theorem toList_take (h : q.WellFormed) (id : TaskId) :
    (q.take id).2.toList = q.toList.filter (·.id ≠ id) := by
  rw [toList, h.order_take id, toList, List.filter_map]
  rfl

theorem remove (h : q.WellFormed) (id : TaskId) : (q.remove id).2.WellFormed := h.take id

theorem remove_fst (h : q.WellFormed) (id : TaskId) : (q.remove id).1 = q.contains id := by
  rw [Bool.eq_iff_iff, h.contains_iff]
  by_cases hid : id ∈ q.ids
  · obtain ⟨t, _, _, heq⟩ := h.take_of_mem hid
    simp [TaskQueue.remove, heq, hid]
  · simp [TaskQueue.remove, h.take_of_not_mem hid, hid]

theorem toList_remove (h : q.WellFormed) (id : TaskId) :
    (q.remove id).2.toList = q.toList.filter (·.id ≠ id) := h.toList_take id

theorem ids_remove (h : q.WellFormed) (id : TaskId) :
    (q.remove id).2.ids = Distinct.remove id q.ids := by
  rw [ids, h.toList_remove, ids, Distinct.remove, List.filter_map]
  rfl

/-- The new slot is behind every slot of its time, so no slot is taken twice. -/
theorem slot_fresh (h : q.WellFormed) (t : Task β) :
    ∀ p ∈ (q.take t.id).2.order, p.1 ≠ ⟨t.due, (q.take t.id).2.nextTurn⟩ := by
  intro p hp e
  have hlt := (h.take t.id).turn_lt p hp
  rw [e] at hlt
  exact Nat.lt_irrefl _ hlt

theorem toList_insert (h : q.WellFormed) (t : Task β) :
    (q.insert t).toList.Perm (t :: q.toList.filter (·.id ≠ t.id)) := by
  rw [← h.toList_take t.id]
  exact (place_perm (h.slot_fresh t)).map (·.2)

theorem toList_insert_of_not_mem (h : q.WellFormed) {t : Task β} (ht : t.id ∉ q.ids) :
    (q.insert t).toList.Perm (t :: q.toList) := by
  have hall : q.toList.filter (·.id ≠ t.id) = q.toList := by
    refine List.filter_eq_self.mpr fun u hu => decide_eq_true fun (e : u.id = t.id) => ht ?_
    exact e ▸ List.mem_map.mpr ⟨u, hu, rfl⟩
  exact hall ▸ h.toList_insert t

theorem ids_insert_of_not_mem (h : q.WellFormed) {t : Task β} (ht : t.id ∉ q.ids) :
    (q.insert t).ids.Perm (t.id :: q.ids) :=
  (h.toList_insert_of_not_mem ht).map fun u : Task β => u.id

theorem insert (h : q.WellFormed) (t : Task β) : (q.insert t).WellFormed := by
  have hq := h.take t.id
  have hperm := place_perm (t := t) (h.slot_fresh t)
  constructor
  · exact place_sorted hq.sorted (h.slot_fresh t)
  · intro p hp
    rcases List.mem_cons.mp (hperm.mem_iff.mp hp) with rfl | hp
    · rfl
    · exact hq.due_eq p hp
  · intro p hp
    rcases List.mem_cons.mp (hperm.mem_iff.mp hp) with rfl | hp
    · exact Nat.lt_succ_self _
    · exact Nat.lt_succ_of_lt (hq.turn_lt p hp)
  · intro id slot
    have hmem : ∀ t', (slot, t') ∈ (q.insert t).order ↔
        (slot, t') = (⟨t.due, (q.take t.id).2.nextTurn⟩, t) ∨ (slot, t') ∈ (q.take t.id).2.order :=
      fun t' => hperm.mem_iff.trans List.mem_cons
    simp only [hmem]
    change Entries.get? id (Entries.put t.id _ _) = _ ↔ _
    by_cases hid : t.id = id
    · subst hid
      rw [Entries.get?_put_self]
      constructor
      · intro hslot
        cases hslot
        exact ⟨t, Or.inl rfl, rfl⟩
      · rintro ⟨t', heq | ht', he⟩
        · cases heq
          rfl
        · rw [h.order_take t.id] at ht'
          exact absurd he (of_decide_eq_true (List.mem_filter.mp ht').2)
    · rw [Entries.get?_put_of_ne hid, hq.index_iff]
      constructor
      · rintro ⟨t', ht', he⟩
        exact ⟨t', Or.inr ht', he⟩
      · rintro ⟨t', heq | ht', he⟩
        · cases heq
          exact absurd he hid
        · exact ⟨t', ht', he⟩

theorem popDue (h : q.WellFormed) {bound : Nat} {t : Task β} {rest : TaskQueue β}
    (hpop : q.popDue bound = some (t, rest)) :
    t.due < bound ∧ q.toList = t :: rest.toList ∧ rest.WellFormed := by
  unfold TaskQueue.popDue at hpop
  split at hpop
  · next slot u tail horder =>
    split at hpop
    · next hdue =>
      cases hpop
      have hids := h.ids_nodup
      rw [ids, toList, horder] at hids
      have htail : q.order.filter (·.2.id ≠ t.id) = tail := by
        rw [horder, List.filter_cons_of_neg (by simp)]
        refine List.filter_eq_self.mpr fun p hp => decide_eq_true fun e => ?_
        refine (List.nodup_cons.mp hids).1 (List.mem_map.mpr ⟨p.2, ?_, e⟩)
        exact List.mem_map.mpr ⟨p, hp, rfl⟩
      have hslot : slot.due = t.due := h.due_eq (slot, t) (horder ▸ List.mem_cons_self)
      refine ⟨hslot ▸ hdue, by rw [toList, horder]; rfl, ?_⟩
      have herase := h.erase t.id
      rwa [htail] at herase
    · cases hpop
  · cases hpop

theorem not_due_of_popDue (h : q.WellFormed) {bound : Nat} (hpop : q.popDue bound = none) :
    ∀ t ∈ q.toList, ¬t.due < bound := by
  unfold TaskQueue.popDue at hpop
  have hsorted := h.toList_sorted
  split at hpop
  · next slot u tail horder =>
    split at hpop
    · cases hpop
    · next hdue =>
      have hslot : slot.due = u.due := h.due_eq (slot, u) (horder ▸ List.mem_cons_self)
      rw [toList, horder] at hsorted ⊢
      intro t ht
      rcases List.mem_cons.mp ht with rfl | ht
      · exact hslot ▸ hdue
      · have hle := (List.pairwise_cons.mp hsorted).1 t ht
        simp only at hle
        omega
  · next horder =>
    rw [toList, horder]
    rintro _ ⟨⟩

/-- Popping what is due takes exactly the tasks that are due, in the order of the queue. -/
theorem popAllDue (h : q.WellFormed) (bound : Nat) :
    (q.popAllDue bound).1 = q.toList.filter (·.due < bound) ∧
      (q.popAllDue bound).2.toList = q.toList.filter (¬·.due < bound) ∧
      (q.popAllDue bound).2.WellFormed := by
  fun_induction TaskQueue.popAllDue bound q with
  | case1 q hpop =>
    have hno := h.not_due_of_popDue hpop
    refine ⟨(List.filter_eq_nil_iff.mpr ?_).symm, (List.filter_eq_self.mpr ?_).symm, h⟩
    · exact fun t ht => by simpa using hno t ht
    · exact fun t ht => by simpa using hno t ht
  | case2 q t rest hpop _ ts last heq ih =>
    obtain ⟨hdue, hlist, hrest⟩ := h.popDue hpop
    obtain ⟨hts, hlast, hwf⟩ := ih hrest
    rw [heq] at hts hlast hwf
    refine ⟨?_, ?_, hwf⟩
    · rw [hlist, List.filter_cons_of_pos (by simpa using hdue)]
      exact congrArg (t :: ·) hts
    · rw [hlist, List.filter_cons_of_neg (by simpa using hdue), hlast]

end WellFormed

theorem wellFormed_drain (q : TaskQueue β) : q.drain.2.WellFormed where
  sorted := List.Pairwise.nil
  due_eq := by rintro _ ⟨⟩
  turn_lt := by rintro _ ⟨⟩
  index_iff id slot := by simp [drain, Entries.get?]

end TaskQueue

end Vivarium
