import Vivarium.Proofs.Keyed

/-! # The history of a set of attributes

The calls that were made on a set since it was new say what is in it, in which order, who is subscribed
to what, and of which events the subscribers are told.
-/

namespace Vivarium

/-- A call on a set of attributes. -/
inductive AttributeCall (β : Type)
  | set (k : AttributeKey) (v : Value)
  | remove (k : AttributeKey)
  | clear
  | fire (k : AttributeKey)
  | subscribe (k : AttributeKey) (l : Listener β)
  | unsubscribe (k : AttributeKey) (id : ListenerId)

namespace AttributeCall

variable {β : Type}

abbrev Answer : AttributeCall β → Type
  | .set _ _ => Except EntityError (Option Value)
  | .remove _ => Option Value
  | .clear | .fire _ => Unit
  | .subscribe _ _ | .unsubscribe _ _ => Bool

/-! ## What a history says

The last call comes first. -/

/-- The value that was set last, unless it was removed since. -/
def standing (k : AttributeKey) : List (AttributeCall β) → Option Value
  | [] => none
  | .set k' v :: past => if k' = k ∧ v.type = k.type then some v else standing k past
  | .remove k' :: past => if k' = k then none else standing k past
  | .clear :: _ => none
  | _ :: past => standing k past

/-- The number of the call by which the key came in when it was last absent. -/
def since (k : AttributeKey) : List (AttributeCall β) → Option Nat
  | [] => none
  | .set k' v :: past =>
    if k' = k ∧ v.type = k.type then (since k past).or (some past.length) else since k past
  | .remove k' :: past => if k' = k then none else since k past
  | .clear :: _ => none
  | _ :: past => since k past

/-- Who is subscribed to the key, in the order of subscription. -/
def subscribers (k : AttributeKey) : List (AttributeCall β) → List ListenerId
  | [] => []
  | .subscribe k' l :: past => if k' = k then Distinct.add l.id (subscribers k past) else subscribers k past
  | .unsubscribe k' id :: past =>
    if k' = k then Distinct.remove id (subscribers k past) else subscribers k past
  | _ :: past => subscribers k past

/-- The key of which a call tells the listeners: one that is set to a value of its type, or one that is
present and removed or fired. -/
def tells (past : List (AttributeCall β)) : AttributeCall β → Option AttributeKey
  | .set k v => if v.type = k.type then some k else none
  | .remove k | .fire k => if (standing k past).isSome then some k else none
  | _ => none

/-- What is delivered: to each subscriber of the key one event, with the value that stands after the call
and the one that stood before it. -/
def delivered (owner : EntityId) (past : List (AttributeCall β)) (c : AttributeCall β) :
    List (ListenerId × AttributeEvent) :=
  match c.tells past with
  | none => []
  | some k => (subscribers k past).map (·, ⟨owner, k, standing k (c :: past), standing k past⟩)

def log (owner : EntityId) : List (AttributeCall β) → List (ListenerId × AttributeEvent)
  | [] => []
  | c :: past => log owner past ++ c.delivered owner past

/-- What the caller is answered. -/
def answered (past : List (AttributeCall β)) : (c : AttributeCall β) → c.Answer
  | .set k v => if v.type = k.type then .ok (standing k past) else .error (.typeMismatch k.name k.type v.type)
  | .remove k => standing k past
  | .clear | .fire _ => ()
  | .subscribe k l => decide (l.id ∉ subscribers k past)
  | .unsubscribe k id => decide (id ∈ subscribers k past)

variable {past : List (AttributeCall β)} {k : AttributeKey} {v : Value} {c : AttributeCall β}

theorem since_isSome (k : AttributeKey) (past : List (AttributeCall β)) :
    (since k past).isSome = (standing k past).isSome := by
  induction past with
  | nil => rfl
  | cons c past ih =>
    cases c with
    | set k' v =>
      simp only [since, standing]
      split
      · simp
      · exact ih
    | remove k' =>
      simp only [since, standing]
      split
      · rfl
      · exact ih
    | clear => rfl
    | fire | subscribe | unsubscribe => exact ih

theorem since_lt {n : Nat} (h : since k past = some n) : n < past.length := by
  induction past with
  | nil => cases h
  | cons c past ih =>
    have hold : since k past = some n → n < (c :: past).length := fun h => Nat.lt_succ_of_lt (ih h)
    cases c with
    | set k' v =>
      rw [since] at h
      split at h
      · rcases Option.or_eq_some_iff.mp h with h | ⟨-, h⟩
        · exact hold h
        · cases h
          exact Nat.lt_succ_self _
      · exact hold h
    | remove k' =>
      rw [since] at h
      split at h
      · cases h
      · exact hold h
    | clear => cases h
    | fire | subscribe | unsubscribe => exact hold h

theorem standing_type (h : standing k past = some v) : v.type = k.type := by
  induction past with
  | nil => cases h
  | cons c past ih =>
    cases c with
    | set k' v' =>
      rw [standing] at h
      split at h
      · next hset =>
        cases h
        exact hset.2
      · exact ih h
    | remove k' =>
      rw [standing] at h
      split at h
      · cases h
      · exact ih h
    | clear => cases h
    | fire | subscribe | unsubscribe => exact ih h

theorem nodup_subscribers (k : AttributeKey) (past : List (AttributeCall β)) :
    (subscribers k past).Nodup := by
  induction past with
  | nil => exact List.nodup_nil
  | cons c past ih =>
    cases c with
    | subscribe k' l =>
      rw [subscribers]
      split
      · exact Distinct.nodup_add ih
      · exact ih
    | unsubscribe k' id =>
      rw [subscribers]
      split
      · exact ih.sublist List.filter_sublist
      · exact ih
    | set | remove | clear | fire => exact ih

theorem delivered_of_tells {owner : EntityId} (h : c.tells past = some k) : c.delivered owner past =
    (subscribers k past).map (·, ⟨owner, k, standing k (c :: past), standing k past⟩) := by
  rw [delivered, h]

/-- An event is classified by what was there before the call and what is there after it. -/
theorem change_of_tells (h : c.tells past = some k) (owner : EntityId) :
    ((AttributeEvent.mk owner k (standing k (c :: past)) (standing k past)).change = .added ↔
      standing k past = none) ∧
    ((AttributeEvent.mk owner k (standing k (c :: past)) (standing k past)).change = .removed ↔
      standing k (c :: past) = none) := by
  have hthere : standing k past ≠ none ∨ standing k (c :: past) ≠ none := by
    cases c with
    | set k' v =>
      rw [tells] at h
      split at h
      · next hv =>
        cases h
        rw [standing, if_pos ⟨rfl, hv⟩]
        exact Or.inr (Option.some_ne_none v)
      · cases h
    | remove k' | fire k' =>
      rw [tells] at h
      split at h
      · next hv =>
        cases h
        exact Or.inl (Option.isSome_iff_ne_none.mp hv)
      · cases h
    | clear | subscribe | unsubscribe => cases h
  unfold AttributeEvent.change
  cases hbefore : standing k past <;> cases hafter : standing k (c :: past) <;> simp_all

/-- What a call makes of the set itself. -/
def apply : AttributeCall β → AttributeSet β → AttributeSet β
  | .set k v, a => if v.type = k.type then a.put k v else a
  | .remove k, a => a.erase k
  | .clear, a => a.clear
  | .fire _, a => a
  | .subscribe k l, a => (a.subscribe k l).2
  | .unsubscribe k id, a => (a.unsubscribe k id).2

end AttributeCall

open AttributeCall

/-! ## Sets that are as their history says -/

namespace Listener

variable {β : Type} {ls : List (Listener β)}

theorem ids_subscribe (l : Listener β) (ls : List (Listener β)) :
    (l.subscribe ls).2.map (·.id) = Distinct.add l.id (ls.map (·.id)) := by
  unfold subscribe Distinct.add
  by_cases hl : l.id ∈ ls.map (·.id)
  · rw [if_pos (any_id.mpr hl), if_pos hl]
  · rw [if_neg (fun hany => hl (any_id.mp hany)), if_neg hl, List.map_append]
    rfl

theorem subscribe_fst (l : Listener β) (ls : List (Listener β)) :
    (l.subscribe ls).1 = decide (l.id ∉ ls.map (·.id)) := by
  unfold subscribe
  by_cases hl : l.id ∈ ls.map (·.id)
  · rw [if_pos (any_id.mpr hl), decide_eq_false (not_not.mpr hl)]
  · rw [if_neg (fun hany => hl (any_id.mp hany)), decide_eq_true hl]

theorem unsubscribe_fst (id : ListenerId) (ls : List (Listener β)) :
    (unsubscribe id ls).1 = decide (id ∈ ls.map (·.id)) := by
  rw [Bool.eq_iff_iff, decide_eq_true_iff]
  exact any_id

theorem ids_unsubscribe (id : ListenerId) (ls : List (Listener β)) :
    (unsubscribe id ls).2.map (·.id) = Distinct.remove id (ls.map (·.id)) := by
  rw [unsubscribe, Distinct.remove, List.filter_map]
  congr 1
  apply List.filter_congr
  intro l _
  by_cases hl : l.id = id <;> simp [hl]

end Listener

namespace AttributeSet

variable {β : Type} {a : AttributeSet β} {past : List (AttributeCall β)} {owner : EntityId}

structure Mirrors (past : List (AttributeCall β)) (owner : EntityId) (a : AttributeSet β) : Prop where
  owner : a.owner = owner
  get? : ∀ k, a.get? k = standing k past
  order : (Entries.keys a.values).Pairwise fun k k' =>
    ∃ m n, since k past = some m ∧ since k' past = some n ∧ m < n
  subscribed : ∀ k, (a.listenersOf k).map (·.id) = subscribers k past

theorem Mirrors.empty (owner : EntityId) : (⟨owner, [], []⟩ : AttributeSet β).Mirrors [] owner where
  owner := rfl
  get? _ := rfl
  order := .nil
  subscribed _ := rfl

namespace Mirrors

variable (h : a.Mirrors past owner)

include h

theorem mem_keys_iff {k : AttributeKey} : k ∈ Entries.keys a.values ↔ ∃ n, since k past = some n := by
  rw [← Entries.get?_isSome_iff, ← Option.isSome_iff_exists, since_isSome, ← h.get?]
  rfl

/-- The order does not change where the keys that stay came in as before. -/
theorem order_of_sublist {past' : List (AttributeCall β)} {ks : List AttributeKey}
    (hsub : ks.Sublist (Entries.keys a.values)) (hsince : ∀ k ∈ ks, since k past' = since k past) :
    ks.Pairwise fun k k' => ∃ m n, since k past' = some m ∧ since k' past' = some n ∧ m < n := by
  refine (h.order.sublist hsub).imp_of_mem ?_
  intro k k' hk hk' hbefore
  rwa [hsince k hk, hsince k' hk']

theorem put {k : AttributeKey} {v : Value} (hv : v.type = k.type) :
    (a.put k v).Mirrors (.set k v :: past) owner where
  owner := h.owner
  get? k' := by
    by_cases hk : k = k'
    · subst hk
      rw [standing, if_pos ⟨rfl, hv⟩]
      exact Entries.get?_put_self k v a.values
    · rw [standing, if_neg (fun hset => hk hset.1), ← h.get?]
      exact Entries.get?_put_of_ne hk v a.values
  order := by
    have hothers : ∀ k', k' ≠ k → since k' (.set k v :: past) = since k' past := by
      intro k' hk'
      rw [since, if_neg (fun hset => hk' hset.1.symm)]
    have hself : since k (.set k v :: past) = (since k past).or (some past.length) := by
      rw [since, if_pos ⟨rfl, hv⟩]
    change (Entries.keys (Entries.put k v a.values)).Pairwise _
    rw [Entries.keys_put]
    split
    · next hin =>
      obtain ⟨n, hn⟩ := h.mem_keys_iff.mp hin
      apply h.order_of_sublist (List.Sublist.refl _)
      intro k' _
      by_cases hk : k' = k
      · rw [hk, hself, hn]
        rfl
      · exact hothers k' hk
    · next hout =>
      have hne : ∀ k' ∈ Entries.keys a.values, k' ≠ k := by
        rintro k' hk' rfl
        exact hout hk'
      have hnew : since k (.set k v :: past) = some past.length := by
        have hnone : since k past = none :=
          Option.eq_none_iff_forall_ne_some.mpr fun n hn => hout (h.mem_keys_iff.mpr ⟨n, hn⟩)
        rw [hself, hnone]
        rfl
      rw [List.pairwise_append]
      refine ⟨h.order_of_sublist (List.Sublist.refl _) fun k' hk' => hothers k' (hne k' hk'),
        List.pairwise_singleton _ _, ?_⟩
      intro k' hk' _ hlast
      obtain rfl := List.mem_singleton.mp hlast
      obtain ⟨n, hn⟩ := h.mem_keys_iff.mp hk'
      exact ⟨n, past.length, (hothers k' (hne k' hk')).trans hn, hnew, since_lt hn⟩
  subscribed := h.subscribed

theorem mistyped {k : AttributeKey} {v : Value} (hv : v.type ≠ k.type) :
    a.Mirrors (.set k v :: past) owner where
  owner := h.owner
  get? k' := by
    rw [standing, if_neg, h.get?]
    rintro ⟨rfl, hset⟩
    exact hv hset
  order := by
    apply h.order_of_sublist (List.Sublist.refl _)
    intro k' _
    rw [since, if_neg]
    rintro ⟨rfl, hset⟩
    exact hv hset
  subscribed := h.subscribed

theorem erase (k : AttributeKey) : (a.erase k).Mirrors (.remove k :: past) owner where
  owner := h.owner
  get? k' := by
    by_cases hk : k = k'
    · subst hk
      rw [standing, if_pos rfl]
      exact Entries.get?_erase_self k a.values
    · rw [standing, if_neg hk, ← h.get?]
      exact Entries.get?_erase_of_ne hk a.values
  order := by
    change (Entries.keys (Entries.erase k a.values)).Pairwise _
    rw [Entries.keys_erase]
    apply h.order_of_sublist List.filter_sublist
    intro k' hk'
    have hne : k' ≠ k := by simpa using (List.mem_filter.mp hk').2
    rw [since, if_neg (Ne.symm hne)]
  subscribed := h.subscribed

theorem clear : a.clear.Mirrors (.clear :: past) owner where
  owner := h.owner
  get? _ := rfl
  order := .nil
  subscribed := h.subscribed

theorem relisten {c : AttributeCall β} {listeners : List (AttributeKey × List (Listener β))}
    (hstanding : ∀ k, standing k (c :: past) = standing k past)
    (hsince : ∀ k, since k (c :: past) = since k past)
    (hlisteners : ∀ k, (listenersOf k { a with listeners }).map (·.id) = subscribers k (c :: past)) :
    Mirrors (c :: past) owner { a with listeners } where
  owner := h.owner
  get? k := (h.get? k).trans (hstanding k).symm
  order := h.order_of_sublist (List.Sublist.refl _) fun k _ => hsince k
  subscribed := hlisteners

theorem subscribe (k : AttributeKey) (l : Listener β) :
    (a.subscribe k l).2.Mirrors (.subscribe k l :: past) owner := by
  apply h.relisten (fun _ => rfl) fun _ => rfl
  intro k'
  rw [subscribers, ← h.subscribed, listenersOf]
  by_cases hk : k = k'
  · subst hk
    rw [Entries.get?_put_self, if_pos rfl]
    exact Listener.ids_subscribe l (a.listenersOf k)
  · rw [Entries.get?_put_of_ne hk, if_neg hk]
    rfl

theorem unsubscribe (k : AttributeKey) (id : ListenerId) :
    (a.unsubscribe k id).2.Mirrors (.unsubscribe k id :: past) owner := by
  have hrelisten : ∀ k', (listenersOf k' { a with
      listeners := Entries.put k (Listener.unsubscribe id (a.listenersOf k)).2 a.listeners }).map (·.id) =
        subscribers k' (.unsubscribe k id :: past) := by
    intro k'
    rw [subscribers, ← h.subscribed, listenersOf]
    by_cases hk : k = k'
    · subst hk
      rw [Entries.get?_put_self, if_pos rfl]
      exact Listener.ids_unsubscribe id (a.listenersOf k)
    · rw [Entries.get?_put_of_ne hk, if_neg hk]
      rfl
  unfold AttributeSet.unsubscribe
  simp only
  split
  · exact h.relisten (fun _ => rfl) (fun _ => rfl) hrelisten
  · next hout =>
    have hleft : ∀ k', (a.listenersOf k').map (·.id) = subscribers k' (.unsubscribe k id :: past) := by
      intro k'
      rw [subscribers, h.subscribed]
      split
      · next hk =>
        subst hk
        have hnot : id ∉ subscribers k past := by
          rw [← h.subscribed]
          exact fun hid => hout (Listener.any_id.mpr hid)
        symm
        apply List.filter_eq_self.mpr
        intro id' hid
        exact decide_eq_true fun heq => hnot (heq ▸ hid)
      · rfl
    exact h.relisten (fun _ => rfl) (fun _ => rfl) hleft

theorem apply (c : AttributeCall β) : (c.apply a).Mirrors (c :: past) owner := by
  cases c with
  | set k v =>
    rw [AttributeCall.apply]
    split
    · next hv => exact h.put hv
    · next hv => exact h.mistyped hv
  | remove k => exact h.erase k
  | clear => exact h.clear
  | fire k => exact h.relisten (fun _ => rfl) (fun _ => rfl) h.subscribed
  | subscribe k l => exact h.subscribe k l
  | unsubscribe k id => exact h.unsubscribe k id

theorem keyed : a.Keyed := by
  refine h.order.imp ?_
  rintro k _ ⟨m, n, hm, hn, hlt⟩ rfl
  obtain rfl := Option.some.inj (hm.symm.trans hn)
  exact Nat.lt_irrefl m hlt

theorem mem_iff {k : AttributeKey} {v : Value} : (k, v) ∈ a.values ↔ standing k past = some v := by
  rw [← h.get?]
  exact ⟨Entries.get?_of_mem h.keyed, Entries.mem_of_get?⟩

end Mirrors

end AttributeSet

end Vivarium
