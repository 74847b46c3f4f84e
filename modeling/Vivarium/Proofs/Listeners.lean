import Vivarium.Proofs.Evolution

/-! # Who listens where

A listener stands at most once where it listens, and children stand in the order in which they were
made, in every simulation that programs lead to.
-/

namespace Vivarium

namespace Listener

variable {β : Type} {ls : List (Listener β)}

theorem any_id {id : ListenerId} : ls.any (·.id == id) = true ↔ id ∈ ls.map (·.id) := by
  rw [List.any_eq_true, List.mem_map]
  simp only [beq_iff_eq]

theorem nodup_subscribe (h : (ls.map (·.id)).Nodup) (l : Listener β) :
    ((l.subscribe ls).2.map (·.id)).Nodup := by
  unfold subscribe
  split
  · exact h
  · next hnew =>
    rw [any_id] at hnew
    rw [List.map_append, List.nodup_append]
    refine ⟨h, List.pairwise_singleton _ _, ?_⟩
    rintro id hid _ hl rfl
    obtain rfl := List.mem_singleton.mp hl
    exact hnew hid

theorem nodup_unsubscribe (h : (ls.map (·.id)).Nodup) (id : ListenerId) :
    ((unsubscribe id ls).2.map (·.id)).Nodup := (List.filter_sublist.map _).nodup h

theorem mem_subscribe {l l' : Listener β} (h : l' ∈ (l.subscribe ls).2) : l' ∈ ls ∨ l' = l := by
  unfold subscribe at h
  split at h
  · exact Or.inl h
  · simpa using h

theorem mem_ids_subscribe {l : Listener β} {id : ListenerId} :
    id ∈ (l.subscribe ls).2.map (·.id) ↔ id ∈ ls.map (·.id) ∨ id = l.id := by
  unfold subscribe
  split
  · next hold =>
    have hl := any_id.mp hold
    constructor
    · exact Or.inl
    · rintro (h | rfl)
      · exact h
      · exact hl
  · simp only [List.map_append, List.map_cons, List.map_nil, List.mem_append, List.mem_singleton]

theorem mem_ids_unsubscribe {id out : ListenerId} :
    id ∈ (unsubscribe out ls).2.map (·.id) ↔ id ∈ ls.map (·.id) ∧ id ≠ out := by
  simp only [unsubscribe, List.mem_map, List.mem_filter, bne_iff_ne]
  constructor
  · rintro ⟨l, ⟨hl, hne⟩, rfl⟩
    exact ⟨⟨l, hl, rfl⟩, hne⟩
  · rintro ⟨⟨l, hl, rfl⟩, hne⟩
    exact ⟨l, ⟨hl, hne⟩, rfl⟩

end Listener

namespace AttributeSet

variable {β : Type} {a a' : AttributeSet β} {k : AttributeKey}

/-- No listener is subscribed twice to a key. -/
def Apart (a : AttributeSet β) : Prop := ∀ k, ((a.listenersOf k).map (·.id)).Nodup

theorem Apart.of_none (h : a.listeners = []) : a.Apart := by
  intro k
  rw [listenersOf, h]
  exact List.nodup_nil

theorem putAll_listeners (vs : List (AttributeKey × Value)) (a : AttributeSet β) :
    (putAll vs a).listeners = a.listeners := by
  unfold putAll
  induction vs generalizing a with
  | nil => rfl
  | cons v vs ih => exact ih _

theorem Apart.relisten (h : a.Apart) (k : AttributeKey) {ls : List (Listener β)}
    (hls : (ls.map (·.id)).Nodup) :
    Apart { a with listeners := Entries.put k ls a.listeners } := by
  intro k'
  by_cases hk : k = k'
  · subst hk
    rw [listenersOf, Entries.get?_put_self]
    exact hls
  · rw [listenersOf, Entries.get?_put_of_ne hk]
    exact h k'

theorem Edit.apart (he : a.Edit a') (h : a.Apart) : a'.Apart := by
  cases he with
  | put | erase | clear => exact h
  | subscribe k l => exact h.relisten k (Listener.nodup_subscribe (h k) l)
  | unsubscribe k id =>
    unfold AttributeSet.unsubscribe
    simp only
    split
    · exact h.relisten k (Listener.nodup_unsubscribe (h k) id)
    · exact h

end AttributeSet

namespace Simulation

variable {β μ : Type} {s s' : Simulation β μ}

theorem attributesOf_standalone (i : Nat) (s : Simulation β μ) :
    s.attributesOf (.standalone i) = s.standalone.getD i ⟨.drawn 0, [], []⟩ := rfl

/-- No listener stands twice where it listens. -/
structure Apart (s : Simulation β μ) : Prop where
  containers : ∀ e, ((s.forest.entity e).listeners.map (·.id)).Nodup
  entities : ∀ e, (s.forest.entity e).attributes.Apart
  standalone : ∀ a ∈ s.standalone, a.Apart

theorem Apart.attributesOf (h : s.Apart) (holder : Holder) : (s.attributesOf holder).Apart := by
  cases holder with
  | entity e => exact h.entities e
  | standalone i =>
    rw [attributesOf_standalone, Array.getD_eq_getD_getElem?]
    by_cases hi : i < s.standalone.size
    · rw [Array.getElem?_eq_getElem hi]
      exact h.standalone _ (Array.getElem_mem hi)
    · rw [Array.getElem?_eq_none (Nat.le_of_not_lt hi)]
      exact .of_none rfl

/-- A change of the tree that leaves all listeners where they are. -/
theorem Apart.tree (h : s.Apart) {f : Forest β}
    (hf : ∀ e, ((f.entity e).listeners = (s.forest.entity e).listeners ∨ (f.entity e).listeners = []) ∧
      ((f.entity e).attributes = (s.forest.entity e).attributes ∨ (f.entity e).attributes.listeners = [])) :
    Apart { s with forest := f } where
  containers e := by
    rcases (hf e).1 with heq | heq
    · change ((f.entity e).listeners.map _).Nodup
      rw [heq]
      exact h.containers e
    · change ((f.entity e).listeners.map _).Nodup
      rw [heq]
      exact List.nodup_nil
  entities e := by
    rcases (hf e).2 with heq | heq
    · change (f.entity e).attributes.Apart
      rw [heq]
      exact h.entities e
    · exact .of_none heq
  standalone := h.standalone

theorem Apart.sameListeners (h : s.Apart) {f : Forest β}
    (hl : ∀ e, (f.entity e).listeners = (s.forest.entity e).listeners)
    (ha : ∀ e, (f.entity e).attributes = (s.forest.entity e).attributes) : Apart { s with forest := f } :=
  h.tree fun e => ⟨Or.inl (hl e), Or.inl (ha e)⟩

theorem Apart.modify (h : s.Apart) {e : EntityRef} {g : Entity β → Entity β}
    (hl : ∀ x, (g x).listeners = x.listeners) (ha : ∀ x, (g x).attributes = x.attributes) :
    Apart { s with forest := s.forest.modify e g } :=
  h.sameListeners (fun _ => Forest.field_modify (·.listeners) hl)
    fun _ => Forest.field_modify (·.attributes) ha

theorem Apart.relisten (h : s.Apart) (e : EntityRef) {ls : List (Listener β)}
    (hls : (ls.map (·.id)).Nodup) :
    Apart { s with forest := s.forest.modify e fun x => { x with listeners := ls } } where
  containers x := by
    rcases Forest.entity_modify e x (fun x => { x with listeners := ls }) s.forest with heq | ⟨-, heq⟩
    · exact heq ▸ h.containers x
    · exact heq ▸ hls
  entities x := by
    rcases Forest.entity_modify e x (fun x => { x with listeners := ls }) s.forest with heq | ⟨-, heq⟩
    · exact heq ▸ h.entities x
    · exact heq ▸ h.entities x
  standalone := h.standalone

theorem Apart.edit (h : s.Apart) (holder : Holder) {a : AttributeSet β} (ha : a.Apart) :
    (s.withAttributes holder a).Apart := by
  cases holder with
  | entity e =>
    refine ⟨fun x => ?_, fun x => ?_, h.standalone⟩
    · rcases Forest.entity_modify e x (fun x => { x with attributes := a }) s.forest with heq | ⟨-, heq⟩
      · exact heq ▸ h.containers x
      · exact heq ▸ h.containers x
    · rcases Forest.entity_modify e x (fun x => { x with attributes := a }) s.forest with heq | ⟨-, heq⟩
      · exact heq ▸ h.entities x
      · exact heq ▸ ha
  | standalone i =>
    refine ⟨h.containers, h.entities, fun b hb => ?_⟩
    obtain ⟨j, hj⟩ := Array.mem_iff_getElem?.mp hb
    have hget : (s.standalone.modify i fun _ => a)[j]? = some b := hj
    rw [Array.getElem?_modify] at hget
    split at hget
    · obtain ⟨c, -, rfl⟩ := Option.map_eq_some_iff.mp hget
      exact ha
    · exact h.standalone b (Array.mem_of_getElem? hget)

theorem Apart.create (h : s.Apart) {p : EntityRef} (hp : p.index < s.forest.size) {x : Entity β}
    (hl : x.listeners = []) (ha : x.attributes.listeners = []) :
    Apart { s with forest := (s.forest.insertChild p x).2 } := by
  refine h.tree fun e => ?_
  by_cases he : e.index < s.forest.size
  · exact ⟨Or.inl (Forest.field_insertChild (·.listeners) (fun _ _ => rfl) hp he x),
      Or.inl (Forest.field_insertChild (·.attributes) (fun _ _ => rfl) hp he x)⟩
  · by_cases he' : e.index < (s.forest.insertChild p x).2.size
    · obtain rfl := (Forest.old_or_new p x he').resolve_right he
      rw [Forest.entity_insertChild_new hp]
      exact ⟨Or.inr hl, Or.inr ha⟩
    · rw [Forest.entity_of_size_le (Nat.le_of_not_lt he')]
      exact ⟨Or.inr rfl, Or.inr rfl⟩

theorem Apart.remark (h : s.Apart) (e : EntityRef) (change : List TypeName → List TypeName) :
    (s.remark e change).Apart := by
  refine h.modify (fun _ => ?_) fun _ => ?_
  · rfl
  · rfl

theorem Touch.apart {raw : EntityRef → Prop} (ht : s.Touch raw s') (h : s.Apart) : s'.Apart := by
  cases ht with
  | engine | memory | register | resolve | validate | schedulers =>
    exact ⟨h.containers, h.entities, h.standalone⟩
  | retask | cut | fall =>
    refine h.modify (fun _ => ?_) fun _ => ?_
    · rfl
    · rfl
  | mark | unmark => exact h.remark _ _
  | markAs hact =>
    obtain ⟨change, rfl⟩ := remarks_of_mark hact
    exact h.remark _ change
  | unmarkAs hact =>
    obtain ⟨change, rfl⟩ := remarks_of_unmark hact
    exact h.remark _ change
  | newAttributes owner =>
    refine ⟨h.containers, h.entities, fun a ha => ?_⟩
    rcases Array.mem_push.mp ha with ha | rfl
    · exact h.standalone a ha
    · exact .of_none rfl
  | edit holder he => exact h.edit holder (he.apart (h.attributesOf holder))
  | subscribe e l => exact h.relisten e (Listener.nodup_subscribe (h.containers e) l)
  | unsubscribe e id => exact h.relisten e (Listener.nodup_unsubscribe (h.containers e) id)
  | drawId | bind => exact ⟨h.containers, h.entities, h.standalone⟩
  | @create p hp id values =>
    refine h.create (Forest.index_lt_of_isAlive hp) ?_ ?_
    · rfl
    · exact AttributeSet.putAll_listeners values _

theorem New.apart {μ : Type} {s : Simulation (Code μ) μ} {bound : Bool} (h : s.New bound)
    (hs : s.standalone = #[]) : s.Apart := by
  obtain ⟨_, _, limit, -, -, hforest⟩ := h
  have hbare : ∀ e : EntityRef, (s.forest.entity e).listeners = [] ∧
      (s.forest.entity e).attributes.listeners = [] := by
    rintro ⟨i⟩
    rw [hforest]
    cases i with
    | zero => exact ⟨rfl, rfl⟩
    | succ i => exact ⟨rfl, rfl⟩
  constructor
  · intro e
    rw [(hbare e).1]
    exact List.nodup_nil
  · intro e
    exact .of_none (hbare e).2
  · intro a ha
    rw [hs] at ha
    simp at ha

theorem Lived.apart {μ : Type} {s : Simulation (Code μ) μ} (h : s.Lived) : s.Apart := by
  apply h.always
  · rintro s ⟨bound, hnew⟩ hs
    exact hnew.apart hs
  · intro s types hs
    exact ⟨hs.containers, hs.entities, hs.standalone⟩
  · intro s s' ht hs
    exact ht.apart hs

end Simulation

/-! ## Being told -/

namespace Forest

variable {β : Type} {f f' : Forest β} {p q : EntityRef} {id : ListenerId}

/-- The listener is attached to the container. -/
def Listens (id : ListenerId) (p : EntityRef) (f : Forest β) : Prop :=
  id ∈ (f.entity p).listeners.map (·.id)

theorem mem_listeners_subscribe {l l' : Listener β} (p : EntityRef)
    (h : l' ∈ ((f.subscribe p l).2.entity q).listeners) : l' ∈ (f.entity q).listeners ∨ l' = l := by
  have heq := entity_modify p q (fun x => { x with listeners := (l.subscribe (f.entity p).listeners).2 }) f
  change l' ∈ ((f.modify p fun x => { x with
    listeners := (l.subscribe (f.entity p).listeners).2 }).entity q).listeners at h
  rcases heq with heq | ⟨rfl, heq⟩
  · rw [heq] at h
    exact Or.inl h
  · rw [heq] at h
    exact Listener.mem_subscribe h

theorem mem_listeners_unsubscribe {l : Listener β} (p : EntityRef)
    (h : l ∈ ((f.unsubscribe p id).2.entity q).listeners) : l ∈ (f.entity q).listeners := by
  have heq := entity_modify p q
    (fun x => { x with listeners := (Listener.unsubscribe id (f.entity p).listeners).2 }) f
  change l ∈ ((f.modify p fun x => { x with
    listeners := (Listener.unsubscribe id (f.entity p).listeners).2 }).entity q).listeners at h
  rcases heq with heq | ⟨rfl, heq⟩
  · rw [heq] at h
    exact h
  · rw [heq] at h
    exact (List.mem_filter.mp h).1

/-- One who comes has no listeners, and neither has one who is not there yet. -/
theorem listeners_insertChild (hp : p.index < f.size) {y : Entity β} (hy : y.listeners = [])
    (e : EntityRef) : ((f.insertChild p y).2.entity e).listeners = (f.entity e).listeners :=
  field_insertChild_of_bare (·.listeners) (fun _ _ => rfl) hp hy e

/-- Whoever listens to a container is of this kind. -/
def Attended (kind : Listener β → Prop) (f : Forest β) : Prop := ∀ e, ∀ l ∈ (f.entity e).listeners, kind l

namespace Attended

variable {kind : Listener β → Prop}

theorem of_listeners (h : f.Attended kind)
    (hs : ∀ e, (f'.entity e).listeners = (f.entity e).listeners) : f'.Attended kind := by
  intro e l hl
  rw [hs] at hl
  exact h e l hl

theorem of_none (h : f.entities.all (·.listeners.isEmpty) = true) : f.Attended kind := by
  intro e l hl
  by_cases he : e.index < f.size
  · have hempty := Array.all_eq_true.mp h e.index he
    rw [entity, Array.getD_eq_getD_getElem?, Array.getElem?_eq_getElem he, Option.getD_some,
      List.isEmpty_iff.mp hempty] at hl
    cases hl
  · rw [entity_of_size_le (Nat.le_of_not_lt he)] at hl
    cases hl

theorem subscribe (h : f.Attended kind) (p : EntityRef) {l : Listener β} (hl : kind l) :
    (f.subscribe p l).2.Attended kind := by
  intro e l' hl'
  rcases mem_listeners_subscribe p hl' with hl' | rfl
  · exact h e l' hl'
  · exact hl

theorem unsubscribe (h : f.Attended kind) (p : EntityRef) (id : ListenerId) :
    (f.unsubscribe p id).2.Attended kind := fun e l hl => h e l (mem_listeners_unsubscribe p hl)

end Attended

theorem listens_subscribe (hp : p.index < f.size) (l : Listener β) :
    (f.subscribe p l).2.Listens id q ↔ f.Listens id q ∨ q = p ∧ id = l.id := by
  unfold Listens subscribe
  by_cases hq : q = p
  · subst hq
    simp only
    rw [entity_modify_self _ hp, Listener.mem_ids_subscribe]
    simp
  · simp only
    rw [entity_modify_of_ne _ hq]
    simp [hq]

theorem listens_unsubscribe (p : EntityRef) (out : ListenerId) :
    (f.unsubscribe p out).2.Listens id q ↔ f.Listens id q ∧ ¬(q = p ∧ id = out) := by
  unfold Listens unsubscribe
  by_cases hq : q = p
  · subst hq
    by_cases hlt : q.index < f.size
    · simp only
      rw [entity_modify_self _ hlt, Listener.mem_ids_unsubscribe]
      simp
    · have hnone : (f.entity q).listeners = [] := by
        rw [entity_of_size_le (Nat.le_of_not_lt hlt)]
        rfl
      simp only
      rw [entity_of_size_le (by rw [size_modify]; omega), hnone]
      simp [Entity.absent]
  · simp only
    rw [entity_modify_of_ne _ hq]
    simp [hq]

/-! ## The order of children -/

/-- Children were made before now, and stand in the order in which they were made. -/
structure Ascending (f : Forest β) : Prop where
  made : ∀ p, ∀ c ∈ f.children p, c.index < f.size
  sorted : ∀ p, (f.children p).Pairwise fun c d => c.index < d.index

namespace Ascending

theorem sameTree (h : f.Ascending) (hs : SameTree f f') : f'.Ascending := by
  constructor
  · intro p c hc
    rw [hs.children] at hc
    rw [hs.size]
    exact h.made p c hc
  · intro p
    rw [hs.children]
    exact h.sorted p

theorem sublist (h : f.Ascending) (hsize : f'.size = f.size)
    (hsub : ∀ p, (f'.children p).Sublist (f.children p)) : f'.Ascending := by
  constructor
  · intro p c hc
    rw [hsize]
    exact h.made p c ((hsub p).subset hc)
  · intro p
    exact (h.sorted p).sublist (hsub p)

theorem insertChild (h : f.Ascending) (hp : p.index < f.size) {y : Entity β} (hbare : y.children = []) :
    (f.insertChild p y).2.Ascending := by
  constructor
  · intro q c hc
    rw [size_insertChild]
    rcases (mem_children_insertChild hp hbare).mp hc with hc | ⟨-, rfl⟩
    · have hlt := h.made q c hc
      omega
    · exact Nat.lt_succ_self f.size
  · intro q
    rw [children_insertChild hp hbare]
    split
    · rw [List.pairwise_append]
      refine ⟨h.sorted q, List.pairwise_singleton _ _, ?_⟩
      intro c hc d hd
      obtain rfl := List.mem_singleton.mp hd
      exact h.made q c hc
    · exact h.sorted q

end Ascending

end Forest

namespace Simulation

variable {β μ : Type} {s s' : Simulation β μ}

/-- What a touch may do to the tree. -/
theorem Touch.tree {raw : EntityRef → Prop} (ht : s.Touch raw s') : s.forest.SameTree s'.forest ∨
    (∃ p x, s.forest.isAlive p = true ∧ x.alive = true ∧ x.children = [] ∧
      s'.forest = (s.forest.insertChild p x).2) ∨
    (∃ p c, s'.forest = s.forest.removeChild p c) ∨
    ∃ e bound, s'.forest = s.forest.fell e bound := by
  cases ht with
  | engine | memory | register | resolve | validate | schedulers | newAttributes => exact Or.inl (.refl _)
  | retask e tasks => exact Or.inl (.retask e tasks _)
  | edit holder =>
    cases holder with
    | entity e => exact Or.inl (Forest.SameWork.reattribute e _ _).toSameTree
    | standalone i => exact Or.inl (.refl _)
  | mark | unmark => exact Or.inl (Forest.SameWork.remark _ _ _).toSameTree
  | markAs hact =>
    obtain ⟨change, rfl⟩ := remarks_of_mark hact
    exact Or.inl (Forest.SameWork.remark _ change _).toSameTree
  | unmarkAs hact =>
    obtain ⟨change, rfl⟩ := remarks_of_unmark hact
    exact Or.inl (Forest.SameWork.remark _ change _).toSameTree
  | subscribe e | unsubscribe e => exact Or.inl (Forest.SameWork.relisten e _ _).toSameTree
  | drawId => exact Or.inl (Forest.SameWork.drawId _).toSameTree
  | bind bound => exact Or.inl (.rebind bound _)
  | create hp => exact Or.inr (Or.inl ⟨_, _, hp, rfl, rfl, rfl⟩)
  | cut p c => exact Or.inr (Or.inr (Or.inl ⟨p, c, rfl⟩))
  | fall e bound => exact Or.inr (Or.inr (Or.inr ⟨e, bound, rfl⟩))

theorem Touch.ascending {raw : EntityRef → Prop} (ht : s.Touch raw s') (h : s.forest.Ascending) :
    s'.forest.Ascending := by
  rcases ht.tree with hsame | ⟨p, x, hp, -, hbare, heq⟩ | ⟨p, c, heq⟩ | ⟨e, bound, heq⟩
  · exact h.sameTree hsame
  · rw [heq]
    exact h.insertChild (Forest.index_lt_of_isAlive hp) hbare
  · rw [heq]
    exact h.sublist (Forest.size_removeChild p c _) fun q => Forest.children_removeChild_sublist p c q _
  · rw [heq]
    have hsize : (s.forest.fell e bound).size = s.forest.size := Forest.size_modify _ _ _
    apply h.sublist hsize
    intro p
    rw [Forest.children_fell]
    split
    · exact List.nil_sublist _
    · exact List.Sublist.refl _

theorem Touches.ascending {raw : EntityRef → Prop} (ht : s.Touches raw s') (h : s.forest.Ascending) :
    s'.forest.Ascending := by
  induction ht with
  | refl => exact h
  | tail _ ht ih => exact ht.ascending ih

theorem Lived.ascending {μ : Type} {s : Simulation (Code μ) μ} (h : s.Lived) : s.forest.Ascending := by
  apply h.always
  · rintro s ⟨bound, hnew⟩ -
    have hbare : ∀ p, s.forest.children p = [] := by
      obtain ⟨_, _, _, -, -, hforest⟩ := hnew
      rintro ⟨i⟩
      rw [hforest]
      cases i with
      | zero => rfl
      | succ i => rfl
    constructor
    · intro p c hc
      rw [hbare] at hc
      cases hc
    · intro p
      rw [hbare]
      exact List.Pairwise.nil
  · intro s types hs
    exact hs
  · intro s s' ht hs
    exact ht.ascending hs

end Simulation

end Vivarium
