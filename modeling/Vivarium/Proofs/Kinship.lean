import Vivarium.Entity.Forest

/-! # Kinship

What an operation on the tree changes of each entity, which changes leave the tree alone, who is below
whom, and what is known of an entity for good.
-/

namespace Vivarium

namespace Forest

variable {β : Type} {f f' : Forest β} {e x p c : EntityRef}

/-! ## Reading what was written -/

theorem entity_of_size_le (h : f.size ≤ e.index) : f.entity e = .absent := by
  unfold entity
  rw [Array.getD_eq_getD_getElem?, Array.getElem?_eq_none h]
  rfl

theorem index_lt_of_isAlive (h : f.isAlive e = true) : e.index < f.size := by
  refine Nat.lt_of_not_le fun hle => ?_
  rw [isAlive, entity_of_size_le hle] at h
  cases h

@[simp] theorem size_modify (e : EntityRef) (g : Entity β → Entity β) (f : Forest β) :
    (f.modify e g).size = f.size := Array.size_modify

theorem entity_modify_self (g : Entity β → Entity β) (h : e.index < f.size) :
    (f.modify e g).entity e = g (f.entity e) := by
  have hlt : e.index < (f.entities.modify e.index g).size := by rwa [Array.size_modify]
  unfold modify entity
  rw [Array.getD_eq_getD_getElem?, Array.getD_eq_getD_getElem?, Array.getElem?_modify, if_pos rfl]
  rw [Array.getElem?_eq_getElem h]
  rfl

theorem entity_modify_of_ne (g : Entity β → Entity β) (h : x ≠ e) :
    (f.modify e g).entity x = f.entity x := by
  have hne : e.index ≠ x.index := fun he => h (by cases x; cases e; simp_all)
  unfold modify entity
  rw [Array.getD_eq_getD_getElem?, Array.getD_eq_getD_getElem?, Array.getElem?_modify, if_neg hne]

/-- A change of one entity changes nothing or that one. -/
theorem entity_modify (e x : EntityRef) (g : Entity β → Entity β) (f : Forest β) :
    (f.modify e g).entity x = f.entity x ∨ x = e ∧ (f.modify e g).entity x = g (f.entity x) := by
  by_cases hx : x = e
  · subst hx
    by_cases hlt : x.index < f.size
    · exact Or.inr ⟨rfl, entity_modify_self g hlt⟩
    · rw [entity_of_size_le (Nat.le_of_not_lt hlt), entity_of_size_le]
      · exact Or.inl rfl
      · rw [size_modify]
        exact Nat.le_of_not_lt hlt
  · exact Or.inl (entity_modify_of_ne g hx)

/-- A field that a change leaves alone reads as before. -/
theorem field_modify {γ : Type} (φ : Entity β → γ) {g : Entity β → Entity β}
    (hg : ∀ y, φ (g y) = φ y) : φ ((f.modify e g).entity x) = φ (f.entity x) := by
  rcases entity_modify e x g f with heq | ⟨-, heq⟩
  · rw [heq]
  · rw [heq, hg]

@[simp] theorem size_insertChild (p : EntityRef) (y : Entity β) (f : Forest β) :
    (f.insertChild p y).2.size = f.size + 1 := by
  unfold insertChild
  rw [size_modify]
  exact Array.size_push _

theorem entity_insertChild_new (hp : p.index < f.size) (y : Entity β) :
    (f.insertChild p y).2.entity (f.insertChild p y).1 = { y with parent := some p } := by
  have hne : (⟨f.size⟩ : EntityRef) ≠ p := fun he => Nat.lt_irrefl f.size (by rw [← he] at hp; exact hp)
  unfold insertChild
  rw [entity_modify_of_ne _ hne, entity, Array.getD_eq_getD_getElem?]
  rw [show (⟨f.size⟩ : EntityRef).index = f.entities.size from rfl, Array.getElem?_push_size]
  rfl

theorem entity_push_old (hx : x.index < f.size) (y : Entity β) :
    ({ f with entities := f.entities.push y } : Forest β).entity x = f.entity x := by
  have hne : x.index ≠ f.entities.size := Nat.ne_of_lt hx
  rw [entity, entity, Array.getD_eq_getD_getElem?, Array.getD_eq_getD_getElem?, Array.getElem?_push,
    if_neg hne]

theorem entity_insertChild_parent (hp : p.index < f.size) (y : Entity β) :
    (f.insertChild p y).2.entity p =
      { f.entity p with children := f.children p ++ [(f.insertChild p y).1] } := by
  have hlt : p.index < ({ f with entities := f.entities.push { y with parent := some p } }
      : Forest β).size := by
    rw [size, Array.size_push]
    exact Nat.lt_succ_of_lt hp
  unfold insertChild
  rw [entity_modify_self _ hlt, entity_push_old hp]
  rfl

theorem entity_insertChild_of_ne (hx : x.index < f.size) (hne : x ≠ p) (y : Entity β) :
    (f.insertChild p y).2.entity x = f.entity x := by
  unfold insertChild
  rw [entity_modify_of_ne _ hne, entity_push_old hx]

/-- A child is added to `p`; what else is known of the others stays. -/
theorem field_insertChild {γ : Type} (φ : Entity β → γ)
    (hφ : ∀ y cs, φ { y with children := cs } = φ y) (hp : p.index < f.size) (hx : x.index < f.size)
    (y : Entity β) : φ ((f.insertChild p y).2.entity x) = φ (f.entity x) := by
  by_cases hne : x = p
  · subst hne
    rw [entity_insertChild_parent hp, hφ]
  · rw [entity_insertChild_of_ne hx hne]

theorem mem_of_child? {id : EntityId} (h : f.child? p id = some c) :
    c ∈ f.children p ∧ f.idOf c = id := by
  refine ⟨List.mem_of_find?_eq_some h, ?_⟩
  simpa using List.find?_some h

theorem child?_eq_none {id : EntityId} (h : f.child? p id = none) : id ∉ f.childIds p := by
  intro hmem
  obtain ⟨c, hc, rfl⟩ := List.mem_map.mp hmem
  simpa using List.find?_eq_none.mp h c hc

/-- Where identifiers are distinct a child is found by its own. -/
theorem child?_of_mem (hd : (f.childIds p).Nodup) (hc : c ∈ f.children p) :
    f.child? p (f.idOf c) = some c := by
  unfold child? childIds at *
  generalize f.children p = cs at hd hc
  induction cs with
  | nil => cases hc
  | cons d cs ih =>
    obtain ⟨hnot, hd⟩ := List.nodup_cons.mp hd
    rw [List.find?_cons]
    rcases List.mem_cons.mp hc with rfl | hc
    · simp
    · have hne : f.idOf d ≠ f.idOf c := fun he => hnot (List.mem_map.mpr ⟨c, hc, he.symm⟩)
      simpa [hne] using ih hd hc

/-! ## Changes that leave the tree alone -/

structure SameTree (f f' : Forest β) : Prop where
  size : f'.size = f.size
  limit : f'.limit = f.limit
  id : ∀ e, f'.idOf e = f.idOf e
  parent : ∀ e, f'.parent? e = f.parent? e
  alive : ∀ e, f'.isAlive e = f.isAlive e
  children : ∀ e, f'.children e = f.children e

/-- The tasks of the entities and the binding to an engine are left alone too. -/
structure SameWork (f f' : Forest β) : Prop extends SameTree f f' where
  tasks : ∀ e, (f'.entity e).tasks = (f.entity e).tasks
  bound : f'.bound = f.bound

theorem SameTree.refl (f : Forest β) : SameTree f f :=
  ⟨rfl, rfl, fun _ => rfl, fun _ => rfl, fun _ => rfl, fun _ => rfl⟩

theorem SameTree.modify {g : Entity β → Entity β}
    (hg : ∀ y, (g y).id = y.id ∧ (g y).parent = y.parent ∧ (g y).alive = y.alive ∧
      (g y).children = y.children) (e : EntityRef) (f : Forest β) : SameTree f (f.modify e g) :=
  ⟨size_modify e g f, rfl, fun _ => field_modify (·.id) fun y => (hg y).1,
    fun _ => field_modify (·.parent) fun y => (hg y).2.1,
    fun _ => field_modify (·.alive) fun y => (hg y).2.2.1,
    fun _ => field_modify (·.children) fun y => (hg y).2.2.2⟩

theorem SameWork.modify {g : Entity β → Entity β}
    (hg : ∀ y, (g y).id = y.id ∧ (g y).parent = y.parent ∧ (g y).alive = y.alive ∧
      (g y).children = y.children) (ht : ∀ y, (g y).tasks = y.tasks) (e : EntityRef) (f : Forest β) :
    SameWork f (f.modify e g) :=
  ⟨.modify hg e f, fun _ => field_modify (·.tasks) ht, rfl⟩

namespace SameWork

theorem reattribute (e : EntityRef) (attributes : AttributeSet β) (f : Forest β) :
    SameWork f (f.modify e fun y => { y with attributes }) := by
  refine .modify (fun _ => ?_) (fun _ => ?_) e f
  · exact ⟨rfl, rfl, rfl, rfl⟩
  · rfl

theorem remark (e : EntityRef) (change : List TypeName → List TypeName) (f : Forest β) :
    SameWork f (f.modify e fun y => { y with marks := change y.marks }) := by
  refine .modify (fun _ => ?_) (fun _ => ?_) e f
  · exact ⟨rfl, rfl, rfl, rfl⟩
  · rfl

theorem relisten (e : EntityRef) (listeners : List (Listener β)) (f : Forest β) :
    SameWork f (f.modify e fun y => { y with listeners }) := by
  refine .modify (fun _ => ?_) (fun _ => ?_) e f
  · exact ⟨rfl, rfl, rfl, rfl⟩
  · rfl

theorem drawId (f : Forest β) : SameWork f f.drawId.2 :=
  ⟨⟨rfl, rfl, fun _ => rfl, fun _ => rfl, fun _ => rfl, fun _ => rfl⟩, fun _ => rfl, rfl⟩

end SameWork

/-! ## Kinship -/

/-- The entity is `top` or below it. -/
def Within (top x : EntityRef) (f : Forest β) : Prop := x = top ∨ f.isDescendant x top = true

theorem lineage_of_parentless (h : f.parent? x = none) : f.lineage x = [] := by
  rw [lineage, h]

theorem lineage_of_older (hp : f.parent? x = some p) (hlt : p.index < x.index) :
    f.lineage x = p :: f.lineage p := by
  rw [lineage, hp]
  simp only [hlt, if_true]

theorem within_of_parentless (h : f.parent? x = none) {top : EntityRef} :
    f.Within top x ↔ x = top := by
  rw [Within, isDescendant, lineage_of_parentless h]
  simp

/-- Below an entity are its children and what is below those. -/
theorem within_of_older (hp : f.parent? x = some p) (hlt : p.index < x.index) {top : EntityRef} :
    f.Within top x ↔ x = top ∨ f.Within top p := by
  rw [Within, Within, isDescendant, isDescendant, lineage_of_older hp hlt, List.contains_cons,
    Bool.or_eq_true, beq_iff_eq, eq_comm (a := top)]

/-- What is known of an entity for good, and that nobody comes back to life. -/
structure Grows (f f' : Forest β) : Prop where
  size : f.size ≤ f'.size
  limit : f'.limit = f.limit
  id : ∀ e, e.index < f.size → f'.idOf e = f.idOf e
  parent : ∀ e, e.index < f.size → f'.parent? e = f.parent? e
  alive : ∀ e, e.index < f.size → f'.isAlive e = true → f.isAlive e = true

theorem Grows.refl (f : Forest β) : Grows f f :=
  ⟨Nat.le_refl _, rfl, fun _ _ => rfl, fun _ _ => rfl, fun _ _ h => h⟩

theorem Grows.trans {f'' : Forest β} (h : Grows f f') (h' : Grows f' f'') : Grows f f'' where
  size := Nat.le_trans h.size h'.size
  limit := h'.limit.trans h.limit
  id e he := (h'.id e (Nat.lt_of_lt_of_le he h.size)).trans (h.id e he)
  parent e he := (h'.parent e (Nat.lt_of_lt_of_le he h.size)).trans (h.parent e he)
  alive e he ha := h.alive e he (h'.alive e (Nat.lt_of_lt_of_le he h.size) ha)

theorem Grows.dead (h : Grows f f') (hx : x.index < f.size) (hdead : f.isAlive x = false) :
    f'.isAlive x = false :=
  Bool.eq_false_iff.mpr fun ha => Bool.eq_false_iff.mp hdead (h.alive x hx ha)

theorem Grows.lineage (h : Grows f f') (hx : x.index < f.size) : f'.lineage x = f.lineage x := by
  induction hi : x.index using Nat.strongRecOn generalizing x with
  | ind i ih =>
    subst hi
    rw [Forest.lineage, Forest.lineage, h.parent x hx]
    cases f.parent? x with
    | none => rfl
    | some p =>
      simp only
      split
      · next hlt => rw [ih p.index hlt (Nat.lt_trans hlt hx) rfl]
      · rfl

/-- Who is within whom is fixed when an entity is made. -/
theorem Grows.within (h : Grows f f') (hx : x.index < f.size) {top : EntityRef} :
    f'.Within top x ↔ f.Within top x := by
  rw [Within, Within, isDescendant, isDescendant, h.lineage hx]

theorem SameTree.grows (h : SameTree f f') : Grows f f' :=
  ⟨Nat.le_of_eq h.size.symm, h.limit, fun e _ => h.id e, fun e _ => h.parent e,
    fun e _ ha => (h.alive e).symm.trans ha⟩

/-! ## The operations on the tree -/

/-- An entity dies: its children are cut off, and its tasks are forgotten if they are cancelled. -/
def fell (e : EntityRef) (bound : Bool) (f : Forest β) : Forest β :=
  f.modify e fun x =>
    { x with alive := false, children := [], tasks := if bound then {} else x.tasks }

theorem fell_self (bound : Bool) (he : e.index < f.size) :
    (f.fell e bound).entity e = { f.entity e with
      alive := false, children := [], tasks := if bound then {} else (f.entity e).tasks } :=
  entity_modify_self _ he

theorem fell_of_ne (bound : Bool) (hne : x ≠ e) : (f.fell e bound).entity x = f.entity x :=
  entity_modify_of_ne _ hne

theorem children_fell (e : EntityRef) (bound : Bool) (p : EntityRef) (f : Forest β) :
    (f.fell e bound).children p = if p = e then [] else f.children p := by
  split
  · next hp =>
    subst hp
    by_cases hlt : p.index < f.size
    · rw [children, fell_self bound hlt]
    · rw [children, entity_of_size_le]
      · rfl
      · rw [fell, size_modify]
        exact Nat.le_of_not_lt hlt
  · next hp => rw [children, fell_of_ne bound hp, children]

theorem mem_children_fell {bound : Bool} :
    c ∈ (f.fell e bound).children p ↔ p ≠ e ∧ c ∈ f.children p := by
  rw [children_fell]
  split
  · next hp => exact iff_of_false (by rintro ⟨⟩) fun h => h.1 hp
  · next hp => exact ⟨fun hc => ⟨hp, hc⟩, And.right⟩

theorem isAlive_fell (e : EntityRef) (bound : Bool) (x : EntityRef) (f : Forest β) :
    (f.fell e bound).isAlive x = true ↔ x ≠ e ∧ f.isAlive x = true := by
  by_cases hx : x = e
  · subst hx
    refine iff_of_false (fun ha => ?_) fun h => h.1 rfl
    have hlt := index_lt_of_isAlive ha
    rw [fell, size_modify] at hlt
    rw [isAlive, fell_self bound hlt] at ha
    cases ha
  · rw [isAlive, fell_of_ne bound hx]
    exact ⟨fun ha => ⟨hx, ha⟩, And.right⟩

theorem grows_fell (e : EntityRef) (bound : Bool) (f : Forest β) : Grows f (f.fell e bound) where
  size := Nat.le_of_eq (size_modify _ _ f).symm
  limit := rfl
  id _ _ := field_modify (·.id) fun _ => rfl
  parent _ _ := field_modify (·.parent) fun _ => rfl
  alive x _ ha := ((isAlive_fell e bound x f).mp ha).2

theorem children_removeChild (p e x : EntityRef) (f : Forest β) :
    (f.removeChild p e).children x = if x = p then (f.children x).filter (· ≠ e) else f.children x := by
  split
  · next hx =>
    subst hx
    by_cases hlt : x.index < f.size
    · rw [children, removeChild, entity_modify_self _ hlt]
      rfl
    · rw [children, children, entity_of_size_le (Nat.le_of_not_lt hlt), entity_of_size_le]
      · rfl
      · rw [removeChild, size_modify]
        exact Nat.le_of_not_lt hlt
  · next hx => rw [children, removeChild, entity_modify_of_ne _ hx, children]

theorem children_removeChild_sublist (p e x : EntityRef) (f : Forest β) :
    ((f.removeChild p e).children x).Sublist (f.children x) := by
  rw [children_removeChild]
  split
  · exact List.filter_sublist
  · exact List.Sublist.refl _

theorem mem_children_removeChild {y : EntityRef} (hy : y ∈ f.children x) (hne : y ≠ e) :
    y ∈ (f.removeChild p e).children x := by
  rw [children_removeChild]
  split
  · exact List.mem_filter.mpr ⟨hy, decide_eq_true hne⟩
  · exact hy

theorem isAlive_removeChild (p e x : EntityRef) (f : Forest β) :
    (f.removeChild p e).isAlive x = f.isAlive x := field_modify (·.alive) fun _ => rfl

theorem idOf_removeChild (p e x : EntityRef) (f : Forest β) :
    (f.removeChild p e).idOf x = f.idOf x := field_modify (·.id) fun _ => rfl

theorem parent?_removeChild (p e x : EntityRef) (f : Forest β) :
    (f.removeChild p e).parent? x = f.parent? x := field_modify (·.parent) fun _ => rfl

theorem size_removeChild (p e : EntityRef) (f : Forest β) : (f.removeChild p e).size = f.size :=
  size_modify _ _ f

theorem grows_removeChild (p e : EntityRef) (f : Forest β) : Grows f (f.removeChild p e) where
  size := Nat.le_of_eq (size_removeChild p e f).symm
  limit := rfl
  id x _ := idOf_removeChild p e x f
  parent x _ := parent?_removeChild p e x f
  alive x _ ha := (isAlive_removeChild p e x f).symm.trans ha

theorem grows_insertChild (hp : p.index < f.size) (y : Entity β) :
    Grows f (f.insertChild p y).2 where
  size := by
    rw [size_insertChild]
    exact Nat.le_succ _
  limit := rfl
  id _ hx := field_insertChild (·.id) (fun _ _ => rfl) hp hx y
  parent _ hx := field_insertChild (·.parent) (fun _ _ => rfl) hp hx y
  alive _ hx ha := (field_insertChild (·.alive) (fun _ _ => rfl) hp hx y).symm.trans ha

/-- What was there before a child was added, and the child. -/
theorem old_or_new (p : EntityRef) (y : Entity β) (hx : x.index < (f.insertChild p y).2.size) :
    x = (f.insertChild p y).1 ∨ x.index < f.size := by
  rw [size_insertChild] at hx
  rcases Nat.lt_or_eq_of_le (Nat.le_of_lt_succ hx) with hx | hx
  · exact Or.inr hx
  · obtain ⟨i⟩ := x
    exact Or.inl (congrArg EntityRef.mk hx)

/-- A field in which one who comes does not differ from one who is not there. -/
theorem field_insertChild_of_bare {γ : Type} (φ : Entity β → γ)
    (hφ : ∀ y cs, φ { y with children := cs } = φ y) (hp : p.index < f.size) {y : Entity β}
    (hy : φ { y with parent := some p } = φ .absent) (x : EntityRef) :
    φ ((f.insertChild p y).2.entity x) = φ (f.entity x) := by
  by_cases hx : x.index < f.size
  · exact field_insertChild φ hφ hp hx y
  · rw [entity_of_size_le (Nat.le_of_not_lt hx)]
    by_cases hx' : x.index < (f.insertChild p y).2.size
    · obtain rfl := (old_or_new p y hx').resolve_right hx
      rw [entity_insertChild_new hp]
      exact hy
    · rw [entity_of_size_le (Nat.le_of_not_lt hx')]

theorem children_insertChild (hp : p.index < f.size) {y : Entity β} (hbare : y.children = [])
    (x : EntityRef) : (f.insertChild p y).2.children x =
      if x = p then f.children x ++ [(f.insertChild p y).1] else f.children x := by
  by_cases hx : x.index < f.size
  · split
    · next heq =>
      subst heq
      rw [children, entity_insertChild_parent hx]
    · next hne => rw [children, entity_insertChild_of_ne hx hne, children]
  · have hne : x ≠ p := fun he => hx (he ▸ hp)
    rw [if_neg hne, children, children, entity_of_size_le (Nat.le_of_not_lt hx)]
    by_cases hx' : x.index < (f.insertChild p y).2.size
    · obtain rfl := (old_or_new p y hx').resolve_right hx
      rw [entity_insertChild_new hp]
      exact hbare
    · rw [entity_of_size_le (Nat.le_of_not_lt hx')]

theorem mem_children_insertChild (hp : p.index < f.size) {y : Entity β} (hbare : y.children = []) :
    c ∈ (f.insertChild p y).2.children x ↔ c ∈ f.children x ∨ x = p ∧ c = (f.insertChild p y).1 := by
  rw [children_insertChild hp hbare]
  split
  · next hx => simp only [List.mem_append, List.mem_singleton, hx, true_and]
  · next hx => simp only [hx, false_and, or_false]

end Forest

end Vivarium
