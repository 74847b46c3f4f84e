import Vivarium.Proofs.Kinship

/-! # The tree of the living

Every living entity hangs on its living parent, under an identifier of its own. While a killing is
under way some of the living have been cut off from the tree; the invariant holds relative to those.
-/

namespace Vivarium

namespace Forest

variable {β : Type} {f f' : Forest β} {e x p c : EntityRef}

/-- The entity was created, and is not the root. -/
def Made (e : EntityRef) (f : Forest β) : Prop := e ≠ root ∧ e.index < f.size

/-- Whoever lives is the root, a child of its living parent, or one of `cut`, whom no entity has as a
child. -/
structure Rooted (cut : List EntityRef) (f : Forest β) : Prop where
  nonempty : 0 < f.size
  parentless : f.parent? root = none
  older : ∀ e, f.Made e → ∃ p, f.parent? e = some p ∧ p.index < e.index
  child : ∀ p c, c ∈ f.children p →
    f.parent? c = some p ∧ f.isAlive c = true ∧ f.isAlive p = true
  distinct : ∀ p, (f.childIds p).Nodup
  attached : ∀ e, f.isAlive e = true → e = root ∨ e ∈ cut ∨ ∃ p, e ∈ f.children p
  loose : ∀ e ∈ cut, e.index < f.size ∧ ∀ p, e ∉ f.children p
  within : ∀ limit, f.limit = some limit → (f.children root).length ≤ limit

namespace Rooted

variable {cut : List EntityRef}

theorem childless (h : f.Rooted cut) (hdead : f.isAlive p = false) : f.children p = [] := by
  rw [List.eq_nil_iff_forall_not_mem]
  intro c hc
  rw [(h.child p c hc).2.2] at hdead
  cases hdead

theorem made_of_child (h : f.Rooted cut) (hc : c ∈ f.children p) : f.Made c := by
  obtain ⟨hparent, halive, -⟩ := h.child p c hc
  refine ⟨fun he => ?_, index_lt_of_isAlive halive⟩
  rw [he, h.parentless] at hparent
  cases hparent

theorem parent_unique (h : f.Rooted cut) {q : EntityRef} (hp : c ∈ f.children p)
    (hq : c ∈ f.children q) : q = p :=
  Option.some.inj ((h.child q c hq).1.symm.trans (h.child p c hp).1)

theorem sameTree (h : f.Rooted cut) (hs : SameTree f f') : f'.Rooted cut where
  nonempty := hs.size ▸ h.nonempty
  parentless := (hs.parent root).trans h.parentless
  older e he := by
    rw [hs.parent]
    exact h.older e ⟨he.1, hs.size ▸ he.2⟩
  child p c hc := by
    rw [hs.children] at hc
    rw [hs.parent, hs.alive, hs.alive]
    exact h.child p c hc
  distinct p := by
    have heq : f'.childIds p = f.childIds p := by
      rw [childIds, childIds, hs.children]
      exact List.map_congr_left fun c _ => hs.id c
    exact heq ▸ h.distinct p
  attached e ha := by
    rw [hs.alive] at ha
    simp only [hs.children]
    exact h.attached e ha
  loose e he := by
    simp only [hs.size, hs.children]
    exact h.loose e he
  within := by
    rw [hs.limit, hs.children]
    exact h.within

/-- A lone root. -/
theorem create (bound : Bool) (limit : Option Nat) :
    (create bound limit : Forest β).Rooted [] := by
  have hentity : ∀ e : EntityRef, (Forest.create bound limit : Forest β).entity e =
      if e = root then { id := .drawn 0 } else .absent := by
    rintro ⟨i⟩
    cases i with
    | zero => rfl
    | succ i => rfl
  have hchildren : ∀ e : EntityRef, (Forest.create bound limit : Forest β).children e = [] := by
    intro e
    rw [children, hentity]
    split <;> rfl
  refine ⟨Nat.succ_pos 0, rfl, ?_, ?_, ?_, ?_, by rintro _ ⟨⟩, ?_⟩
  · rintro ⟨i⟩ ⟨hne, hlt⟩
    cases i with
    | zero => exact absurd rfl hne
    | succ i => exact absurd hlt (Nat.not_lt_of_le (Nat.succ_le_succ (Nat.zero_le i)))
  · intro p c hc
    rw [hchildren] at hc
    cases hc
  · intro p
    rw [childIds, hchildren]
    exact List.nodup_nil
  · intro e ha
    rw [isAlive, hentity] at ha
    split at ha
    · next he => exact Or.inl he
    · cases ha
  · intro l _
    rw [hchildren]
    exact Nat.zero_le _

/-! ## The operations on the tree -/

/-- A child leaves its parent. -/
theorem removeChild (h : f.Rooted cut) (he : e ∈ f.children p) :
    (f.removeChild p e).Rooted (e :: cut) where
  nonempty := size_removeChild p e f ▸ h.nonempty
  parentless := (parent?_removeChild p e root f).trans h.parentless
  older x hx := by
    rw [parent?_removeChild]
    exact h.older x ⟨hx.1, size_removeChild p e f ▸ hx.2⟩
  child q c hc := by
    rw [parent?_removeChild, isAlive_removeChild, isAlive_removeChild]
    exact h.child q c ((children_removeChild_sublist p e q f).subset hc)
  distinct q := by
    have hids : (f.removeChild p e).childIds q = ((f.removeChild p e).children q).map fun c => f.idOf c :=
      List.map_congr_left fun c _ => idOf_removeChild p e c f
    rw [hids]
    exact ((children_removeChild_sublist p e q f).map _).nodup (h.distinct q)
  attached x ha := by
    rw [isAlive_removeChild] at ha
    by_cases hne : x = e
    · exact Or.inr (Or.inl (hne ▸ List.mem_cons_self))
    · rcases h.attached x ha with hroot | hcut | ⟨q, hq⟩
      · exact Or.inl hroot
      · exact Or.inr (Or.inl (List.mem_cons_of_mem _ hcut))
      · exact Or.inr (Or.inr ⟨q, mem_children_removeChild hq hne⟩)
  loose x hx := by
    rw [size_removeChild]
    rcases List.mem_cons.mp hx with rfl | hx
    · refine ⟨(h.made_of_child he).2, fun q hq => ?_⟩
      obtain rfl := h.parent_unique he ((children_removeChild_sublist p x q f).subset hq)
      rw [children_removeChild, if_pos rfl] at hq
      exact of_decide_eq_true (List.mem_filter.mp hq).2 rfl
    · exact ⟨(h.loose x hx).1, fun q hq =>
        (h.loose x hx).2 q ((children_removeChild_sublist p e q f).subset hq)⟩
  within limit hl :=
    Nat.le_trans (children_removeChild_sublist p e root f).length_le (h.within limit hl)

/-- The root is nobody's child. -/
theorem uproot (h : f.Rooted cut) : f.Rooted (root :: cut) where
  nonempty := h.nonempty
  parentless := h.parentless
  older := h.older
  child := h.child
  distinct := h.distinct
  attached e ha := (h.attached e ha).imp_right (Or.imp_left fun hc => List.mem_cons_of_mem _ hc)
  loose e he := by
    rcases List.mem_cons.mp he with rfl | he
    · exact ⟨h.nonempty, fun p hp => (h.made_of_child hp).1 rfl⟩
    · exact h.loose e he
  within := h.within

/-- Who is dead need not die any more. -/
theorem spare (h : f.Rooted (e :: cut)) (hdead : f.isAlive e = false) : f.Rooted cut where
  nonempty := h.nonempty
  parentless := h.parentless
  older := h.older
  child := h.child
  distinct := h.distinct
  attached x ha := by
    refine (h.attached x ha).imp_right (Or.imp_left fun hc => ?_)
    refine (List.mem_cons.mp hc).resolve_left fun hx => ?_
    rw [← hx, ha] at hdead
    cases hdead
  loose x hx := h.loose x (List.mem_cons_of_mem _ hx)
  within := h.within

theorem fell (h : f.Rooted (e :: cut)) (bound : Bool) :
    (f.fell e bound).Rooted (f.children e ++ cut) where
  nonempty := (size_modify _ _ f).symm ▸ h.nonempty
  parentless := ((grows_fell e bound f).parent root h.nonempty).trans h.parentless
  older x hx := by
    have hmade : f.Made x := ⟨hx.1, size_modify e _ f ▸ hx.2⟩
    rw [(grows_fell e bound f).parent x hmade.2]
    exact h.older x hmade
  child p c hc := by
    obtain ⟨hp, hc⟩ := mem_children_fell.mp hc
    obtain ⟨hparent, hc', hp'⟩ := h.child p c hc
    have hne : c ≠ e := fun heq => (h.loose e List.mem_cons_self).2 p (heq ▸ hc)
    exact ⟨((grows_fell e bound f).parent c (index_lt_of_isAlive hc')).trans hparent,
      (isAlive_fell e bound c f).mpr ⟨hne, hc'⟩, (isAlive_fell e bound p f).mpr ⟨hp, hp'⟩⟩
  distinct p := by
    have hids : (f.fell e bound).childIds p = ((f.fell e bound).children p).map fun c => f.idOf c :=
      List.map_congr_left fun c _ => field_modify (·.id) fun _ => rfl
    rw [hids, children_fell]
    split
    · exact List.nodup_nil
    · exact h.distinct p
  attached x ha := by
    obtain ⟨hx, ha⟩ := (isAlive_fell e bound x f).mp ha
    rcases h.attached x ha with hroot | hcut | ⟨p, hp⟩
    · exact Or.inl hroot
    · exact Or.inr (Or.inl (List.mem_append_right _ ((List.mem_cons.mp hcut).resolve_left hx)))
    · by_cases hpe : p = e
      · exact Or.inr (Or.inl (List.mem_append_left _ (hpe ▸ hp)))
      · exact Or.inr (Or.inr ⟨p, mem_children_fell.mpr ⟨hpe, hp⟩⟩)
  loose x hx := by
    rw [Forest.fell, size_modify]
    rcases List.mem_append.mp hx with hx | hx
    · refine ⟨(h.made_of_child hx).2, fun p hp => ?_⟩
      obtain ⟨hpe, hp⟩ := mem_children_fell.mp hp
      exact hpe (h.parent_unique hx hp)
    · obtain ⟨hlt, hnot⟩ := h.loose x (List.mem_cons_of_mem _ hx)
      exact ⟨hlt, fun p hp => hnot p (mem_children_fell.mp hp).2⟩
  within limit hl := by
    rw [children_fell]
    split
    · exact Nat.zero_le _
    · exact h.within limit hl

section

variable {y : Entity β}

/-- The identifiers of the children when one was added. -/
theorem childIds_insertChild (h : f.Rooted cut) (hp : p.index < f.size) (hbare : y.children = [])
    (q : EntityRef) : (f.insertChild p y).2.childIds q =
      if q = p then f.childIds q ++ [y.id] else f.childIds q := by
  have hids : ((f.children q).map fun c => (f.insertChild p y).2.idOf c) = f.childIds q :=
    List.map_congr_left fun c hc => (grows_insertChild hp y).id c (h.made_of_child hc).2
  rw [childIds, children_insertChild hp hbare]
  split
  · rw [List.map_append, List.map_singleton, hids, idOf, entity_insertChild_new hp]
  · exact hids

theorem insertChild (h : f.Rooted cut) (hp : f.isAlive p = true)
    (hfresh : f.child? p y.id = none)
    (hroom : ∀ limit, f.limitOf p = some limit → (f.children p).length < limit)
    (halive : y.alive = true) (hbare : y.children = []) : (f.insertChild p y).2.Rooted cut := by
  have hlt := index_lt_of_isAlive hp
  have hgrows := grows_insertChild hlt y
  have hnew := entity_insertChild_new hlt y
  have hkept : ∀ c, c.index < f.size → (f.insertChild p y).2.isAlive c = f.isAlive c :=
    fun c hc => field_insertChild (·.alive) (fun _ _ => rfl) hlt hc y
  have hmem {c x : EntityRef} : c ∈ (f.insertChild p y).2.children x ↔
      c ∈ f.children x ∨ x = p ∧ c = (f.insertChild p y).1 := mem_children_insertChild hlt hbare
  constructor
  case nonempty => exact Nat.lt_of_lt_of_le h.nonempty hgrows.size
  case parentless => exact (hgrows.parent root h.nonempty).trans h.parentless
  case older =>
    intro x hx
    rcases old_or_new p y hx.2 with rfl | hx'
    · exact ⟨p, by rw [parent?, hnew], hlt⟩
    · rw [hgrows.parent x hx']
      exact h.older x ⟨hx.1, hx'⟩
  case child =>
    intro q c hc
    rcases hmem.mp hc with hc | ⟨rfl, rfl⟩
    · obtain ⟨hparent, hc', hq⟩ := h.child q c hc
      have hclt := index_lt_of_isAlive hc'
      exact ⟨(hgrows.parent c hclt).trans hparent, (hkept c hclt).trans hc',
        (hkept q (index_lt_of_isAlive hq)).trans hq⟩
    · refine ⟨by rw [parent?, hnew], ?_, (hkept q hlt).trans hp⟩
      rw [isAlive, hnew]
      exact halive
  case distinct =>
    intro q
    rw [h.childIds_insertChild hlt hbare]
    split
    · next hq =>
      subst hq
      refine List.nodup_append.mpr ⟨h.distinct q, List.pairwise_singleton _ _, ?_⟩
      rintro id hid _ hid' rfl
      exact child?_eq_none hfresh (List.mem_singleton.mp hid' ▸ hid)
    · exact h.distinct q
  case attached =>
    intro x ha
    rcases old_or_new p y (index_lt_of_isAlive ha) with rfl | hx
    · exact Or.inr (Or.inr ⟨p, hmem.mpr (Or.inr ⟨rfl, rfl⟩)⟩)
    · rw [hkept x hx] at ha
      refine (h.attached x ha).imp_right (Or.imp_right ?_)
      rintro ⟨q, hq⟩
      exact ⟨q, hmem.mpr (Or.inl hq)⟩
  case loose =>
    intro x hx
    obtain ⟨hxlt, hnot⟩ := h.loose x hx
    refine ⟨Nat.lt_of_lt_of_le hxlt hgrows.size, fun q hq => ?_⟩
    rcases hmem.mp hq with hq | ⟨-, rfl⟩
    · exact hnot q hq
    · exact Nat.lt_irrefl f.size hxlt
  case within =>
    intro limit hl
    rw [children_insertChild hlt hbare]
    split
    · next hroot =>
      rw [List.length_append, List.length_singleton, hroot]
      refine hroom limit ?_
      rw [← hroot, limitOf, if_pos rfl]
      exact hl
    · exact h.within limit hl

end

/-! ## Kinship in the tree -/

/-- An entity that is within another is that one, or was made and is the child of one within it. -/
theorem within_iff (h : f.Rooted cut) {top : EntityRef} :
    f.Within top x ↔ x = top ∨ ∃ p, f.parent? x = some p ∧ p.index < x.index ∧ f.Within top p := by
  by_cases hx : f.Made x
  · obtain ⟨p, hp, hlt⟩ := h.older x hx
    rw [within_of_older hp hlt]
    refine or_congr_right ⟨fun hw => ⟨p, hp, hlt, hw⟩, ?_⟩
    rintro ⟨q, hq, -, hw⟩
    cases hp.symm.trans hq
    exact hw
  · have hnone : f.parent? x = none := by
      by_cases hroot : x = root
      · rw [hroot]
        exact h.parentless
      · rw [parent?, entity_of_size_le (Nat.le_of_not_lt fun hlt => hx ⟨hroot, hlt⟩)]
        rfl
    rw [within_of_parentless hnone, hnone]
    refine ⟨Or.inl, fun hw => hw.resolve_right ?_⟩
    rintro ⟨q, ⟨⟩, -⟩

theorem within_child (h : f.Rooted cut) (hc : c ∈ f.children p) : f.Within p c := by
  obtain ⟨q, hq, hlt⟩ := h.older c (h.made_of_child hc)
  cases hq.symm.trans (h.child p c hc).1
  exact h.within_iff.mpr (Or.inr ⟨p, hq, hlt, Or.inl rfl⟩)

theorem within_trans (h : f.Rooted cut) {top mid : EntityRef} (hmid : f.Within top mid)
    (hx : f.Within mid x) : f.Within top x := by
  induction hi : x.index using Nat.strongRecOn generalizing x with
  | ind i ih =>
    subst hi
    rcases h.within_iff.mp hx with rfl | ⟨p, hp, hlt, hp'⟩
    · exact hmid
    · exact h.within_iff.mpr (Or.inr ⟨p, hp, hlt, ih p.index hlt hp' rfl⟩)

/-- Where nobody is cut off, whoever lives is within the living only. -/
theorem alive_of_within (h : f.Rooted []) {top : EntityRef} (hw : f.Within top x)
    (ha : f.isAlive x = true) : f.isAlive top = true := by
  induction hi : x.index using Nat.strongRecOn generalizing x with
  | ind i ih =>
    subst hi
    rcases h.within_iff.mp hw with rfl | ⟨p, hp, hlt, hw'⟩
    · exact ha
    · rcases h.attached x ha with rfl | hcut | ⟨q, hq⟩
      · rw [h.parentless] at hp
        cases hp
      · cases hcut
      · obtain ⟨hq', -, halive⟩ := h.child q x hq
        obtain rfl := Option.some.inj (hq'.symm.trans hp)
        exact ih q.index hlt hw' halive rfl

theorem dead_of_within (h : f.Rooted []) {top : EntityRef} (hw : f.Within top x)
    (hdead : f.isAlive top = false) : f.isAlive x = false := by
  refine Bool.eq_false_iff.mpr fun ha => ?_
  rw [h.alive_of_within hw ha] at hdead
  cases hdead

/-- Where nobody is cut off, a living entity is what its parent has under its identifier. -/
theorem child?_of_alive (h : f.Rooted []) (ha : f.isAlive x = true) (hp : f.parent? x = some p) :
    f.child? p (f.idOf x) = some x ∧ f.isAlive p = true := by
  rcases h.attached x ha with rfl | hcut | ⟨q, hq⟩
  · rw [h.parentless] at hp
    cases hp
  · cases hcut
  · obtain ⟨hq', -, halive⟩ := h.child q x hq
    obtain rfl := Option.some.inj (hq'.symm.trans hp)
    exact ⟨child?_of_mem (h.distinct q) hq, halive⟩

end Rooted

end Forest

end Vivarium
