import Mathlib.Data.List.Basic
import Vivarium.Proofs.Listeners

/-! # The order of dying

Below one who dies the deaths become known from the bottom up: those in the subtrees of its children
first, then the children themselves. Nobody is named twice, nobody before those below, and siblings are
named in the order in which they were made.
-/

namespace Vivarium

namespace Forest

variable {β : Type} {f : Forest β} {cut : List EntityRef} {p e c d x y : EntityRef}

namespace Rooted

theorem older_of_parent (h : f.Rooted cut) (hp : f.parent? x = some p) : p.index < x.index := by
  have hmade : f.Made x := by
    constructor
    · rintro rfl
      rw [h.parentless] at hp
      cases hp
    · apply Nat.lt_of_not_le
      intro hle
      rw [parent?, entity_of_size_le hle] at hp
      cases hp
  obtain ⟨q, hq, hlt⟩ := h.older x hmade
  obtain rfl := Option.some.inj (hq.symm.trans hp)
  exact hlt

theorem index_lt_of_child (h : f.Rooted cut) (hc : c ∈ f.children p) : p.index < c.index :=
  h.older_of_parent (h.child p c hc).1

theorem not_within_child (h : f.Rooted cut) (hc : c ∈ f.children p) : ¬f.Within c p := by
  intro hw
  have hle := h.index_le_of_within hw
  have hlt := h.index_lt_of_child hc
  omega

theorem not_root_within (h : f.Rooted cut) (hc : c ∈ f.children p) : ¬f.Within c root := by
  intro hw
  have hle : c.index ≤ 0 := h.index_le_of_within hw
  have hlt := h.index_lt_of_child hc
  omega

theorem children_nodup (h : f.Rooted cut) (p : EntityRef) : (f.children p).Nodup :=
  List.Pairwise.of_map _ (fun _ _ hne heq => hne (congrArg f.idOf heq)) (h.distinct p)

/-- Whoever is below `e` has its parent within `e`. -/
theorem parent_within (h : f.Rooted cut) (hx : f.isDescendant x e = true) :
    ∃ p, f.parent? x = some p ∧ f.Within e p := by
  cases hp : f.parent? x with
  | none =>
    rw [isDescendant, lineage_of_parentless hp] at hx
    cases hx
  | some p =>
    rw [isDescendant, lineage_of_older hp (h.older_of_parent hp), List.contains_cons, Bool.or_eq_true,
      beq_iff_eq] at hx
    rcases hx with rfl | hx
    · exact ⟨e, rfl, Or.inl rfl⟩
    · exact ⟨p, rfl, Or.inr hx⟩

theorem index_lt_of_descendant (h : f.Rooted cut) (hx : f.isDescendant x e = true) :
    e.index < x.index := by
  obtain ⟨p, hp, hw⟩ := h.parent_within hx
  have hlt := h.older_of_parent hp
  have hle := h.index_le_of_within hw
  omega

/-- Nobody is within two children of one entity. -/
theorem sibling_unique (h : f.Rooted cut) (hc : c ∈ f.children p) (hd : d ∈ f.children p)
    (hxc : f.Within c x) (hxd : f.Within d x) : d = c := by
  by_contra hne
  rcases hxc with rfl | hxc
  · exact h.not_within_sibling hd hc (Ne.symm hne) hxd
  · induction hi : x.index using Nat.strongRecOn generalizing x with
    | ind i ih =>
      subst hi
      obtain ⟨q, hq, hqc⟩ := h.parent_within hxc
      rcases hxd with rfl | hxd
      · exact h.not_within_sibling hc hd hne (Or.inr hxc)
      · obtain ⟨q', hq', hqd⟩ := h.parent_within hxd
        obtain rfl := Option.some.inj (hq.symm.trans hq')
        rcases hqc with rfl | hqc
        · exact h.not_within_sibling hd hc (Ne.symm hne) hqd
        · exact ih q.index (h.older_of_parent hq) hqd hqc rfl

/-- Whoever is alive and below `e` is within a child of `e`. -/
theorem child_toward (h : f.Rooted []) (hw : f.Within e x) (ha : f.isAlive x = true) (hne : x ≠ e) :
    ∃ c ∈ f.children e, f.Within c x := by
  induction hi : x.index using Nat.strongRecOn generalizing x with
  | ind i ih =>
    subst hi
    rcases h.within_iff.mp hw with rfl | ⟨p, hp, hlt, hpw⟩
    · exact absurd rfl hne
    · rcases h.attached x ha with rfl | hcut | ⟨q, hq⟩
      · rw [h.parentless] at hp
        cases hp
      · cases hcut
      · obtain ⟨hparent, -, hlive⟩ := h.child q x hq
        obtain rfl := Option.some.inj (hparent.symm.trans hp)
        by_cases hqe : q = e
        · subst hqe
          exact ⟨x, hq, Or.inl rfl⟩
        · obtain ⟨c, hc, hqc⟩ := ih q.index hlt hpw hlive hqe rfl
          exact ⟨c, hc, h.within_trans hqc (h.within_child hq)⟩

end Rooted

/-! ## Who is named when -/

/-- `y` is not below `x`, and if they are siblings `x` is the older one. -/
def Precedes (f : Forest β) (x y : EntityRef) : Prop :=
  f.isDescendant y x = false ∧ (f.parent? x = f.parent? y → x.index < y.index)

theorem Precedes.ne (h : f.Precedes x y) : x ≠ y := by
  rintro rfl
  exact Nat.lt_irrefl _ (h.2 rfl)

/-- Who dies below an entity, down to `depth` levels, in the order in which it becomes known. -/
def perished (f : Forest β) : (depth : Nat) → EntityRef → List EntityRef
  | 0, _ => []
  | depth + 1, e => (f.children e).flatMap (f.perished depth) ++ f.children e

namespace Rooted

theorem mem_perished (h : f.Rooted []) {depth : Nat} (hdepth : f.size ≤ e.index + depth) :
    x ∈ f.perished depth e ↔ x ≠ e ∧ f.Within e x ∧ f.isAlive x = true := by
  induction depth generalizing e with
  | zero =>
    simp only [perished, List.not_mem_nil, false_iff]
    rintro ⟨-, hw, ha⟩
    have hle := h.index_le_of_within hw
    have hlt := index_lt_of_isAlive ha
    omega
  | succ depth ih =>
    have hbelow : ∀ c ∈ f.children e, f.size ≤ c.index + depth := by
      intro c hc
      have hlt := h.index_lt_of_child hc
      omega
    simp only [perished, List.mem_append, List.mem_flatMap]
    constructor
    · rintro (⟨c, hc, hx⟩ | hx)
      · obtain ⟨-, hw, ha⟩ := (ih (hbelow c hc)).mp hx
        refine ⟨?_, h.within_trans (h.within_child hc) hw, ha⟩
        rintro rfl
        exact h.not_within_child hc hw
      · refine ⟨?_, h.within_child hx, (h.child e x hx).2.1⟩
        rintro rfl
        exact h.not_within_child hx (Or.inl rfl)
    · rintro ⟨hne, hw, ha⟩
      obtain ⟨c, hc, hxc⟩ := h.child_toward hw ha hne
      by_cases hx : x = c
      · exact Or.inr (hx ▸ hc)
      · exact Or.inl ⟨c, hc, (ih (hbelow c hc)).mpr ⟨hx, hxc, ha⟩⟩

/-- What is within an older child is named before what is within a younger one. -/
theorem precedes_of_siblings (h : f.Rooted cut) (hc : c ∈ f.children p) (hd : d ∈ f.children p)
    (hlt : c.index < d.index) (hx : f.Within c x) (hy : f.Within d y) : f.Precedes x y := by
  have hne : d ≠ c := by
    rintro rfl
    exact Nat.lt_irrefl _ hlt
  constructor
  · apply Bool.eq_false_iff.mpr
    intro hyx
    exact hne (h.sibling_unique hc hd (h.within_trans hx (Or.inr hyx)) hy)
  · intro hparent
    rcases hx with rfl | hx
    · rcases hy with rfl | hy
      · exact hlt
      · obtain ⟨q, hq, hqd⟩ := h.parent_within hy
        obtain rfl := Option.some.inj (((h.child p x hc).1.symm.trans hparent).trans hq)
        exact absurd hqd (h.not_within_child hd)
    · obtain ⟨q, hq, hqc⟩ := h.parent_within hx
      rcases hy with rfl | hy
      · obtain rfl := Option.some.inj (((h.child p y hd).1.symm.trans hparent.symm).trans hq)
        exact absurd hqc (h.not_within_child hc)
      · obtain ⟨q', hq', hqd⟩ := h.parent_within hy
        obtain rfl := Option.some.inj ((hq.symm.trans hparent).trans hq')
        exact absurd (h.sibling_unique hc hd hqc hqd) hne

/-- What is below a child is named before any child. -/
theorem precedes_children (h : f.Rooted cut) (hc : c ∈ f.children p) (hd : d ∈ f.children p)
    (hne : x ≠ c) (hx : f.Within c x) : f.Precedes x d := by
  have hxc := hx.resolve_left hne
  obtain ⟨q, hq, hqc⟩ := h.parent_within hxc
  constructor
  · apply Bool.eq_false_iff.mpr
    intro hdx
    by_cases hdc : d = c
    · subst hdc
      have hlt := h.index_lt_of_descendant hdx
      have hle := h.index_le_of_within hx
      omega
    · exact h.not_within_sibling hc hd hdc (h.within_trans hx (Or.inr hdx))
  · intro hparent
    obtain rfl := Option.some.inj (((h.child p d hd).1.symm.trans hparent.symm).trans hq)
    exact absurd hqc (h.not_within_child hc)

theorem pairwise_children (h : f.Rooted cut) (hsorted : f.Ascending) (p : EntityRef) :
    (f.children p).Pairwise f.Precedes := by
  apply (hsorted.sorted p).imp_of_mem
  intro c d hc hd hlt
  exact h.precedes_of_siblings hc hd hlt (Or.inl rfl) (Or.inl rfl)

theorem pairwise_flatMap (h : f.Rooted cut) (hsorted : f.Ascending) {g : EntityRef → List EntityRef}
    (hg : ∀ c ∈ f.children p, (g c).Pairwise f.Precedes ∧ ∀ x ∈ g c, f.Within c x) :
    ((f.children p).flatMap g).Pairwise f.Precedes := by
  rw [List.pairwise_flatMap]
  constructor
  · intro c hc
    exact (hg c hc).1
  · apply (hsorted.sorted p).imp_of_mem
    intro c d hc hd hlt x hx y hy
    exact h.precedes_of_siblings hc hd hlt ((hg c hc).2 x hx) ((hg d hd).2 y hy)

theorem pairwise_perished (h : f.Rooted []) (hsorted : f.Ascending) {depth : Nat}
    (hdepth : f.size ≤ e.index + depth) : (f.perished depth e).Pairwise f.Precedes := by
  induction depth generalizing e with
  | zero => exact List.Pairwise.nil
  | succ depth ih =>
    have hbelow : ∀ c ∈ f.children e, f.size ≤ c.index + depth := by
      intro c hc
      have hlt := h.index_lt_of_child hc
      omega
    rw [perished, List.pairwise_append]
    refine ⟨h.pairwise_flatMap hsorted ?_, h.pairwise_children hsorted e, ?_⟩
    · intro c hc
      refine ⟨ih (hbelow c hc), ?_⟩
      intro x hx
      exact ((h.mem_perished (hbelow c hc)).mp hx).2.1
    · intro x hx d hd
      obtain ⟨c, hc, hx⟩ := List.mem_flatMap.mp hx
      obtain ⟨hne, hw, -⟩ := (h.mem_perished (hbelow c hc)).mp hx
      exact h.precedes_children hc hd hne hw

end Rooted

/-- One who dies with everybody below, the one itself last. -/
def perishedWith (f : Forest β) (depth : Nat) (e : EntityRef) : List EntityRef :=
  f.perished depth e ++ [e]

namespace Rooted

theorem mem_perishedWith (h : f.Rooted []) {depth : Nat} (hdepth : f.size ≤ e.index + depth)
    (he : f.isAlive e = true) :
    x ∈ f.perishedWith depth e ↔ f.Within e x ∧ f.isAlive x = true := by
  rw [perishedWith, List.mem_append, List.mem_singleton, h.mem_perished hdepth]
  constructor
  · rintro (⟨-, hw, ha⟩ | rfl)
    · exact ⟨hw, ha⟩
    · exact ⟨Or.inl rfl, he⟩
  · rintro ⟨hw, ha⟩
    by_cases hx : x = e
    · exact Or.inr hx
    · exact Or.inl ⟨hx, hw, ha⟩

theorem pairwise_perishedWith (h : f.Rooted []) (hsorted : f.Ascending) {depth : Nat}
    (hdepth : f.size ≤ e.index + depth) : (f.perishedWith depth e).Pairwise f.Precedes := by
  rw [perishedWith, List.pairwise_append]
  refine ⟨h.pairwise_perished hsorted hdepth, List.pairwise_singleton _ _, ?_⟩
  intro x hx y hy
  obtain rfl := List.mem_singleton.mp hy
  obtain ⟨hne, hw, -⟩ := (h.mem_perished hdepth).mp hx
  have hxy := hw.resolve_left hne
  have hlt := h.index_lt_of_descendant hxy
  constructor
  · apply Bool.eq_false_iff.mpr
    intro hyx
    have hlt' := h.index_lt_of_descendant hyx
    omega
  · intro hparent
    obtain ⟨q, hq, hqy⟩ := h.parent_within hxy
    have hle := h.index_le_of_within hqy
    have hlt' := h.older_of_parent (hparent.symm.trans hq)
    omega

end Rooted

end Forest

end Vivarium
