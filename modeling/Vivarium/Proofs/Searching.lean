import Mathlib.Logic.Relation
import Vivarium.Proofs.Perishing
import Vivarium.Proofs.Tree

/-! # Searching the tree

A search goes down through the children of an entity, and ancestry goes up along the parents. In the
tree of the living the two agree: whoever is alive and has an entity among its ancestors is reached from
there through the children, and a search finds one of those who have the identifier if there are any.
-/

namespace Vivarium

namespace Forest

variable {β : Type} {f : Forest β} {cut : List EntityRef} {a e p c x : EntityRef} {id : EntityId}

/-- `x` is reached from `e` through the children, in one step or more. -/
def Below (e x : EntityRef) (f : Forest β) : Prop :=
  Relation.TransGen (fun p c => c ∈ f.children p) e x

namespace Rooted

/-! ## Going down and going up -/

theorem isDescendant_child (h : f.Rooted cut) (hc : c ∈ f.children p) :
    f.isDescendant c e = true ↔ f.Within e p := by
  rw [isDescendant, lineage_of_older (h.child p c hc).1 (h.index_lt_of_child hc), List.contains_cons,
    Bool.or_eq_true, beq_iff_eq, Within, isDescendant]
  exact or_congr_left eq_comm

theorem isDescendant_of_below (h : f.Rooted cut) (hx : f.Below e x) : f.isDescendant x e = true := by
  induction hx with
  | single hc => exact (h.isDescendant_child hc).mpr (Or.inl rfl)
  | tail _ hc ih => exact (h.isDescendant_child hc).mpr (Or.inr ih)

theorem alive_of_below (h : f.Rooted cut) (hx : f.Below e x) : f.isAlive x = true := by
  cases hx with
  | single hc => exact (h.child _ x hc).2.1
  | tail _ hc => exact (h.child _ x hc).2.1

/-- Where nobody is cut off, the living parent of one who lives has it as a child. -/
theorem mem_children_of_alive (h : f.Rooted []) (ha : f.isAlive x = true) (hp : f.parent? x = some p) :
    x ∈ f.children p :=
  (mem_of_child? (h.child?_of_alive ha hp).1).1

theorem below_of_isDescendant (h : f.Rooted []) (ha : f.isAlive x = true)
    (hx : f.isDescendant x e = true) : f.Below e x := by
  induction hi : x.index using Nat.strongRecOn generalizing x with
  | ind i ih =>
    subst hi
    obtain ⟨p, hp, hw⟩ := h.parent_within hx
    have hc := h.mem_children_of_alive ha hp
    rcases hw with rfl | hpe
    · exact .single hc
    · exact .tail (ih p.index (h.index_lt_of_child hc) (h.child p x hc).2.2 hpe rfl) hc

theorem below_iff (h : f.Rooted []) :
    f.Below e x ↔ f.isAlive x = true ∧ f.isDescendant x e = true :=
  ⟨fun hx => ⟨h.alive_of_below hx, h.isDescendant_of_below hx⟩, fun hx =>
    h.below_of_isDescendant hx.1 hx.2⟩

theorem not_isDescendant_self (h : f.Rooted cut) (x : EntityRef) : f.isDescendant x x = false := by
  apply Bool.eq_false_iff.mpr
  intro hx
  exact Nat.lt_irrefl _ (h.index_lt_of_descendant hx)

theorem isDescendant_trans (h : f.Rooted cut) (hx : f.isDescendant x e = true)
    (he : f.isDescendant e a = true) : f.isDescendant x a = true := by
  rcases h.within_trans (Or.inr he) (Or.inr hx) with rfl | hxa
  · have hlt := h.index_lt_of_descendant hx
    have hlt' := h.index_lt_of_descendant he
    omega
  · exact hxa

/-- All who live hang below the root. -/
theorem rootOf_of_alive (h : f.Rooted []) (ha : f.isAlive x = true) : f.rootOf x = root := by
  induction hi : x.index using Nat.strongRecOn generalizing x with
  | ind i ih =>
    subst hi
    rcases h.attached x ha with rfl | hcut | ⟨p, hc⟩
    · rw [rootOf, lineage_of_parentless h.parentless, List.getLastD_nil]
    · cases hcut
    · obtain ⟨hp, -, hlive⟩ := h.child p x hc
      have hlt := h.index_lt_of_child hc
      rw [rootOf, lineage_of_older hp hlt, List.getLastD_cons]
      exact ih p.index hlt hlive rfl

end Rooted

/-! ## What a search finds -/

theorem searchTo_sound {depth : Nat} (hs : f.searchTo id depth e = some x) :
    f.Below e x ∧ f.idOf x = id := by
  induction depth generalizing e with
  | zero => cases hs
  | succ depth ih =>
    rw [searchTo] at hs
    split at hs
    · next c hc =>
      cases hs
      obtain ⟨hmem, hid⟩ := mem_of_child? hc
      exact ⟨.single hmem, hid⟩
    · obtain ⟨c, hc, hfound⟩ := List.exists_of_findSome?_eq_some hs
      obtain ⟨hx, hid⟩ := ih hfound
      exact ⟨.head hc hx, hid⟩

namespace Rooted

/-- A search that goes deep enough misses nobody. -/
theorem searchTo_complete (h : f.Rooted cut) {depth : Nat} (hdepth : f.size ≤ e.index + depth)
    (hs : f.searchTo id depth e = none) (hx : f.Below e x) : f.idOf x ≠ id := by
  induction depth generalizing e with
  | zero =>
    have hlt := h.index_lt_of_descendant (h.isDescendant_of_below hx)
    have hlt' := index_lt_of_isAlive (h.alive_of_below hx)
    omega
  | succ depth ih =>
    rw [searchTo] at hs
    split at hs
    · cases hs
    · next hnone =>
      obtain ⟨c, hc, hcx⟩ := Relation.TransGen.head'_iff.mp hx
      rcases Relation.reflTransGen_iff_eq_or_transGen.mp hcx with rfl | hcx
      · rintro rfl
        exact child?_eq_none hnone (List.mem_map.mpr ⟨x, hc, rfl⟩)
      · have hlt := h.index_lt_of_child hc
        exact ih (by omega) (List.findSome?_eq_none_iff.mp hs c hc) hcx

theorem search_eq_none_iff (h : f.Rooted cut) :
    f.search e id = none ↔ ∀ x, f.Below e x → f.idOf x ≠ id := by
  constructor
  · intro hs x hx
    exact h.searchTo_complete (Nat.le_add_left _ _) hs hx
  · intro hnone
    rw [Option.eq_none_iff_forall_ne_some]
    intro x hs
    obtain ⟨hx, hid⟩ := searchTo_sound hs
    exact hnone x hx hid

/-- A child is found before anybody further down. -/
theorem search_of_child? (h : f.Rooted cut) (hc : f.child? e id = some c) :
    f.search e id = some c := by
  obtain ⟨n, hn⟩ := Nat.exists_eq_succ_of_ne_zero h.nonempty.ne'
  rw [search, hn, searchTo, hc]

end Rooted

/-- Searches and ancestry agree about the living. -/
structure Traced (f : Forest β) : Prop where
  found : ∀ a id e, f.isAlive a = true → f.search a id = some e →
    f.idOf e = id ∧ f.isAlive e = true ∧ f.isDescendant e a = true
  missed : ∀ a id, f.isAlive a = true → (f.search a id = none ↔
    ∀ e, f.isAlive e = true → f.isDescendant e a = true → f.idOf e ≠ id)
  first : ∀ a id c, f.isAlive a = true → f.child? a id = some c → f.search a id = some c
  below : ∀ a e, f.isAlive a = true → f.isAlive e = true →
    (f.isDescendant e a = true ↔ f.Below a e)
  irreflexive : ∀ a, f.isAlive a = true → f.isDescendant a a = false
  transitive : ∀ a b c, f.isAlive a = true → f.isAlive b = true → f.isAlive c = true →
    f.isDescendant c b = true → f.isDescendant b a = true → f.isDescendant c a = true
  top : ∀ e, f.isAlive e = true → f.rootOf e = root

theorem Rooted.traced (h : f.Rooted []) : f.Traced where
  found a id e _ hs := by
    obtain ⟨hx, hid⟩ := searchTo_sound hs
    exact ⟨hid, h.below_iff.mp hx⟩
  missed a id _ := by
    simp only [h.search_eq_none_iff, h.below_iff, and_imp]
  first _ _ _ _ hc := h.search_of_child? hc
  below _ _ _ he := (h.below_iff.trans (and_iff_right he)).symm
  irreflexive a _ := h.not_isDescendant_self a
  transitive _ _ _ _ _ _ hc hb := h.isDescendant_trans hc hb
  top _ he := h.rootOf_of_alive he

end Forest

open Simulation

/-- Whatever entities were created and killed: where no operation is in progress, a search from a living
entity finds a living descendant with the identifier if there is one, a child before all others, and to
descend from a living entity is to be reached from it through the children. -/
theorem searches_follow_ancestry {μ : Type} {s : Simulation (Code μ) μ} (hs : s.Settled) :
    s.forest.Traced :=
  hs.quiet.rooted.traced

/-- Makes an entity, one below it under the same identifier, and one below that. -/
def twins : Program Unit .listener :=
  .request (.create Forest.root (some default) none) fun
    | .error _ => .done ()
    | .ok e => .request (.create e (some default) none) fun
      | .error _ => .done ()
      | .ok x => .request (.create x none none) fun _ => .done ()

theorem twins_are_traced : ∃ s, execute 4 twins (blank true) = .ok ((), s) ∧ s.forest.Traced ∧
    s.forest.search Forest.root default = some ⟨1⟩ ∧ s.forest.search ⟨1⟩ default = some ⟨2⟩ ∧
    s.forest.search ⟨2⟩ default = none ∧ s.forest.search Forest.root (s.forest.idOf ⟨3⟩) = some ⟨3⟩ := by
  obtain ⟨_, s, hact, hholds⟩ := endsWith_iff.mp (show endsWith (execute 4 twins) (blank true)
    (fun _ s => s.forest.search Forest.root default == some ⟨1⟩ &&
      s.forest.search ⟨1⟩ default == some ⟨2⟩ && s.forest.search ⟨2⟩ default == none &&
      s.forest.search Forest.root (s.forest.idOf ⟨3⟩) == some ⟨3⟩) = true by decide +kernel)
  simp only [Bool.and_eq_true, beq_iff_eq] at hholds
  obtain ⟨⟨⟨hroot, htwin⟩, hnone⟩, hlast⟩ := hholds
  exact ⟨s, hact, searches_follow_ancestry ((blank_new true).settled.after hact), hroot, htwin, hnone,
    hlast⟩

end Vivarium
