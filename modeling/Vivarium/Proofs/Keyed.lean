import Vivarium.Proofs.Writes

/-! # Every key once, with a value of its type

What holds of new sets of attributes and is kept by every change of one holds of all sets that programs
lead to. So none of them has a key twice or a value that is not of the type of its key, and a copy of one
is never refused and has its attributes in the same order.
-/

namespace Vivarium

namespace Entries

variable {κ α : Type} [DecidableEq κ] {es : List (κ × α)}

theorem nodup_keys_erase (h : (keys es).Nodup) (k : κ) : (keys (erase k es)).Nodup := by
  rw [keys_erase]
  exact h.sublist List.filter_sublist

end Entries

namespace AttributeSet

variable {β : Type} {a a' : AttributeSet β}

def Keyed (a : AttributeSet β) : Prop := (Entries.keys a.values).Nodup

def Typed (a : AttributeSet β) : Prop := ∀ v ∈ a.values, v.2.type = v.1.type

theorem Edit.keyed (h : a.Edit a') (ha : a.Keyed) : a'.Keyed := by
  cases h with
  | put => exact Entries.nodup_keys_put ha _ _
  | erase k => exact Entries.nodup_keys_erase ha k
  | clear => exact List.nodup_nil
  | subscribe => exact ha
  | unsubscribe k id =>
    unfold AttributeSet.unsubscribe
    simp only
    split <;> exact ha

theorem Typed.put (ha : a.Typed) {k : AttributeKey} {v : Value} (hv : v.type = k.type) :
    (a.put k v).Typed := by
  intro p hp
  rcases Entries.mem_put hp with rfl | hp
  · exact hv
  · exact ha p hp

theorem Edit.typed (h : a.Edit a') (ha : a.Typed) : a'.Typed := by
  cases h with
  | put hv => exact ha.put hv
  | erase => exact fun p hp => ha p (List.mem_filter.mp hp).1
  | clear => exact List.forall_mem_nil _
  | subscribe => exact ha
  | unsubscribe k id =>
    unfold AttributeSet.unsubscribe
    simp only
    split <;> exact ha

theorem keyed_putAll (vs : List (AttributeKey × Value)) (ha : a.Keyed) : (putAll vs a).Keyed := by
  induction vs generalizing a with
  | nil => exact ha
  | cons v vs ih => exact ih (Entries.nodup_keys_put ha v.1 v.2)

theorem typed_putAll {vs : List (AttributeKey × Value)} (hvs : ∀ v ∈ vs, v.2.type = v.1.type) (ha : a.Typed) :
    (putAll vs a).Typed := by
  induction vs generalizing a with
  | nil => exact ha
  | cons v vs ih =>
    obtain ⟨hv, hvs⟩ := List.forall_mem_cons.mp hvs
    exact ih hvs (ha.put hv)

end AttributeSet

namespace Simulation

section

variable {β μ : Type} {raw : EntityRef → Prop} {s s' : Simulation β μ}

/-- What one touch makes of a set of attributes. -/
theorem Touch.attributesOf (ht : s.Touch raw s') (h : Holder) :
    s'.attributesOf h = s.attributesOf h ∨ (s.attributesOf h).Edit (s'.attributesOf h) ∨
      ∃ id vs, (∀ v ∈ vs, v.2.type = v.1.type) ∧ s'.attributesOf h = AttributeSet.putAll vs ⟨id, [], []⟩ := by
  cases ht with
  | engine | memory | register | resolve | validate | schedulers | drawId | bind =>
    left
    cases h <;> rfl
  | retask | cut | fall | mark | unmark | subscribe | unsubscribe =>
    left
    exact attributesOf_modify fun _ => rfl
  | markAs hact =>
    obtain ⟨change, rfl⟩ := remarks_of_mark hact
    left
    exact attributesOf_modify fun _ => rfl
  | unmarkAs hact =>
    obtain ⟨change, rfl⟩ := remarks_of_unmark hact
    left
    exact attributesOf_modify fun _ => rfl
  | newAttributes owner =>
    cases h with
    | entity e => exact Or.inl rfl
    | standalone i =>
      rw [attributesOf_standalone, attributesOf_standalone, Array.getD_eq_getD_getElem?,
        Array.getD_eq_getD_getElem?, Array.getElem?_push]
      split
      · exact Or.inr (Or.inr ⟨owner, [], List.forall_mem_nil _, rfl⟩)
      · exact Or.inl rfl
  | edit holder ha =>
    by_cases hne : holder = h
    · subst hne
      by_cases hin : s.Holds holder
      · rw [attributesOf_edit_self hin]
        exact Or.inr (Or.inl ha)
      · exact Or.inl (withAttributes_absent hin _)
    · exact Or.inl (attributesOf_edit_of_ne hne _)
  | @create p hp id values hvalues =>
    cases h with
    | standalone i => exact Or.inl rfl
    | entity e =>
      have hlt := Forest.index_lt_of_isAlive hp
      by_cases he : e.index < s.forest.size
      · left
        exact Forest.field_insertChild (·.attributes) (fun _ _ => rfl) hlt he _
      · by_cases he' : e.index < (s.forest.insertChild p
          { id, attributes := AttributeSet.putAll values ⟨id, [], []⟩ }).2.size
        · obtain rfl := (Forest.old_or_new p _ he').resolve_right he
          right; right
          exact ⟨id, values, hvalues, congrArg Entity.attributes (Forest.entity_insertChild_new hlt _)⟩
        · left
          change ((s.forest.insertChild p _).2.entity e).attributes = (s.forest.entity e).attributes
          rw [Forest.entity_of_size_le (Nat.le_of_not_lt he'), Forest.entity_of_size_le (Nat.le_of_not_lt he)]

end

variable {μ : Type} {s : Simulation (Code μ) μ}

theorem New.attributesOf {bound : Bool} (h : s.New bound) (hs : s.standalone = #[]) (holder : Holder) :
    s.attributesOf holder = ⟨.drawn 0, [], []⟩ := by
  obtain ⟨_, _, limit, -, -, hforest⟩ := h
  cases holder with
  | entity e =>
    obtain ⟨i⟩ := e
    change (s.forest.entity ⟨i⟩).attributes = _
    rw [hforest]
    cases i <;> rfl
  | standalone i =>
    rw [attributesOf_standalone, hs]
    rfl

/-- What holds of the sets that are made and is kept by every change of a set holds of all sets. -/
theorem Lived.everywhere {P : AttributeSet (Code μ) → Prop} (h : s.Lived)
    (hmade : ∀ id vs, (∀ v ∈ vs, v.2.type = v.1.type) → P (AttributeSet.putAll vs ⟨id, [], []⟩))
    (hedit : ∀ a a', a.Edit a' → P a → P a')
    (holder : Holder) : P (s.attributesOf holder) := by
  revert holder
  apply h.always
  · rintro s ⟨bound, hnew⟩ hs holder
    rw [hnew.attributesOf hs]
    exact hmade (.drawn 0) [] (List.forall_mem_nil _)
  · intro s types hs holder
    cases holder with
    | entity e => exact hs (.entity e)
    | standalone i => exact hs (.standalone i)
  · intro s s' ht hs holder
    rcases ht.attributesOf holder with heq | hchanged | ⟨id, vs, hvs, heq⟩
    · exact heq ▸ hs holder
    · exact hedit _ _ hchanged (hs holder)
    · exact heq ▸ hmade id vs hvs

theorem Lived.keyed (h : s.Lived) (holder : Holder) : (s.attributesOf holder).Keyed :=
  h.everywhere (fun _ vs _ => AttributeSet.keyed_putAll vs List.nodup_nil) (fun _ _ he => he.keyed) holder

theorem Lived.typed (h : s.Lived) (holder : Holder) : (s.attributesOf holder).Typed :=
  h.everywhere (fun _ _ hvs => AttributeSet.typed_putAll hvs (List.forall_mem_nil _)) (fun _ _ he => he.typed)
    holder

end Simulation

end Vivarium
