/-! # Entries in insertion order

A list of pairs read as a finite map that remembers in which order its keys came. Putting a value
under a key that is there keeps the key's place; a new key goes to the end. A list is read as a set
in the same way.
-/

namespace Vivarium

namespace Entries

variable {κ α : Type} [DecidableEq κ]

def keys (es : List (κ × α)) : List κ := es.map (·.1)

def get? (k : κ) : List (κ × α) → Option α
  | [] => none
  | (k', a) :: es => if k' = k then some a else get? k es

def has (k : κ) (es : List (κ × α)) : Bool := (get? k es).isSome

def put (k : κ) (a : α) : List (κ × α) → List (κ × α)
  | [] => [(k, a)]
  | (k', b) :: es => if k' = k then (k, a) :: es else (k', b) :: put k a es

def erase (k : κ) (es : List (κ × α)) : List (κ × α) := es.filter (·.1 ≠ k)

def ofList (ps : List (κ × α)) : List (κ × α) := ps.foldl (fun es p => put p.1 p.2 es) []

theorem get?_put_self (k : κ) (a : α) (es : List (κ × α)) : get? k (put k a es) = some a := by
  induction es with
  | nil => simp [put, get?]
  | cons e es ih =>
    obtain ⟨k', b⟩ := e
    by_cases h : k' = k <;> simp [put, get?, h, ih]

theorem get?_put_of_ne {k k' : κ} (h : k ≠ k') (a : α) (es : List (κ × α)) :
    get? k' (put k a es) = get? k' es := by
  induction es with
  | nil => simp [put, get?, h]
  | cons e es ih =>
    obtain ⟨k'', b⟩ := e
    by_cases h' : k'' = k
    · subst h'
      simp [put, get?, h]
    · rw [put, if_neg h']
      by_cases h'' : k'' = k' <;> simp [get?, h'', ih]

theorem get?_erase_self (k : κ) (es : List (κ × α)) : get? k (erase k es) = none := by
  induction es with
  | nil => rfl
  | cons e es ih =>
    obtain ⟨k', b⟩ := e
    by_cases h : k' = k
    · simpa [erase, h] using ih
    · simpa [erase, get?, h] using ih

theorem get?_erase_of_ne {k k' : κ} (h : k ≠ k') (es : List (κ × α)) :
    get? k' (erase k es) = get? k' es := by
  induction es with
  | nil => rfl
  | cons e es ih =>
    obtain ⟨k'', b⟩ := e
    by_cases h' : k'' = k
    · subst h'
      simpa [erase, get?, h] using ih
    · by_cases h'' : k'' = k' <;> simp_all [erase, get?]

theorem get?_isSome_iff {k : κ} {es : List (κ × α)} : (get? k es).isSome ↔ k ∈ keys es := by
  induction es with
  | nil => simp [get?, keys]
  | cons e es ih =>
    obtain ⟨k', b⟩ := e
    by_cases h : k' = k
    · simp [get?, keys, h]
    · have h' : ¬k = k' := fun e => h e.symm
      simpa [get?, keys, h, h'] using ih

theorem get?_append (k : κ) (es es' : List (κ × α)) : get? k (es ++ es') = (get? k es).or (get? k es') := by
  induction es with
  | nil => rfl
  | cons e es ih =>
    obtain ⟨k', b⟩ := e
    rw [List.cons_append, get?, get?]
    split
    · rfl
    · exact ih

/-- A put of a key that is there changes no key and no place. -/
theorem keys_put (k : κ) (a : α) (es : List (κ × α)) :
    keys (put k a es) = if k ∈ keys es then keys es else keys es ++ [k] := by
  induction es with
  | nil => simp [put, keys]
  | cons e es ih =>
    obtain ⟨k', b⟩ := e
    by_cases h : k' = k
    · simp [put, keys, h]
    · have h' : ¬k = k' := fun e => h e.symm
      have ih' : keys ((k', b) :: put k a es) = k' :: keys (put k a es) := rfl
      rw [put, if_neg h, ih', ih]
      by_cases hk : k ∈ keys es <;> simp_all [keys]

end Entries

namespace Distinct

variable {α : Type} [DecidableEq α]

/-- Adds an element at the end unless it is there. -/
def add (a : α) (as : List α) : List α := if a ∈ as then as else as ++ [a]

def addAll (bs as : List α) : List α := bs.foldl (fun as b => add b as) as

def remove (a : α) (as : List α) : List α := as.filter (· ≠ a)

theorem mem_add {a b : α} {as : List α} : b ∈ add a as ↔ b ∈ as ∨ b = a := by
  unfold add
  split
  · constructor
    · exact Or.inl
    · rintro (h | rfl) <;> assumption
  · simp

theorem nodup_add {a : α} {as : List α} (h : as.Nodup) : (add a as).Nodup := by
  unfold add
  split
  · exact h
  · next ha =>
    rw [List.nodup_append]
    refine ⟨h, by simp, ?_⟩
    intro x hx y hy
    simp only [List.mem_singleton] at hy
    subst hy
    exact fun e => ha (e ▸ hx)

theorem mem_addAll {a : α} {bs as : List α} : a ∈ addAll bs as ↔ a ∈ as ∨ a ∈ bs := by
  induction bs generalizing as with
  | nil => simp [addAll]
  | cons b bs ih =>
    change a ∈ addAll bs (add b as) ↔ _
    rw [ih, mem_add, List.mem_cons, or_assoc]

theorem nodup_addAll {bs as : List α} (h : as.Nodup) : (addAll bs as).Nodup := by
  induction bs generalizing as with
  | nil => exact h
  | cons b bs ih => exact ih (nodup_add h)

theorem addAll_append (bs cs as : List α) : addAll (bs ++ cs) as = addAll cs (addAll bs as) :=
  List.foldl_append

theorem addAll_of_subset {bs as : List α} (h : ∀ b ∈ bs, b ∈ as) : addAll bs as = as := by
  induction bs with
  | nil => rfl
  | cons b bs ih =>
    obtain ⟨hb, hbs⟩ := List.forall_mem_cons.mp h
    change addAll bs (add b as) = as
    rw [add, if_pos hb]
    exact ih hbs

theorem count_remove (a b : α) (as : List α) :
    (remove a as).count b = if b = a then 0 else as.count b := by
  unfold remove
  by_cases h : b = a
  · subst h
    rw [if_pos rfl, List.count_eq_zero]
    exact fun hmem => of_decide_eq_true (List.mem_filter.mp hmem).2 rfl
  · rw [if_neg h, List.count_filter (by simpa using h)]

end Distinct

namespace Entries

variable {κ α : Type} [DecidableEq κ]

theorem get?_of_mem {k : κ} {a : α} {es : List (κ × α)} (hd : (keys es).Nodup) (h : (k, a) ∈ es) :
    get? k es = some a := by
  induction es with
  | nil => cases h
  | cons e es ih =>
    obtain ⟨k', b⟩ := e
    obtain ⟨hk', hd⟩ := List.nodup_cons.mp hd
    rcases List.mem_cons.mp h with h | h
    · cases h
      exact if_pos rfl
    · have hne : ¬k' = k := fun e => hk' (e ▸ List.mem_map.mpr ⟨(k, a), h, rfl⟩)
      rw [get?, if_neg hne]
      exact ih hd h

theorem mem_of_get? {k : κ} {a : α} {es : List (κ × α)} (h : get? k es = some a) : (k, a) ∈ es := by
  induction es with
  | nil => cases h
  | cons e es ih =>
    obtain ⟨k', b⟩ := e
    rw [get?] at h
    split at h
    · next hk =>
      cases h
      exact hk ▸ List.mem_cons_self
    · exact List.mem_cons_of_mem _ (ih h)

theorem has_iff_mem {k : κ} {es : List (κ × α)} : has k es = true ↔ k ∈ keys es := get?_isSome_iff

theorem keys_erase (k : κ) (es : List (κ × α)) : keys (erase k es) = Distinct.remove k (keys es) := by
  simp [keys, erase, Distinct.remove, List.filter_map, Function.comp_def]

theorem put_of_not_mem {k : κ} {es : List (κ × α)} (h : k ∉ keys es) (a : α) :
    put k a es = es ++ [(k, a)] := by
  induction es with
  | nil => rfl
  | cons e es ih =>
    obtain ⟨k', b⟩ := e
    have hne : ¬k' = k := fun e => h (e ▸ List.mem_cons_self)
    rw [put, if_neg hne, ih fun hmem => h (List.mem_cons_of_mem _ hmem)]
    rfl

theorem erase_of_not_mem {k : κ} {es : List (κ × α)} (h : k ∉ keys es) : erase k es = es :=
  List.filter_eq_self.mpr fun e he => decide_eq_true fun hk => h (hk ▸ List.mem_map.mpr ⟨e, he, rfl⟩)

variable {es : List (κ × α)}

theorem nodup_keys_put (h : (keys es).Nodup) (k : κ) (a : α) : (keys (put k a es)).Nodup := by
  have hkeys : keys (put k a es) = Distinct.add k (keys es) := keys_put k a es
  rw [hkeys]
  exact Distinct.nodup_add h

theorem mem_put {k : κ} {a : α} {p : κ × α} (h : p ∈ put k a es) : p = (k, a) ∨ p ∈ es := by
  induction es with
  | nil => exact Or.inl (List.mem_singleton.mp h)
  | cons e es ih =>
    rw [put] at h
    split at h
    · exact (List.mem_cons.mp h).imp_right (List.mem_cons_of_mem e)
    · rcases List.mem_cons.mp h with rfl | h
      · exact Or.inr List.mem_cons_self
      · exact (ih h).imp_right (List.mem_cons_of_mem e)

end Entries

end Vivarium
