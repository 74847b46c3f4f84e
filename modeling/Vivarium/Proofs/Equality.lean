import Mathlib.Data.List.Perm.Subperm
import Vivarium.Value

/-! # When values are equal

Equality looks through the order in which the keys of a map came, and takes floats as numbers. So it is
symmetric and transitive but not reflexive: a NaN anywhere in a value makes it unequal to itself. The
comparison of two maps goes through the entries of one of them only; that they have as many entries, and
each key once, makes up for the other direction.
-/

namespace Vivarium

namespace Binary64

variable {x y z : Binary64}

theorem equal_iff : x.equal y = true ↔
    x.isNaN = false ∧ y.isNaN = false ∧ (x = y ∨ x.isZero = true ∧ y.isZero = true) := by
  have hbits : x.bits = y.bits ↔ x = y := ⟨fun h => congrArg mk h, fun h => congrArg bits h⟩
  simp only [equal, Bool.and_eq_true, Bool.or_eq_true, Bool.not_eq_true', beq_iff_eq, hbits, and_assoc]

theorem equal_self_iff : x.equal x = true ↔ x.isNaN = false := by
  rw [equal_iff]
  exact ⟨fun h => h.1, fun h => ⟨h, h, Or.inl rfl⟩⟩

theorem equal_symm (h : x.equal y = true) : y.equal x = true := by
  obtain ⟨hx, hy, hsame⟩ := equal_iff.mp h
  exact equal_iff.mpr ⟨hy, hx, hsame.imp Eq.symm And.symm⟩

theorem equal_trans (h : x.equal y = true) (h' : y.equal z = true) : x.equal z = true := by
  obtain ⟨hx, -, hxy⟩ := equal_iff.mp h
  obtain ⟨-, hz, hyz⟩ := equal_iff.mp h'
  refine equal_iff.mpr ⟨hx, hz, ?_⟩
  rcases hxy with rfl | ⟨hxzero, hyzero⟩
  · exact hyz
  · rcases hyz with rfl | ⟨-, hzzero⟩
    · exact Or.inr ⟨hxzero, hyzero⟩
    · exact Or.inr ⟨hxzero, hzzero⟩

end Binary64

namespace Entries

variable {κ α : Type} {es fs : List (κ × α)}

theorem mem_keys_of_mem {e : κ × α} (h : e ∈ es) : e.1 ∈ keys es := List.mem_map.mpr ⟨e, h, rfl⟩

/-- As many different keys as the other list has entries leave no other key to it. -/
theorem keys_subset_of_length (hd : (keys es).Nodup) (hlen : es.length = fs.length)
    (hsub : keys es ⊆ keys fs) : keys fs ⊆ keys es := by
  have hle : (keys fs).length ≤ (keys es).length := by
    simp only [keys, List.length_map, hlen, Nat.le_refl]
  exact ((List.subperm_of_subset hd hsub).perm_of_length_le hle).symm.subset

/-- Lists without a repeated key and with the same keys are of one length. -/
theorem length_eq_of_keys (hd : (keys es).Nodup) (hd' : (keys fs).Nodup)
    (hkeys : ∀ k, k ∈ keys es ↔ k ∈ keys fs) : es.length = fs.length := by
  have hperm : (keys es).Perm (keys fs) := (List.perm_ext_iff_of_nodup hd hd').mpr hkeys
  simpa [keys] using hperm.length_eq

variable [DecidableEq κ]

theorem nodup_keys_ofList (ps : List (κ × α)) : (keys (ofList ps)).Nodup := by
  have hputs (es : List (κ × α)) (hd : (keys es).Nodup) :
      (keys (ps.foldl (fun es p => put p.1 p.2 es) es)).Nodup := by
    induction ps generalizing es with
    | nil => exact hd
    | cons p ps ih => exact ih _ (nodup_keys_put hd p.1 p.2)
  exact hputs [] List.nodup_nil

theorem mem_of_mem_ofList {ps : List (κ × α)} {e : κ × α} (h : e ∈ ofList ps) : e ∈ ps := by
  have hputs (es : List (κ × α)) (h : e ∈ ps.foldl (fun es p => put p.1 p.2 es) es) : e ∈ ps ∨ e ∈ es := by
    clear * - h
    induction ps generalizing es with
    | nil => exact Or.inr h
    | cons p ps ih =>
      rcases ih _ h with h | h
      · exact Or.inl (List.mem_cons_of_mem p h)
      · rcases mem_put h with rfl | h
        · exact Or.inl List.mem_cons_self
        · exact Or.inr h
  exact (hputs [] h).resolve_right List.not_mem_nil

end Entries

namespace Value

/-- What holds of a list or a map whenever it does of its parts, and of all else, holds of every value. -/
@[elab_as_elim]
theorem by_parts {motive : Value → Prop} (bool : ∀ b, motive (.bool b)) (int : ∀ i, motive (.int i))
    (float : ∀ x, motive (.float x)) (string : ∀ s, motive (.string s)) (id : ∀ i, motive (.id i))
    (list : ∀ items, (∀ v ∈ items, motive v) → motive (.list items))
    (map : ∀ entries, (∀ e ∈ entries, motive e.2) → motive (.map entries)) (v : Value) : motive v :=
  @Value.rec motive (fun items => ∀ v ∈ items, motive v) (fun entries => ∀ e ∈ entries, motive e.2)
    (fun e => motive e.2) bool int float string id list map (List.forall_mem_nil _)
    (fun _ _ hv hitems => List.forall_mem_cons.mpr ⟨hv, hitems⟩) (List.forall_mem_nil _)
    (fun _ _ he hentries => List.forall_mem_cons.mpr ⟨he, hentries⟩) (fun _ _ h => h) v

/-- Every map in the value has each of its keys once. -/
inductive Keyed : Value → Prop
  | bool (b : Bool) : Keyed (.bool b)
  | int (i : Int64) : Keyed (.int i)
  | float (x : Binary64) : Keyed (.float x)
  | string (s : String) : Keyed (.string s)
  | id (i : EntityId) : Keyed (.id i)
  | list {items : List Value} (h : ∀ v ∈ items, Keyed v) : Keyed (.list items)
  | map {entries : List (String × Value)} (hd : (Entries.keys entries).Nodup)
    (h : ∀ e ∈ entries, Keyed e.2) : Keyed (.map entries)

/-- There is a NaN in the value, at any depth. -/
inductive HoldsNaN : Value → Prop
  | float {x : Binary64} (h : x.isNaN = true) : HoldsNaN (.float x)
  | item {items : List Value} {v : Value} (hv : v ∈ items) (h : HoldsNaN v) : HoldsNaN (.list items)
  | entry {entries : List (String × Value)} {e : String × Value} (he : e ∈ entries)
    (h : HoldsNaN e.2) : HoldsNaN (.map entries)

variable {a b c : Value} {as bs : List Value} {es fs : List (String × Value)}

theorem Keyed.items (h : Keyed (.list as)) : ∀ v ∈ as, v.Keyed := by
  cases h with
  | list h => exact h

theorem Keyed.nodup (h : Keyed (.map es)) : (Entries.keys es).Nodup := by
  cases h with
  | map hd _ => exact hd

theorem Keyed.entries (h : Keyed (.map es)) : ∀ e ∈ es, e.2.Keyed := by
  cases h with
  | map _ h => exact h

/-- A map that is built by putting entries one by one has each of its keys once. -/
theorem keyed_ofEntries {ps : List (String × Value)} (h : ∀ p ∈ ps, p.2.Keyed) : (ofEntries ps).Keyed :=
  .map (Entries.nodup_keys_ofList ps) fun e he => h e (Entries.mem_of_mem_ofList he)

/-! ## What is compared -/

theorem equalItems_iff : equalItems as bs = true ↔ as.length = bs.length ∧
    ∀ (i : Nat) (a b : Value), as[i]? = some a → bs[i]? = some b → equal a b = true := by
  induction as generalizing bs with
  | nil => cases bs <;> simp [equalItems]
  | cons a as ih =>
    cases bs with
    | nil => simp [equalItems]
    | cons b bs =>
      rw [equalItems, Bool.and_eq_true, ih, List.length_cons, List.length_cons, Nat.add_left_inj]
      constructor
      · rintro ⟨hhead, hlen, hrest⟩
        refine ⟨hlen, fun i x y hx hy => ?_⟩
        cases i with
        | zero =>
          cases hx
          cases hy
          exact hhead
        | succ i => exact hrest i x y hx hy
      · rintro ⟨hlen, hall⟩
        exact ⟨hall 0 a b rfl rfl, hlen, fun i x y hx hy => hall (i + 1) x y hx hy⟩

theorem equalEntries_iff : equalEntries es fs = true ↔
    ∀ e ∈ es, ∃ b, Entries.get? e.1 fs = some b ∧ equal e.2 b = true := by
  induction es with
  | nil => simp [equalEntries]
  | cons e es ih =>
    obtain ⟨k, a⟩ := e
    rw [equalEntries, Bool.and_eq_true, ih, List.forall_mem_cons]
    refine and_congr_left fun _ => ?_
    cases Entries.get? k fs <;> simp

theorem equal_list_iff : equal (.list as) (.list bs) = true ↔ as.length = bs.length ∧
    ∀ (i : Nat) (a b : Value), as[i]? = some a → bs[i]? = some b → equal a b = true := by
  rw [equal, equalItems_iff]

theorem equal_map_iff : equal (.map es) (.map fs) = true ↔ es.length = fs.length ∧
    ∀ e ∈ es, ∃ b, Entries.get? e.1 fs = some b ∧ equal e.2 b = true := by
  rw [equal, Bool.and_eq_true, beq_iff_eq, equalEntries_iff]

theorem type_eq_of_equal (h : equal a b = true) : a.type = b.type := by
  cases a <;> cases b <;> first | rfl | cases h

theorem keys_subset_of_equal (h : equal (.map es) (.map fs) = true) : Entries.keys es ⊆ Entries.keys fs := by
  intro k hk
  obtain ⟨e, he, rfl⟩ := List.mem_map.mp hk
  obtain ⟨b, hb, -⟩ := (equal_map_iff.mp h).2 e he
  exact Entries.get?_isSome_iff.mp (Option.isSome_iff_exists.mpr ⟨b, hb⟩)

/-! ## A partial equivalence -/

theorem equal_symm (ha : a.Keyed) (hb : b.Keyed) (h : equal a b = true) : equal b a = true := by
  induction a using by_parts generalizing b with
  | bool | int | string | id =>
    cases b <;> try cases h
    simp only [equal, beq_iff_eq] at h ⊢
    exact h.symm
  | float x =>
    cases b <;> try cases h
    exact Binary64.equal_symm h
  | list as ih =>
    cases b <;> try cases h
    obtain ⟨hlen, hitems⟩ := equal_list_iff.mp h
    refine equal_list_iff.mpr ⟨hlen.symm, fun i y x hy hx => ?_⟩
    have hx' := List.mem_of_getElem? hx
    exact ih x hx' (ha.items x hx') (hb.items y (List.mem_of_getElem? hy)) (hitems i x y hx hy)
  | map es ih =>
    cases b <;> try cases h
    rename_i fs
    obtain ⟨hlen, hentries⟩ := equal_map_iff.mp h
    refine equal_map_iff.mpr ⟨hlen.symm, fun e he => ?_⟩
    have hkey : e.1 ∈ Entries.keys es :=
      Entries.keys_subset_of_length ha.nodup hlen (keys_subset_of_equal h) (Entries.mem_keys_of_mem he)
    obtain ⟨⟨k, x⟩, hx, hk⟩ := List.mem_map.mp hkey
    obtain ⟨y, hy, hequal⟩ := hentries _ hx
    -- The entry found in the second map is the one that is looked up in the first.
    have hval : y = e.2 := by
      rw [show (k, x).1 = e.1 from hk, Entries.get?_of_mem hb.nodup he] at hy
      exact (Option.some.inj hy).symm
    subst hval
    exact ⟨x, Entries.get?_of_mem ha.nodup (hk ▸ hx), ih _ hx (ha.entries _ hx) (hb.entries _ he) hequal⟩

theorem equal_comm (ha : a.Keyed) (hb : b.Keyed) : equal a b = equal b a :=
  Bool.eq_iff_iff.mpr ⟨equal_symm ha hb, equal_symm hb ha⟩

theorem equal_trans (h : equal a b = true) (h' : equal b c = true) : equal a c = true := by
  induction a using by_parts generalizing b c with
  | bool | int | string | id =>
    cases b <;> try cases h
    cases c <;> try cases h'
    simp only [equal, beq_iff_eq] at h h' ⊢
    exact h.trans h'
  | float x =>
    cases b <;> try cases h
    cases c <;> try cases h'
    exact Binary64.equal_trans h h'
  | list as ih =>
    cases b <;> try cases h
    cases c <;> try cases h'
    obtain ⟨hlen, hitems⟩ := equal_list_iff.mp h
    obtain ⟨hlen', hitems'⟩ := equal_list_iff.mp h'
    refine equal_list_iff.mpr ⟨hlen.trans hlen', fun i x z hx hz => ?_⟩
    have hi := (List.getElem?_eq_some_iff.mp hx).1
    have hy := List.getElem?_eq_getElem (hlen ▸ hi)
    exact ih x (List.mem_of_getElem? hx) (hitems i x _ hx hy) (hitems' i _ z hy hz)
  | map es ih =>
    cases b <;> try cases h
    cases c <;> try cases h'
    obtain ⟨hlen, hentries⟩ := equal_map_iff.mp h
    obtain ⟨hlen', hentries'⟩ := equal_map_iff.mp h'
    refine equal_map_iff.mpr ⟨hlen.trans hlen', fun e he => ?_⟩
    obtain ⟨y, hy, hequal⟩ := hentries e he
    obtain ⟨z, hz, hequal'⟩ := hentries' _ (Entries.mem_of_get? hy)
    exact ⟨z, hz, ih e he hequal hequal'⟩

theorem equal_self_iff (ha : a.Keyed) : equal a a = true ↔ ¬a.HoldsNaN := by
  induction a using by_parts with
  | bool | int | string | id => exact ⟨fun _ => nofun, fun _ => beq_self_eq_true _⟩
  | float x =>
    rw [equal, Binary64.equal_self_iff, ← Bool.not_eq_true]
    exact not_congr ⟨HoldsNaN.float, fun | .float h => h⟩
  | list as ih =>
    rw [equal_list_iff]
    constructor
    · rintro ⟨-, hitems⟩ (_ | ⟨hv, hnan⟩)
      obtain ⟨i, hi⟩ := List.mem_iff_getElem?.mp hv
      exact (ih _ hv (ha.items _ hv)).mp (hitems i _ _ hi hi) hnan
    · refine fun hnan => ⟨rfl, fun i x y hx hy => ?_⟩
      cases hx.symm.trans hy
      have hv := List.mem_of_getElem? hx
      exact (ih x hv (ha.items x hv)).mpr fun h => hnan (.item hv h)
  | map es ih =>
    rw [equal_map_iff]
    constructor
    · rintro ⟨-, hentries⟩ (_ | _ | ⟨he, hnan⟩)
      obtain ⟨b, hb, hequal⟩ := hentries _ he
      cases (Entries.get?_of_mem ha.nodup he).symm.trans hb
      exact (ih _ he (ha.entries _ he)).mp hequal hnan
    · refine fun hnan => ⟨rfl, fun e he => ⟨e.2, Entries.get?_of_mem ha.nodup he, ?_⟩⟩
      exact (ih e he (ha.entries e he)).mpr fun h => hnan (.entry he h)

theorem equal_map_iff_lookup (hes : Keyed (.map es)) (hfs : Keyed (.map fs)) :
    equal (.map es) (.map fs) = true ↔ (∀ k, k ∈ Entries.keys es ↔ k ∈ Entries.keys fs) ∧
      ∀ k a b, Entries.get? k es = some a → Entries.get? k fs = some b → equal a b = true := by
  constructor
  · intro h
    obtain ⟨hlen, hentries⟩ := equal_map_iff.mp h
    have hsub := keys_subset_of_equal h
    refine ⟨fun k => ⟨fun hk => hsub hk, fun hk => Entries.keys_subset_of_length hes.nodup hlen hsub hk⟩, ?_⟩
    intro k a b ha hb
    obtain ⟨b', hb', hequal⟩ := hentries _ (Entries.mem_of_get? ha)
    cases hb.symm.trans hb'
    exact hequal
  · rintro ⟨hkeys, hvalues⟩
    refine equal_map_iff.mpr ⟨Entries.length_eq_of_keys hes.nodup hfs.nodup hkeys, fun e he => ?_⟩
    have hk : e.1 ∈ Entries.keys fs := (hkeys e.1).mp (Entries.mem_keys_of_mem he)
    obtain ⟨b, hb⟩ := Option.isSome_iff_exists.mp (Entries.get?_isSome_iff.mpr hk)
    exact ⟨b, hb, hvalues e.1 e.2 b (Entries.get?_of_mem hes.nodup he) hb⟩

/-- Equality of values is symmetric and transitive, reflexive where no NaN is, keeps to the types, and for
maps does not depend on the order of the keys. -/
theorem equality_ignores_representation (ha : a.Keyed) (hb : b.Keyed) :
    equal a b = equal b a ∧
    (∀ c, equal a b = true → equal b c = true → equal a c = true) ∧
    (equal a a = true ↔ ¬a.HoldsNaN) ∧
    (equal a b = true → a.type = b.type) ∧
    ∀ es fs, a = .map es → b = .map fs →
      (equal a b = true ↔ (∀ k, k ∈ Entries.keys es ↔ k ∈ Entries.keys fs) ∧
        ∀ k x y, Entries.get? k es = some x → Entries.get? k fs = some y → equal x y = true) ∧
      ∀ es', es.Perm es' → equal (.map es') b = equal a b := by
  refine ⟨equal_comm ha hb, fun c => equal_trans, equal_self_iff ha, type_eq_of_equal, ?_⟩
  rintro es fs rfl rfl
  refine ⟨equal_map_iff_lookup ha hb, fun es' hperm => Bool.eq_iff_iff.mpr ?_⟩
  rw [equal_map_iff, equal_map_iff, hperm.length_eq]
  exact and_congr_right fun _ => forall_congr' fun e => by rw [hperm.mem_iff]

/-- The keys came in two orders, and the zeros have two signs; with a NaN the values would not be equal, not
even to themselves. -/
theorem reordered_maps_are_equal :
    ∃ one other : Value, one = ofEntries [("east", .float ⟨0⟩), ("west", .list [.bool true])] ∧
      other = ofEntries [("west", .list [.bool true]), ("east", .float ⟨0x8000000000000000⟩)] ∧
      one.Keyed ∧ other.Keyed ∧ equal other one = true ∧ ¬one.HoldsNaN ∧
      (Value.list [.float .nan]).Keyed ∧ equal (.list [.float .nan]) (.list [.float .nan]) = false := by
  refine ⟨_, _, rfl, rfl, ?_⟩
  have hflags : (Value.list [.bool true]).Keyed := .list (by simpa using Keyed.bool true)
  have hone : (ofEntries [("east", .float ⟨0⟩), ("west", .list [.bool true])]).Keyed :=
    keyed_ofEntries (by simpa using ⟨Keyed.float _, hflags⟩)
  have hother : (ofEntries [("west", .list [.bool true]), ("east", .float ⟨0x8000000000000000⟩)]).Keyed :=
    keyed_ofEntries (by simpa using ⟨hflags, Keyed.float _⟩)
  have hnan : (Value.list [.float .nan]).Keyed := .list (by simpa using Keyed.float .nan)
  obtain ⟨hcomm, -, hself, -⟩ := equality_ignores_representation hone hother
  have hself' := (equality_ignores_representation hnan hnan).2.2.1
  refine ⟨hone, hother, ?_, hself.mp rfl, hnan, ?_⟩
  · rw [← hcomm]
    rfl
  · rw [← Bool.not_eq_true, hself', not_not]
    exact .item List.mem_cons_self (.float rfl)

end Value

end Vivarium
