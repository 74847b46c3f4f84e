import Mathlib.Data.List.Induction
import Mathlib.Logic.Relation
import Vivarium.Typing.Registry

/-! # Inherited methods

The methods of a type are those that it or one of its ancestors declares. The types are gone through
depth first, the parents of each before it, and a type that was met before is passed over. Whatever
shape the inheritance has, a method comes from a type that no other declarer of the method inherits
from, since whoever inherits comes later.
-/

namespace Vivarium

namespace TypeRegistry

open Relation

variable {β : Type} {r : TypeRegistry β} {a b type : TypeName} {k : MethodKey} {m : Method β}

/-! ## Kinds of types -/

def parentsOf (type : TypeName) (r : TypeRegistry β) : List TypeName :=
  ((r.decl? type).map (·.parents)).getD []

def declared (type : TypeName) (r : TypeRegistry β) : List (Method β) :=
  ((r.decl? type).map (·.methods)).getD []

def Extends (r : TypeRegistry β) (type parent : TypeName) : Prop := parent ∈ r.parentsOf type

/-- The type is `a` or inherits from it. -/
def IsA (r : TypeRegistry β) : TypeName → TypeName → Prop := ReflTransGen r.Extends

def Inherits (r : TypeRegistry β) : TypeName → TypeName → Prop := TransGen r.Extends

/-- The last one, if a type declares several methods of one key. -/
def own? (k : MethodKey) (r : TypeRegistry β) (type : TypeName) : Option (Method β) :=
  (r.declared type).reverse.find? fun m => m.key = k

def Declares (r : TypeRegistry β) (type : TypeName) (k : MethodKey) : Prop :=
  ∃ m ∈ r.declared type, m.key = k

/-- No other type that `type` is and that declares the method inherits from `a`. -/
structure MostDerived (type : TypeName) (k : MethodKey) (a : TypeName) (r : TypeRegistry β) : Prop where
  isA : r.IsA type a
  declares : r.Declares a k
  foremost : ∀ b, r.IsA type b → r.Declares b k → ¬r.Inherits b a

/-- The type and all its ancestors are registered, and none of them is its own ancestor. -/
structure Founded (type : TypeName) (r : TypeRegistry β) : Prop where
  registered : ∀ a, r.IsA type a → r.isRegistered a = true
  acyclic : ∀ a, r.IsA type a → ¬r.Inherits a a

theorem own?_isSome_iff : (r.own? k a).isSome ↔ r.Declares a k := by
  simp [own?, Declares]

theorem declares_of_own? (h : r.own? k a = some m) : m ∈ r.declared a ∧ m.key = k := by
  refine ⟨List.mem_reverse.mp (List.mem_of_find?_eq_some h), ?_⟩
  simpa using List.find?_some h

theorem Founded.of_isA (h : r.Founded type) (ha : r.IsA type a) : r.Founded a :=
  ⟨fun b hb => h.registered b (ha.trans hb), fun b hb => h.acyclic b (ha.trans hb)⟩

theorem lookup_of_known (h : r.isRegistered type = true) :
    ∃ d, r.lookup type = .ok d ∧ d.parents = r.parentsOf type ∧ d.methods = r.declared type := by
  obtain ⟨d, hd⟩ := Option.isSome_iff_exists.mp h
  have hdecl : r.decl? type = some d := hd
  exact ⟨d, by rw [lookup, hdecl], by rw [parentsOf, hdecl]; rfl, by rw [declared, hdecl]; rfl⟩

theorem Founded.lookup (h : r.Founded type) :
    ∃ d, r.lookup type = .ok d ∧ d.parents = r.parentsOf type ∧ d.methods = r.declared type :=
  lookup_of_known (h.registered type .refl)

/-- Types whose parents were all registered before them. -/
theorem Founded.of_older (hreg : type ∈ r.registered) (h : ∀ a ∈ r.registered, ∀ p ∈ r.parentsOf a,
    p ∈ r.registered ∧ r.registered.idxOf p < r.registered.idxOf a) : r.Founded type := by
  have hisA : ∀ a, r.IsA type a → a ∈ r.registered := by
    intro a ha
    induction ha with
    | refl => exact hreg
    | tail _ hp ih => exact (h _ ih _ hp).1
  have holder : ∀ a b, a ∈ r.registered → r.Inherits a b →
      b ∈ r.registered ∧ r.registered.idxOf b < r.registered.idxOf a := by
    intro a b ha hin
    induction hin with
    | single hp => exact h a ha _ hp
    | tail _ hp ih =>
      obtain ⟨hmem, hlt⟩ := h _ ih.1 _ hp
      exact ⟨hmem, Nat.lt_trans hlt ih.2⟩
  exact ⟨fun a ha => Entries.get?_isSome_iff.mpr (hisA a ha),
    fun a ha hin => Nat.lt_irrefl _ (holder a a (hisA a ha) hin).2⟩

/-! ## Descent ends -/

/-- How many types a type is. -/
noncomputable def span (type : TypeName) (r : TypeRegistry β) : Nat := by
  classical exact (r.registered.filter fun a => r.IsA type a).length

theorem Founded.span_lt (h : r.Founded type) (hp : r.Extends type a) : r.span a < r.span type := by
  classical
  have hsub : (r.registered.filter fun b => r.IsA a b) =
      (r.registered.filter fun b => r.IsA type b).filter fun b => r.IsA a b := by
    rw [List.filter_filter]
    refine List.filter_congr fun b _ => ?_
    by_cases hb : r.IsA a b
    · have hb' : r.IsA type b := .head hp hb
      simp [hb, hb']
    · simp [hb]
  have hself : type ∈ r.registered.filter fun b => r.IsA type b :=
    List.mem_filter.mpr ⟨Entries.get?_isSome_iff.mp (h.registered type .refl), decide_eq_true .refl⟩
  have hnot : ¬r.IsA a type := fun hback => h.acyclic type .refl (.head' hp hback)
  rw [span, span, hsub]
  refine List.length_filter_lt_length_iff_exists.mpr ⟨type, hself, ?_⟩
  simpa using hnot

theorem Founded.span_pos (h : r.Founded type) : 0 < r.span type := by
  classical
  have hself : type ∈ r.registered.filter fun b => r.IsA type b :=
    List.mem_filter.mpr ⟨Entries.get?_isSome_iff.mp (h.registered type .refl), decide_eq_true .refl⟩
  exact List.length_pos_of_mem hself

theorem span_le (type : TypeName) (r : TypeRegistry β) : r.span type ≤ r.decls.length := by
  classical
  refine Nat.le_trans (List.length_filter_le _ _) ?_
  exact Nat.le_of_eq (List.length_map _)

/-! ## Going through the types -/

/-- Going through `types` depth first, the parents of each before it, gives `ts`. -/
inductive Unfolds (r : TypeRegistry β) : (types ts : List TypeName) → Prop
  | nil : Unfolds r [] []
  | cons {type : TypeName} {types above rest : List TypeName} (habove : Unfolds r (r.parentsOf type) above)
    (hrest : Unfolds r types rest) : Unfolds r (type :: types) (above ++ type :: rest)

theorem Founded.unfolds_all {types : List TypeName} (h : ∀ t ∈ types, ∃ ts, r.Unfolds [t] ts) :
    ∃ ts, r.Unfolds types ts := by
  induction types with
  | nil => exact ⟨[], .nil⟩
  | cons t types ih =>
    obtain ⟨ht, htypes⟩ := List.forall_mem_cons.mp h
    obtain ⟨_, habove, -⟩ := ht
    obtain ⟨rest, hrest⟩ := ih htypes
    exact ⟨_, .cons ‹_› hrest⟩

theorem Founded.unfolds (h : r.Founded type) : ∃ ts, r.Unfolds [type] ts := by
  induction hn : r.span type using Nat.strongRecOn generalizing type with
  | ind n ih =>
    subst hn
    obtain ⟨above, habove⟩ := Founded.unfolds_all fun p hp =>
      ih (r.span p) (h.span_lt hp) (h.of_isA (.single hp)) rfl
    exact ⟨_, .cons habove .nil⟩

theorem Unfolds.mem_iff {types ts : List TypeName} (h : r.Unfolds types ts) :
    a ∈ ts ↔ ∃ t ∈ types, r.IsA t a := by
  induction h with
  | nil => simp
  | @cons type types above rest _ _ ihabove ihrest =>
    rw [List.mem_append, List.mem_cons, ihabove, ihrest]
    constructor
    · rintro (⟨p, hp, ha⟩ | rfl | ⟨t, ht, ha⟩)
      · exact ⟨type, List.mem_cons_self, .head hp ha⟩
      · exact ⟨a, List.mem_cons_self, .refl⟩
      · exact ⟨t, List.mem_cons_of_mem _ ht, ha⟩
    · rintro ⟨t, ht, ha⟩
      rcases List.mem_cons.mp ht with rfl | ht
      · rcases ReflTransGen.cases_head_iff.mp ha with rfl | ⟨p, hp, ha⟩
        · exact Or.inr (Or.inl rfl)
        · exact Or.inl ⟨p, hp, ha⟩
      · exact Or.inr (Or.inr ⟨t, ht, ha⟩)

/-- Whoever is in the list has its parents in it. -/
def Closed (done : List TypeName) (r : TypeRegistry β) : Prop := ∀ t ∈ done, ∀ p ∈ r.parentsOf t, p ∈ done

theorem Closed.of_isA {done : List TypeName} (h : r.Closed done) (ha : r.IsA a b) (hmem : a ∈ done) :
    b ∈ done := by
  induction ha with
  | refl => exact hmem
  | tail _ hs ih => exact h _ ih _ hs

theorem Closed.add {done : List TypeName} (h : r.Closed done) (hparents : ∀ p ∈ r.parentsOf type, p ∈ done) :
    r.Closed (Distinct.add type done) := by
  intro t ht p hp
  rcases Distinct.mem_add.mp ht with ht | rfl
  · exact Distinct.mem_add.mpr (Or.inl (h t ht p hp))
  · exact Distinct.mem_add.mpr (Or.inl (hparents p hp))

/-- None comes after one that inherits from it. -/
def ParentsFirst (done : List TypeName) (r : TypeRegistry β) : Prop :=
  done.Pairwise fun a b => ¬r.Inherits a b

theorem ParentsFirst.add {done : List TypeName} (h : r.ParentsFirst done) (hclosed : r.Closed done) :
    r.ParentsFirst (Distinct.add type done) := by
  rw [Distinct.add]
  split
  · exact h
  · next hnot =>
    -- Whoever is there has its ancestors there, so it does not inherit from the new one.
    refine List.pairwise_append.mpr ⟨h, List.pairwise_singleton _ _, fun t ht t' ht' hin => ?_⟩
    obtain rfl := List.mem_singleton.mp ht'
    exact hnot (hclosed.of_isA hin.to_reflTransGen ht)

theorem Unfolds.closed {types ts : List TypeName} (h : r.Unfolds types ts) {done : List TypeName}
    (hclosed : r.Closed done) :
    r.Closed (Distinct.addAll ts done) ∧ ∀ t ∈ types, t ∈ Distinct.addAll ts done := by
  induction h generalizing done with
  | nil => exact ⟨hclosed, by simp⟩
  | @cons type types above rest _ _ ihabove ihrest =>
    obtain ⟨habove, hparents⟩ := ihabove hclosed
    rw [List.append_cons, Distinct.addAll_append, Distinct.addAll_append]
    obtain ⟨hrest, htypes⟩ := ihrest (habove.add hparents)
    refine ⟨hrest, List.forall_mem_cons.mpr ⟨?_, htypes⟩⟩
    exact Distinct.mem_addAll.mpr (Or.inl (Distinct.mem_add.mpr (Or.inr rfl)))

theorem Unfolds.parentsFirst {types ts : List TypeName} (h : r.Unfolds types ts) {done : List TypeName}
    (hclosed : r.Closed done) (hfirst : r.ParentsFirst done) :
    r.ParentsFirst (Distinct.addAll ts done) := by
  induction h generalizing done with
  | nil => exact hfirst
  | @cons type types above rest habove _ ihabove ihrest =>
    obtain ⟨hclosed', hparents⟩ := habove.closed hclosed
    rw [List.append_cons, Distinct.addAll_append, Distinct.addAll_append]
    exact ihrest (hclosed'.add hparents) ((ihabove hclosed hfirst).add hclosed')

/-! ## Gathering methods -/

def putMethods (ms : List (Method β)) (es : List (MethodKey × Method β)) : List (MethodKey × Method β) :=
  ms.foldl (fun es m => Entries.put m.key m es) es

/-- The methods that `types` declare, in this order. -/
def gather (types : List TypeName) (r : TypeRegistry β) : List (MethodKey × Method β) :=
  putMethods (types.flatMap r.declared) []

theorem keys_putMethods (ms : List (Method β)) (es : List (MethodKey × Method β)) :
    Entries.keys (putMethods ms es) = Distinct.addAll (ms.map Method.key) (Entries.keys es) := by
  induction ms generalizing es with
  | nil => rfl
  | cons m ms ih =>
    change Entries.keys (putMethods ms (Entries.put m.key m es)) = _
    rw [ih, Entries.keys_put]
    rfl

theorem get?_putMethods (ms : List (Method β)) (es : List (MethodKey × Method β)) :
    Entries.get? k (putMethods ms es) = (ms.reverse.find? fun m => m.key = k).or (Entries.get? k es) := by
  induction ms generalizing es with
  | nil => rfl
  | cons m ms ih =>
    change Entries.get? k (putMethods ms (Entries.put m.key m es)) = _
    rw [ih, List.reverse_cons, List.find?_append, Option.or_assoc]
    congr 1
    by_cases hk : m.key = k
    · subst hk
      simp [Entries.get?_put_self]
    · simp [Entries.get?_put_of_ne hk, hk]

theorem gather_concat (types : List TypeName) (type : TypeName) (r : TypeRegistry β) :
    r.gather (types ++ [type]) = putMethods (r.declared type) (r.gather types) := by
  simp [gather, putMethods]

theorem keys_gather (types : List TypeName) (r : TypeRegistry β) :
    Entries.keys (r.gather types) = Distinct.addAll ((types.flatMap r.declared).map Method.key) [] :=
  keys_putMethods _ _

/-- The last declarer has the say. -/
theorem get?_gather (types : List TypeName) (r : TypeRegistry β) :
    Entries.get? k (r.gather types) = types.reverse.findSome? (r.own? k) := by
  induction types using List.reverseRecOn with
  | nil => rfl
  | append_singleton types type ih =>
    rw [gather_concat, get?_putMethods, ih, List.reverse_append]
    change (r.own? k type).or _ = (type :: types.reverse).findSome? (r.own? k)
    rw [List.findSome?_cons]
    cases r.own? k type <;> rfl

theorem mem_keys_gather {types : List TypeName} :
    k ∈ Entries.keys (r.gather types) ↔ ∃ a ∈ types, r.Declares a k := by
  rw [keys_gather, Distinct.mem_addAll]
  simp only [List.not_mem_nil, false_or, List.mem_map, List.mem_flatMap, Declares]
  constructor
  · rintro ⟨m, ⟨a, ha, hm⟩, hk⟩
    exact ⟨a, ha, m, hm, hk⟩
  · rintro ⟨a, ha, m, hm, hk⟩
    exact ⟨m, ⟨a, ha, hm⟩, hk⟩

/-! ## Collecting -/

/-- Of the types that were visited those of `done` are done with, and `path` is still under way. -/
structure Gathered (path done : List TypeName) (c : Collected β) (r : TypeRegistry β) : Prop where
  visited : ∀ t, t ∈ c.visited ↔ t ∈ path ∨ t ∈ done
  methods : c.methods = r.gather done

theorem Gathered.enter {path done : List TypeName} {c : Collected β} (h : r.Gathered path done c) :
    r.Gathered (type :: path) done { c with visited := c.visited ++ [type] } where
  visited t := by
    rw [List.mem_append, List.mem_singleton, h.visited, List.mem_cons, or_right_comm,
      or_comm (a := t = type)]
  methods := h.methods

theorem Gathered.leave {path done : List TypeName} {c : Collected β} (h : r.Gathered (type :: path) done c)
    (hnew : type ∉ done) : r.Gathered path (Distinct.add type done)
      { c with methods := putMethods (r.declared type) c.methods } where
  visited t := by
    rw [h.visited, List.mem_cons, Distinct.mem_add, ← or_assoc, or_comm (a := t = type), or_right_comm]
  methods := by
    rw [Distinct.add, if_neg hnew, gather_concat, ← h.methods]

/-- The type can be gone through below `path`, and `depth` is enough for it. -/
structure Reachable (path : List TypeName) (depth : Nat) (type : TypeName) (r : TypeRegistry β) : Prop where
  founded : r.Founded type
  span : r.span type ≤ depth
  apart : ∀ a, r.IsA type a → a ∉ path

theorem Reachable.parent {path : List TypeName} {depth : Nat} (h : r.Reachable path (depth + 1) type)
    (hp : r.Extends type a) : r.Reachable (type :: path) depth a where
  founded := h.founded.of_isA (.single hp)
  span := Nat.le_of_lt_succ (Nat.lt_of_lt_of_le (h.founded.span_lt hp) h.span)
  apart b hb hmem := by
    rcases List.mem_cons.mp hmem with rfl | hmem
    · exact h.founded.acyclic b .refl (.head' hp hb)
    · exact h.apart b (.head hp hb) hmem

theorem collectFrom_of_new {depth : Nat} {c c' : Collected β} (hfounded : r.Founded type)
    (hnew : type ∉ c.visited)
    (hparents : (r.parentsOf type).foldlM (fun c t => r.collectFrom depth t c)
      { c with visited := c.visited ++ [type] } = .ok c') :
    r.collectFrom (depth + 1) type c =
      .ok { c' with methods := putMethods (r.declared type) c'.methods } := by
  obtain ⟨d, hlookup, hd, hdeclared⟩ := hfounded.lookup
  rw [collectFrom, if_neg fun hin => hnew (List.contains_iff_mem.mp hin), hlookup]
  change (d.parents.foldlM (fun c t => r.collectFrom depth t c) _ >>= fun c =>
    Except.ok { c with methods := putMethods d.methods c.methods }) = _
  rw [hd, hdeclared, hparents]
  rfl

/-- The types are collected in the order in which they unfold, each once. -/
theorem Unfolds.collects {types ts : List TypeName} (h : r.Unfolds types ts) {depth : Nat}
    {path done : List TypeName} {c : Collected β} (htypes : ∀ t ∈ types, r.Reachable path depth t)
    (hclosed : r.Closed done) (hc : r.Gathered path done c) :
    ∃ c', types.foldlM (fun c t => r.collectFrom depth t c) c = .ok c' ∧
      r.Gathered path (Distinct.addAll ts done) c' := by
  induction h generalizing depth path done c with
  | nil => exact ⟨c, rfl, hc⟩
  | @cons type types above rest habove hrest ihabove ihrest =>
    obtain ⟨hreach, htypes⟩ := List.forall_mem_cons.mp htypes
    have hone : r.Unfolds [type] (above ++ [type]) := .cons habove .nil
    obtain ⟨depth, rfl⟩ : ∃ n, depth = n + 1 :=
      ⟨depth - 1, (Nat.sub_add_cancel (Nat.le_trans hreach.founded.span_pos hreach.span)).symm⟩
    suffices hfirst : ∃ c₁, r.collectFrom (depth + 1) type c = .ok c₁ ∧
        r.Gathered path (Distinct.addAll (above ++ [type]) done) c₁ by
      obtain ⟨c₁, hfirst, hc₁⟩ := hfirst
      rw [List.foldlM_cons, hfirst, List.append_cons, Distinct.addAll_append]
      exact ihrest htypes (hone.closed hclosed).1 hc₁
    by_cases hdone : type ∈ done
    · -- Its ancestors are done with too, so it brings nothing new.
      have hall : ∀ a ∈ above ++ [type], a ∈ done := by
        intro a ha
        obtain ⟨t, ht, hin⟩ := hone.mem_iff.mp ha
        obtain rfl := List.mem_singleton.mp ht
        exact hclosed.of_isA hin hdone
      rw [collectFrom, if_pos (List.contains_iff_mem.mpr ((hc.visited type).mpr (Or.inr hdone))),
        Distinct.addAll_of_subset hall]
      exact ⟨c, rfl, hc⟩
    · have hnew : type ∉ c.visited := fun hin =>
        ((hc.visited type).mp hin).elim (hreach.apart type .refl) hdone
      have hlast : type ∉ Distinct.addAll above done := by
        intro hin
        obtain ⟨p, hp, hback⟩ := habove.mem_iff.mp ((Distinct.mem_addAll.mp hin).resolve_left hdone)
        exact hreach.founded.acyclic type .refl (.head' hp hback)
      obtain ⟨c₂, hparents, hc₂⟩ := ihabove (fun p hp => hreach.parent hp) hclosed hc.enter
      refine ⟨_, collectFrom_of_new hreach.founded hnew hparents, ?_⟩
      rw [Distinct.addAll_append]
      exact hc₂.leave hlast

theorem Unfolds.allMethods {ts : List TypeName} (h : r.Unfolds [type] ts) (hfounded : r.Founded type) :
    r.allMethods type = .ok (r.gather (Distinct.addAll ts [])) := by
  have hreach : r.Reachable [] (r.decls.length + 1) type :=
    ⟨hfounded, Nat.le_succ_of_le (span_le type r), fun _ _ => List.not_mem_nil⟩
  have hbegin : r.Gathered [] [] {} := ⟨fun t => by simp, rfl⟩
  obtain ⟨c, hcollect, hc⟩ := h.collects (fun t ht => List.mem_singleton.mp ht ▸ hreach)
    (by rintro _ ⟨⟩) hbegin
  have hone : r.collectFrom (r.decls.length + 1) type {} = .ok c := by
    rw [List.foldlM_cons] at hcollect
    cases hfrom : r.collectFrom (r.decls.length + 1) type {} with
    | error e =>
      rw [hfrom] at hcollect
      cases hcollect
    | ok c' =>
      rw [hfrom] at hcollect
      exact hcollect
  rw [TypeRegistry.allMethods, hone, ← hc.methods]
  rfl

/-! ## What is collected -/

/-- `order` has the type and its ancestors, each once and after its own ancestors; the methods are
those that they declare, in the order of their first declaration, and each comes from the last of its
most derived declarers. -/
structure Inheritance (type : TypeName) (order : List TypeName) (ms : List (MethodKey × Method β))
    (r : TypeRegistry β) : Prop where
  once : order.Nodup
  types : ∀ a, a ∈ order ↔ r.IsA type a
  parentsFirst : order.Pairwise fun a b => ¬r.Inherits a b
  single : (Entries.keys ms).Nodup
  keys : Entries.keys ms = Distinct.addAll ((order.flatMap r.declared).map Method.key) []
  available : ∀ k, k ∈ Entries.keys ms ↔ ∃ a, r.IsA type a ∧ r.Declares a k
  chosen : ∀ k m, (k, m) ∈ ms → ∃ a, r.own? k a = some m ∧ r.MostDerived type k a ∧
    ∀ b, r.MostDerived type k b → b ≠ a → [b, a].Sublist order
  own : ∀ k m, r.own? k type = some m → (k, m) ∈ ms

theorem Founded.chosen {order : List TypeName} (h : r.Founded type) (htypes : ∀ a, a ∈ order ↔ r.IsA type a)
    (hfirst : r.ParentsFirst order) (hget : Entries.get? k (r.gather order) = some m) :
    ∃ a, r.own? k a = some m ∧ r.MostDerived type k a ∧
      ∀ b, r.MostDerived type k b → b ≠ a → [b, a].Sublist order := by
  rw [get?_gather] at hget
  obtain ⟨later, a, earlier, hsplit, hown, hnone⟩ := List.findSome?_eq_some_iff.mp hget
  have horder : order = earlier.reverse ++ a :: later.reverse := by
    rw [← List.reverse_reverse order, hsplit]
    simp
  have hbefore : ∀ b, r.IsA type b → r.Declares b k → b ≠ a → b ∈ earlier.reverse := by
    intro b hb hdeclares hne
    have hmem := (htypes b).mpr hb
    rw [horder, List.mem_append, List.mem_cons] at hmem
    rcases hmem with hmem | hmem | hmem
    · exact hmem
    · exact absurd hmem hne
    · have hsome := own?_isSome_iff.mpr hdeclares
      rw [hnone b (List.mem_reverse.mp hmem)] at hsome
      cases hsome
  obtain ⟨hmem, hkey⟩ := declares_of_own? hown
  have ha : r.IsA type a := (htypes a).mp (horder ▸ List.mem_append_right _ List.mem_cons_self)
  refine ⟨a, hown, ⟨ha, ⟨m, hmem, hkey⟩, fun b hb hdeclares hin => ?_⟩, fun b hb hne => ?_⟩
  · rw [ParentsFirst, horder, List.pairwise_append] at hfirst
    by_cases hne : b = a
    · exact h.acyclic a ha (hne ▸ hin)
    · exact hfirst.2.2 b (hbefore b hb hdeclares hne) a List.mem_cons_self hin
  · rw [horder]
    exact (List.singleton_sublist.mpr (hbefore b hb.isA hb.declares hne)).append
      (List.singleton_sublist.mpr List.mem_cons_self)

theorem Unfolds.inheritance {ts : List TypeName} (h : r.Unfolds [type] ts) (hfounded : r.Founded type) :
    r.Inheritance type (Distinct.addAll ts []) (r.gather (Distinct.addAll ts [])) := by
  have htypes : ∀ a, a ∈ Distinct.addAll ts [] ↔ r.IsA type a := by
    intro a
    rw [Distinct.mem_addAll, h.mem_iff]
    simp
  have hfirst : r.ParentsFirst (Distinct.addAll ts []) := h.parentsFirst (by rintro _ ⟨⟩) .nil
  have hsingle : (Entries.keys (r.gather (Distinct.addAll ts []))).Nodup := by
    rw [keys_gather]
    exact Distinct.nodup_addAll .nil
  refine ⟨Distinct.nodup_addAll .nil, htypes, hfirst, hsingle, keys_gather _ r, fun k => ?_,
    fun k m hm => ?_, fun k m hown => ?_⟩
  · rw [mem_keys_gather]
    simp only [htypes]
  · exact hfounded.chosen htypes hfirst (Entries.get?_of_mem hsingle hm)
  · -- Its own declaration is the last one: nobody that it is inherits from it.
    obtain ⟨hmem, hkey⟩ := declares_of_own? hown
    have hdeclares : r.Declares type k := ⟨m, hmem, hkey⟩
    have hsome : (Entries.get? k (r.gather (Distinct.addAll ts []))).isSome :=
      Entries.get?_isSome_iff.mpr (mem_keys_gather.mpr ⟨type, (htypes type).mpr .refl, hdeclares⟩)
    obtain ⟨m', hget⟩ := Option.isSome_iff_exists.mp hsome
    obtain ⟨a, hown', hderived, -⟩ := hfounded.chosen htypes hfirst hget
    rcases reflTransGen_iff_eq_or_transGen.mp hderived.isA with rfl | hin
    · rw [hown] at hown'
      cases hown'
      exact Entries.mem_of_get? hget
    · exact absurd hin (hderived.foremost type .refl hdeclares)

/-! ## Tables -/

theorem bindAll_cons_ok {b : Binding β} (h : r.bind m = .ok b) (ms : List (MethodKey × Method β)) :
    r.bindAll ((k, m) :: ms) = ((k, b) :: (r.bindAll ms).1, (r.bindAll ms).2) := by
  simp [bindAll, h]

theorem bindAll_cons_error {kind : ProblemKind} (h : r.bind m = .error kind)
    (ms : List (MethodKey × Method β)) :
    r.bindAll ((k, m) :: ms) = ((r.bindAll ms).1, ⟨k, kind⟩ :: (r.bindAll ms).2) := by
  simp [bindAll, h]

theorem keys_bindAll (ms : List (MethodKey × Method β)) (h : (r.bindAll ms).2 = []) :
    Entries.keys (r.bindAll ms).1 = Entries.keys ms := by
  induction ms with
  | nil => rfl
  | cons p ms ih =>
    obtain ⟨k, m⟩ := p
    cases hb : r.bind m with
    | error kind =>
      rw [bindAll_cons_error hb] at h
      cases h
    | ok b =>
      rw [bindAll_cons_ok hb] at h ⊢
      exact congrArg (k :: ·) (ih h)

theorem keys_build {t : MethodTable β} {ms : List (MethodKey × Method β)} (hms : r.allMethods type = .ok ms)
    (ht : r.build type = .ok t) : Entries.keys t.methods = Entries.keys ms := by
  unfold build at ht
  cases ha : r.ancestors type with
  | error e =>
    rw [ha] at ht
    cases ht
  | ok ancestors =>
    rw [ha, hms] at ht
    simp only [Bind.bind, Except.bind] at ht
    split at ht
    · next methods hbound =>
      cases ht
      have hkeys := keys_bindAll (r := r) ms (by rw [hbound])
      rwa [hbound] at hkeys
    · cases ht

end TypeRegistry

open TypeRegistry

/-- The methods of a type whose ancestors are known and acyclic are those that it and its ancestors
declare, one for each key, taken from the last most derived declarer in the order in which the types
are gone through. Whatever is available through an ancestor is available through the type. -/
theorem methods_come_from_most_derived {β : Type} {r : TypeRegistry β} {type : TypeName}
    (h : r.Founded type) : ∃ ts ms, r.Unfolds [type] ts ∧ r.allMethods type = .ok ms ∧
      r.Inheritance type (Distinct.addAll ts []) ms ∧
      (∀ t, r.build type = .ok t → Entries.keys t.methods = Entries.keys ms) ∧
      ∀ a, r.IsA type a → ∃ inherited, r.allMethods a = .ok inherited ∧
        ∀ k ∈ Entries.keys inherited, k ∈ Entries.keys ms := by
  obtain ⟨ts, hts⟩ := h.unfolds
  have hms := hts.allMethods h
  have hinherits := hts.inheritance h
  refine ⟨ts, _, hts, hms, hinherits, fun t ht => keys_build hms ht, fun a ha => ?_⟩
  obtain ⟨above, habove⟩ := (h.of_isA ha).unfolds
  refine ⟨_, habove.allMethods (h.of_isA ha), fun k hk => ?_⟩
  obtain ⟨b, hb, hdeclares⟩ := ((habove.inheritance (h.of_isA ha)).available k).mp hk
  exact (hinherits.available k).mpr ⟨b, ha.trans hb, hdeclares⟩

/-- Two types redeclare a method of their parent, and a fourth type extends both. -/
def diamond : TypeRegistry Unit :=
  { decls := [("thing", ⟨"thing", [], [{ name := "f" }, { name := "g" }]⟩),
      ("left", ⟨"left", ["thing"], [{ name := "h" }, { name := "f", returns := .flag }]⟩),
      ("right", ⟨"right", ["thing"], [{ name := "f", returns := .id }]⟩),
      ("both", ⟨"both", ["left", "right", "left"], [{ name := "g", returns := .task }]⟩)] }

theorem diamond_inherits : diamond.Founded "both" ∧ ∃ ts ms, diamond.Unfolds ["both"] ts ∧
    diamond.allMethods "both" = .ok ms ∧ diamond.Inheritance "both" (Distinct.addAll ts []) ms ∧
    ms.map (fun p => (p.1.name, p.2.returns)) = [("f", .id), ("g", .task), ("h", .void)] := by
  have hfounded : diamond.Founded "both" := .of_older (by decide) (by decide)
  obtain ⟨ts, ms, hts, hms, hinherits, -⟩ := methods_come_from_most_derived hfounded
  have hshown : (diamond.allMethods "both").toOption.map (·.map fun p => (p.1.name, p.2.returns)) =
      some [("f", .id), ("g", .task), ("h", .void)] := by decide
  rw [hms] at hshown
  exact ⟨hfounded, ts, ms, hts, hms, hinherits, Option.some.inj hshown⟩

end Vivarium
