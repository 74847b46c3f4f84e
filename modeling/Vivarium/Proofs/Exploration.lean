import Vivarium.Proofs.Accessors

/-! # Validation is breadth first

A validation resolves what can be reached from a type through the tables, in rounds: first the type, then
what its table hands out or marks, then what their tables do. Types that refer to each other or to
themselves are met once. It stops at the first type of this order that does not resolve, and what it has
resolved until then is kept.
-/

namespace Vivarium

namespace Distinct

variable {α : Type} [DecidableEq α] {as bs cs : List α}

theorem prefix_addAll (bs as : List α) : as <+: addAll bs as := by
  obtain ⟨new, hnew, -⟩ := addAll_eq_append bs as
  exact ⟨new, hnew.symm⟩

theorem addAll_filter (h : ∀ a ∈ cs, a ∈ as) (bs : List α) :
    addAll (bs.filter fun b => !cs.contains b) as = addAll bs as := by
  induction bs generalizing as with
  | nil => rfl
  | cons b bs ih =>
    have hadded : ∀ a ∈ cs, a ∈ add b as := fun a ha => mem_add.mpr (Or.inl (h a ha))
    by_cases hb : b ∈ cs
    · have hsame : add b as = as := if_pos (h b hb)
      rw [List.filter_cons_of_neg (by simpa using hb), ih h]
      change _ = addAll bs (add b as)
      rw [hsame]
    · rw [List.filter_cons_of_pos (by simpa using hb)]
      exact ih hadded

end Distinct

namespace TypeRegistry

open Relation Distinct

variable {β : Type} {r r' start : TypeRegistry β} {type a b : TypeName} {t : MethodTable β} {e : TypeError}
  {seen queue rest order : List TypeName} {n : Nat}

/-! ## The order of the rounds -/

/-- What the methods of a type hand out or mark, if it resolves. -/
def handsOut (r : TypeRegistry β) (type : TypeName) : List TypeName :=
  match (r.resolve type).1 with
  | .ok t => t.dependencies
  | .error _ => []

def Reaches (r : TypeRegistry β) : TypeName → TypeName → Prop := ReflTransGen fun a b => b ∈ r.handsOut a

/-- The second type is reached from the first through this many tables. -/
inductive Leads (r : TypeRegistry β) (type : TypeName) : Nat → TypeName → Prop
  | start : Leads r type 0 type
  | step {n : Nat} {a b : TypeName} (h : Leads r type n a) (hb : b ∈ r.handsOut a) : Leads r type (n + 1) b

/-- What is met in the first rounds: the type, and in each round what those that are there hand out. -/
def within (r : TypeRegistry β) (type : TypeName) : Nat → List TypeName
  | 0 => [type]
  | n + 1 => addAll ((r.within type n).flatMap r.handsOut) (r.within type n)

/-- There are no more rounds than types. -/
def breadthFirst (r : TypeRegistry β) (type : TypeName) : List TypeName := r.within type r.decls.length

theorem handsOut_of_ok (h : (r.resolve type).1 = .ok t) : r.handsOut type = t.dependencies := by
  rw [handsOut, h]

theorem handsOut_of_error (h : (r.resolve type).1 = .error e) : r.handsOut type = [] := by
  rw [handsOut, h]

theorem mem_within_iff : a ∈ r.within type n ↔ ∃ k ≤ n, r.Leads type k a := by
  induction n generalizing a with
  | zero =>
    rw [within, List.mem_singleton]
    constructor
    · rintro rfl
      exact ⟨0, le_rfl, .start⟩
    · rintro ⟨k, hk, ha⟩
      obtain rfl := Nat.le_zero.mp hk
      cases ha
      rfl
  | succ n ih =>
    rw [within, mem_addAll, List.mem_flatMap, ih]
    simp only [ih]
    constructor
    · rintro (⟨k, hk, ha⟩ | ⟨b, ⟨k, hk, hb⟩, ha⟩)
      · exact ⟨k, Nat.le_succ_of_le hk, ha⟩
      · exact ⟨k + 1, Nat.succ_le_succ hk, hb.step ha⟩
    · rintro ⟨k, hk, ha⟩
      cases ha with
      | start => exact Or.inl ⟨0, Nat.zero_le n, .start⟩
      | step hb ha => exact Or.inr ⟨_, ⟨_, Nat.le_of_succ_le_succ hk, hb⟩, ha⟩

theorem reaches_iff : r.Reaches type a ↔ ∃ n, r.Leads type n a := by
  constructor
  · intro h
    induction h with
    | refl => exact ⟨0, .start⟩
    | tail _ hb ih =>
      obtain ⟨n, ha⟩ := ih
      exact ⟨n + 1, ha.step hb⟩
  · rintro ⟨n, ha⟩
    induction ha with
    | start => exact .refl
    | step _ hb ih => exact .tail ih hb

theorem nodup_within (n : Nat) : (r.within type n).Nodup := by
  induction n with
  | zero => exact List.nodup_cons.mpr ⟨List.not_mem_nil, .nil⟩
  | succ n ih => exact nodup_addAll ih

theorem within_prefix {m : Nat} (h : n ≤ m) : r.within type n <+: r.within type m := by
  induction h with
  | refl => exact List.prefix_rfl
  | step _ ih => exact ih.trans (prefix_addAll _ _)

/-- A round may begin from the type alone: what was met before is met again, in the same order. -/
theorem within_succ (n : Nat) :
    r.within type (n + 1) = addAll ((r.within type n).flatMap r.handsOut) [type] := by
  induction n with
  | zero => rfl
  | succ n ih =>
    obtain ⟨new, hnew⟩ : r.within type n <+: r.within type (n + 1) := within_prefix n.le_succ
    -- only what is new in the last round hands out anything that is new in this one
    have hfirst : ∀ a ∈ (r.within type n).flatMap r.handsOut, a ∈ r.within type (n + 1) :=
      fun a ha => mem_addAll.mpr (Or.inr ha)
    calc r.within type (n + 2)
        = addAll ((r.within type n ++ new).flatMap r.handsOut) (r.within type (n + 1)) := by
          rw [within, hnew]
      _ = addAll (new.flatMap r.handsOut) (r.within type (n + 1)) := by
          rw [List.flatMap_append, addAll_append, addAll_of_subset hfirst]
      _ = addAll ((r.within type n ++ new).flatMap r.handsOut) [type] := by
          rw [List.flatMap_append, addAll_append, ← ih]
      _ = addAll ((r.within type (n + 1)).flatMap r.handsOut) [type] := by rw [hnew]

/-! ## The rounds come to an end -/

theorem Reached.registered_of_handsOut (h : r.Reached) (hb : b ∈ r.handsOut a) :
    r.isRegistered a = true ∧ r.isRegistered b = true := by
  cases ht : (r.resolve a).1 with
  | error e =>
    rw [handsOut_of_error ht] at hb
    cases hb
  | ok t =>
    rw [handsOut_of_ok ht] at hb
    rw [h.coherent.resolve] at ht
    refine ⟨(complete_iff.mp ⟨t, ht⟩).founded.registered a .refl, ?_⟩
    obtain ⟨as, ms, -, -, hbound, rfl⟩ := build_ok_iff.mp ht
    obtain ⟨⟨k, binding⟩, hentry, hdependency⟩ :=
      List.mem_flatMap.mp ((mem_addAll.mp hb).resolve_left List.not_mem_nil)
    obtain ⟨m, -, hbind⟩ := mem_bindAll hbound hentry
    exact (bind_ok_iff.mp hbind).2 b hdependency

theorem Reached.registered_of_leads (h : r.Reached) (htype : r.isRegistered type = true)
    (ha : r.Leads type n a) : a ∈ r.registered := by
  apply Entries.has_iff_mem.mp
  cases ha with
  | start => exact htype
  | step _ hb => exact (h.registered_of_handsOut hb).2

/-- A round that meets nothing new is the last. -/
theorem within_stays (h : r.within type (n + 1) = r.within type n) {m : Nat} (hm : n ≤ m) :
    r.within type m = r.within type n := by
  induction hm with
  | refl => rfl
  | step _ ih =>
    rw [within, ih]
    exact h

/-- As long as each round has met something new, there are more types than rounds. -/
theorem lt_length_within (h : ∀ k < n, r.within type (k + 1) ≠ r.within type k) :
    n < (r.within type n).length := by
  induction n with
  | zero => exact Nat.zero_lt_one
  | succ n ih =>
    have hlast := ih fun k hk => h k (Nat.lt_succ_of_lt hk)
    have hgrows : r.within type n <+: r.within type (n + 1) := within_prefix n.le_succ
    have hne : (r.within type n).length ≠ (r.within type (n + 1)).length :=
      fun heq => h n n.lt_succ_self (hgrows.eq_of_length heq).symm
    have hle := hgrows.length_le
    omega

theorem Reached.within_stops (h : r.Reached) (type : TypeName) :
    r.within type (r.decls.length + 1) = r.within type r.decls.length := by
  by_cases htype : r.isRegistered type = true
  · by_contra hnew
    -- every round so far has met something new, and that is more than there are types
    have hgrowing : ∀ k < r.decls.length, r.within type (k + 1) ≠ r.within type k := by
      intro k hk hsame
      exact hnew ((within_stays hsame (Nat.le_succ_of_le hk.le)).trans (within_stays hsame hk.le).symm)
    have hmany := lt_length_within hgrowing
    have hfew : (r.within type r.decls.length).length ≤ r.registered.length := by
      refine ((nodup_within _).subperm fun a ha => ?_).length_le
      obtain ⟨k, -, ha⟩ := mem_within_iff.mp ha
      exact h.registered_of_leads htype ha
    rw [registered, Entries.keys, List.length_map] at hfew
    omega
  · -- a type that is not registered hands out nothing
    have hnothing : r.handsOut type = [] := by
      rw [List.eq_nil_iff_forall_not_mem]
      exact fun b hb => htype (h.registered_of_handsOut hb).1
    have hfirst : r.within type (0 + 1) = r.within type 0 := by
      simp only [within, List.flatMap_cons, List.flatMap_nil, hnothing]
      rfl
    have hstays : ∀ m, r.within type m = r.within type 0 := fun m => within_stays hfirst m.zero_le
    rw [hstays, hstays r.decls.length]

/-- The order in which types are met: all that can be reached, once, and those first that fewer tables
lead to. -/
structure BreadthFirst (r : TypeRegistry β) (type : TypeName) (order : List TypeName) : Prop where
  first : order.head? = some type
  once : order.Nodup
  exact : ∀ a, a ∈ order ↔ r.Reaches type a
  rounds : ∀ n, r.within type n <+: order

theorem Reached.breadthFirst (h : r.Reached) (type : TypeName) :
    r.BreadthFirst type (r.breadthFirst type) := by
  have hrounds : ∀ n, r.within type n <+: r.breadthFirst type := by
    intro n
    rcases le_total n r.decls.length with hn | hn
    · exact within_prefix hn
    · rw [within_stays (h.within_stops type) hn]
      exact List.prefix_rfl
  refine ⟨?_, nodup_within _, fun a => ?_, hrounds⟩
  · obtain ⟨more, hmore⟩ := hrounds 0
    rw [← hmore]
    rfl
  · rw [reaches_iff]
    constructor
    · intro ha
      obtain ⟨k, -, ha⟩ := mem_within_iff.mp ha
      exact ⟨k, ha⟩
    · rintro ⟨n, ha⟩
      exact (hrounds n).subset (mem_within_iff.mpr ⟨n, le_rfl, ha⟩)

theorem Reached.breadthFirst_eq (h : r.Reached) (type : TypeName) :
    addAll ((r.breadthFirst type).flatMap r.handsOut) [type] = r.breadthFirst type :=
  (within_succ _).symm.trans (h.within_stops type)

/-! ## The loop -/

/-- With `seen` behind it and `queue` ahead of it, the loop ends with `out`. -/
inductive Works : (r : TypeRegistry β) → (seen queue : List TypeName) →
    (out : Except TypeError (List TypeName) × TypeRegistry β) → Prop
  | done {r : TypeRegistry β} {seen : List TypeName} : Works r seen [] (.ok seen, r)
  | skip {r : TypeRegistry β} {type : TypeName} {seen rest : List TypeName}
    {out : Except TypeError (List TypeName) × TypeRegistry β} (hin : type ∈ seen)
    (hrest : Works r seen rest out) : Works r seen (type :: rest) out
  | fail {r r' : TypeRegistry β} {type : TypeName} {seen rest : List TypeName} {e : TypeError}
    (hnew : type ∉ seen) (hresolve : r.resolve type = (.error e, r')) :
    Works r seen (type :: rest) (.error e, r')
  | visit {r r' : TypeRegistry β} {type : TypeName} {seen rest : List TypeName} {t : MethodTable β}
    {out : Except TypeError (List TypeName) × TypeRegistry β} (hnew : type ∉ seen)
    (hresolve : r.resolve type = (.ok t, r'))
    (hrest : Works r' (seen ++ [type])
      (rest ++ t.dependencies.filter fun d => !(seen ++ [type]).contains d) out) :
    Works r seen (type :: rest) out

theorem Coherent.resolve_of_unknown (h : r.Coherent) (hunknown : r.isRegistered type = false) :
    r.resolve type = (.error (.unknownType type), r) := by
  have hbuild : r.build type = .error (.unknownType type) := by
    rw [build, ancestors, ancestorsFrom_of_unknown hunknown]
    rfl
  have hfails : (r.resolve type).1 = .error (.unknownType type) := (h.resolve type).trans hbuild
  exact Prod.ext hfails (resolve_of_error hfails)

theorem Coherent.works (h : r.Coherent) (seen queue : List TypeName) :
    r.Works seen queue (r.validateFrom seen queue) := by
  induction r, seen, queue using TypeRegistry.validateFrom.induct with
  | case1 r seen =>
    rw [validateFrom]
    exact .done
  | case2 r seen type rest hin ih =>
    rw [validateFrom_of_seen hin]
    exact .skip (List.contains_iff_mem.mp hin) (ih h)
  | case3 r seen type rest hnew hreg e r' hresolve =>
    rw [validateFrom_of_error hnew hreg hresolve]
    exact .fail (fun hin => hnew (List.contains_iff_mem.mpr hin)) hresolve
  | case4 r seen type rest hnew hreg t r' hresolve seen' ih =>
    rw [validateFrom_of_ok hnew hreg hresolve]
    exact .visit (fun hin => hnew (List.contains_iff_mem.mpr hin)) hresolve
      (ih ((Advances.of_resolve hresolve).coherent h))
  | case5 r seen type rest hnew hunknown =>
    rw [validateFrom_of_unknown hnew hunknown]
    exact .fail (fun hin => hnew (List.contains_iff_mem.mpr hin)) (h.resolve_of_unknown (by simpa using hunknown))

/-! ## What the loop has done -/

/-- The tables of these types are kept, and no other is new. -/
structure Keeps (ts : List TypeName) (r r' : TypeRegistry β) : Prop where
  decls : r'.decls = r.decls
  resolved : ∀ a ∈ ts, ∃ t, (r.resolve a).1 = .ok t
  tables : ∀ a, r'.table? a = if a ∈ ts then (r.resolve a).1.toOption else r.table? a

theorem resolve_of_kept (h : r.table? type = some t) : r.resolve type = (.ok t, r) := by
  rw [TypeRegistry.resolve, h]

theorem table?_after_resolve (hresolve : r.resolve type = (.ok t, r')) (a : TypeName) :
    r'.table? a = if a = type then some t else r.table? a := by
  split
  · next heq => exact heq ▸ table?_of_resolve hresolve
  next hne =>
  unfold TypeRegistry.resolve at hresolve
  split at hresolve
  · cases hresolve
    rfl
  split at hresolve
  · cases hresolve
    rw [table?_keep, if_neg fun heq => hne heq.symm, Option.or_none]
  · cases hresolve

namespace Keeps

variable {ts : List TypeName}

theorem nothing (r : TypeRegistry β) : r.Keeps [] r := ⟨rfl, by simp, by simp⟩

theorem resolve (h : start.Keeps ts r) (a : TypeName) : (r.resolve a).1 = (start.resolve a).1 := by
  have htable := h.tables a
  by_cases ha : a ∈ ts
  · obtain ⟨t, ht⟩ := h.resolved a ha
    rw [if_pos ha, ht] at htable
    rw [ht, resolve_of_kept htable]
  · rw [if_neg ha] at htable
    have hsame : start.SameDecls r := ⟨fun b => by rw [decl?, h.decls, decl?], congrArg List.length h.decls⟩
    rw [TypeRegistry.resolve, htable, hsame.build, TypeRegistry.resolve]
    split
    · rfl
    · split <;> rfl

theorem visit (h : start.Keeps ts r) (hresolve : r.resolve type = (.ok t, r')) :
    start.Keeps (ts ++ [type]) r' := by
  have ht : (start.resolve type).1 = .ok t := by rw [← h.resolve, hresolve]
  constructor
  · rw [← h.decls, ← decls_resolve type r, hresolve]
  · intro a ha
    rcases List.mem_append.mp ha with ha | ha
    · exact h.resolved a ha
    · exact ⟨t, List.mem_singleton.mp ha ▸ ht⟩
  · intro a
    rw [table?_after_resolve hresolve, h.tables a]
    by_cases ha : a = type
    · simp [ha, ht, Except.toOption]
    · simp [ha]

end Keeps

/-- The loop is under way: what it has seen is the beginning of the order, and what is ahead completes
what has been handed out. -/
structure Underway (start : TypeRegistry β) (type : TypeName) (seen queue : List TypeName)
    (r : TypeRegistry β) : Prop where
  keeps : start.Keeps seen r
  order : seen <+: start.breadthFirst type
  ahead : addAll queue seen = addAll (seen.flatMap start.handsOut) [type]

namespace Underway

theorem begins (r : TypeRegistry β) (type : TypeName) : r.Underway type [] [type] r :=
  ⟨.nothing r, List.nil_prefix, rfl⟩

theorem skip (h : start.Underway type seen (a :: rest) r) (hin : a ∈ seen) :
    start.Underway type seen rest r := by
  refine ⟨h.keeps, h.order, ?_⟩
  have hahead : addAll rest (add a seen) = _ := h.ahead
  rwa [add, if_pos hin] at hahead

theorem next (h : start.Underway type seen (a :: rest) r) (hstart : start.Reached) (hnew : a ∉ seen) :
    seen ++ [a] <+: start.breadthFirst type := by
  have hahead : addAll rest (add a seen) = _ := h.ahead
  rw [add, if_neg hnew] at hahead
  obtain ⟨more, hmore⟩ := h.order
  rw [← hstart.breadthFirst_eq type, ← hmore, List.flatMap_append, addAll_append, ← hahead]
  exact (prefix_addAll _ _).trans (prefix_addAll _ _)

theorem visit (h : start.Underway type seen (a :: rest) r) (hstart : start.Reached) (hnew : a ∉ seen)
    (hresolve : r.resolve a = (.ok t, r')) : start.Underway type (seen ++ [a])
      (rest ++ t.dependencies.filter fun d => !(seen ++ [a]).contains d) r' := by
  refine ⟨h.keeps.visit hresolve, h.next hstart hnew, ?_⟩
  have hahead : addAll rest (add a seen) = _ := h.ahead
  rw [add, if_neg hnew] at hahead
  have hhanded : start.handsOut a = t.dependencies :=
    handsOut_of_ok (by rw [← h.keeps.resolve, hresolve])
  have hsubset : ∀ d ∈ seen ++ [a], d ∈ addAll rest (seen ++ [a]) := (prefix_addAll _ _).subset
  rw [addAll_append, addAll_filter hsubset, hahead, List.flatMap_append, addAll_append]
  simp [hhanded]

theorem complete (h : start.Underway type seen [] r) : seen = start.breadthFirst type := by
  have hseen : seen = addAll (seen.flatMap start.handsOut) [type] := h.ahead
  have hrounds : ∀ n, start.within type n <+: seen := by
    intro n
    induction n with
    | zero =>
      rw [hseen]
      exact prefix_addAll _ _
    | succ n ih =>
      obtain ⟨more, hmore⟩ := ih
      rw [within_succ, hseen, ← hmore, List.flatMap_append, addAll_append]
      exact prefix_addAll _ _
  exact h.order.eq_of_length_le (hrounds _).length_le

end Underway

/-- How a validation ends: with all types of the order, or with the first that does not resolve. -/
inductive Ends (r : TypeRegistry β) (order : List TypeName) :
    Except TypeError (List TypeName) × TypeRegistry β → Prop
  | ok {r' : TypeRegistry β} (h : r.Keeps order r') : Ends r order (.ok order, r')
  | error {r' : TypeRegistry β} {e : TypeError} {before after : List TypeName} {a : TypeName}
    (horder : order = before ++ a :: after) (hfails : (r.resolve a).1 = .error e) (h : r.Keeps before r') :
    Ends r order (.error e, r')

theorem Works.ends {out : Except TypeError (List TypeName) × TypeRegistry β} (h : r.Works seen queue out)
    (hstart : start.Reached) (hunder : start.Underway type seen queue r) :
    start.Ends (start.breadthFirst type) out := by
  -- `start` stays what it was before the first step, while the loop goes on with what it has resolved
  induction h with
  | done =>
    have horder := hunder.complete
    rw [← horder]
    exact .ok hunder.keeps
  | skip hin _ ih => exact ih (hunder.skip hin)
  | @fail r r' a seen rest e hnew hresolve =>
    obtain ⟨after, hafter⟩ := hunder.next hstart hnew
    have horder : start.breadthFirst type = seen ++ a :: after := by
      rw [← hafter]
      simp
    have hsame : r' = r := by
      rw [← resolve_of_error (congrArg Prod.fst hresolve), hresolve]
    have hfails : (start.resolve a).1 = .error e := by
      rw [← hunder.keeps.resolve, hresolve]
    exact .error horder hfails (hsame ▸ hunder.keeps)
  | visit hnew hresolve _ ih => exact ih (hunder.visit hstart hnew hresolve)

theorem Reached.ends (h : r.Reached) (type : TypeName) :
    r.Ends (r.breadthFirst type) (r.validateTree type) :=
  (h.coherent.works [] [type]).ends h (.begins r type)

end TypeRegistry

open TypeRegistry

/-- A validation ends. It succeeds if and only if all types resolve that can be reached, and gives them
in the order of the rounds, with all their tables kept. Otherwise the error is that of the first type of
this order that does not resolve, and of those that were not resolved before only the ones that come
before it are resolved now. -/
theorem validation_is_breadth_first {β : Type} {r : TypeRegistry β} (h : r.Reached) (type : TypeName) :
    r.Works [] [type] (r.validateTree type) ∧ r.BreadthFirst type (r.breadthFirst type) ∧
      ((∃ ts, (r.validateTree type).1 = .ok ts) ↔ ∀ a, r.Reaches type a → ∃ t, (r.resolve a).1 = .ok t) ∧
      (∀ ts, (r.validateTree type).1 = .ok ts → ts = r.breadthFirst type ∧
        (∀ a ∈ ts, ∃ t, (r.validateTree type).2.table? a = some t ∧ ∀ d ∈ t.dependencies, d ∈ ts) ∧
        r.Keeps ts (r.validateTree type).2) ∧
      ∀ e, (r.validateTree type).1 = .error e → ∃ before a after,
        r.breadthFirst type = before ++ a :: after ∧ (∀ b ∈ before, ∃ t, (r.resolve b).1 = .ok t) ∧
          (r.resolve a).1 = .error e ∧ r.Keeps before (r.validateTree type).2 := by
  have hbreadth := h.breadthFirst type
  refine ⟨h.coherent.works [] [type], hbreadth, ?_⟩
  generalize hends : r.validateTree type = out
  have hout := h.ends type
  rw [hends] at hout
  cases hout with
  | @ok r' hkeeps =>
    refine ⟨⟨fun _ a ha => hkeeps.resolved a ((hbreadth.exact a).mpr ha), fun _ => ⟨_, rfl⟩⟩, ?_, ?_⟩
    · rintro ts ⟨⟩
      refine ⟨rfl, fun a ha => ?_, hkeeps⟩
      obtain ⟨t, ht⟩ := hkeeps.resolved a ha
      refine ⟨t, ?_, fun d hd => ?_⟩
      · rw [hkeeps.tables, if_pos ha, ht]
        rfl
      · rw [hbreadth.exact] at ha ⊢
        exact ha.tail (by rwa [handsOut_of_ok ht])
    · rintro e ⟨⟩
  | @error r' e before after a horder hfails hkeeps =>
    refine ⟨⟨?_, fun hall => ?_⟩, ?_, ?_⟩
    · rintro ⟨ts, ⟨⟩⟩
    · have ha : r.Reaches type a := (hbreadth.exact a).mp (by rw [horder]; simp)
      obtain ⟨t, ht⟩ := hall a ha
      rw [ht] at hfails
      cases hfails
    · rintro ts ⟨⟩
    · rintro e' ⟨⟩
      exact ⟨before, a, after, horder, hkeeps.resolved, hfails, hkeeps⟩

/-- Ports and ships hand out each other, and both hand out crews, which hand out crews. -/
def port : TypeDecl Unit where
  name := "port"
  methods := [{ name := "launch", returns := .entity "ship", directives := [.newEntity] },
    { name := "hire", returns := .entity "crew", directives := [.newEntity] }]

def ship : TypeDecl Unit where
  name := "ship"
  methods := [{ name := "moor", returns := .entity "port", directives := [.newEntity] },
    { name := "hire", returns := .entity "crew", directives := [.newEntity] }]

def crew : TypeDecl Unit where
  name := "crew"
  methods := [{ name := "recruit", returns := .entity "crew", directives := [.newEntity] }]

/-- No resolver claims what a ghost can do. -/
def ghost : TypeDecl Unit where
  name := "ghost"
  methods := [{ name := "haunt" }]

def ghostShip : TypeDecl Unit where
  name := "ghost ship"
  methods := [{ name := "salvage", returns := .entity "ship", directives := [.newEntity] },
    { name := "summon", returns := .entity "ghost", directives := [.newEntity] }]

def fleet : TypeRegistry Unit where
  decls := [("port", port), ("ship", ship), ("crew", crew), ("ghost", ghost), ("ghost ship", ghostShip)]

theorem fleet_reached : fleet.Reached :=
  .head (.register (d := port) rfl) (.head (.register (d := ship) rfl) (.head (.register (d := crew) rfl)
    (.head (.register (d := ghost) rfl) (.single (.register (d := ghostShip) rfl)))))

theorem ghost_ship_fails_at_the_ghost : fleet.Reached ∧
    (fleet.validateTree "port").1 = .ok ["port", "ship", "crew"] ∧
    fleet.breadthFirst "ghost ship" = ["ghost ship", "ship", "ghost", "port", "crew"] ∧
    (fleet.validateTree "ghost ship").1 = .error (.invalidMethods "ghost" [⟨⟨"haunt", []⟩, .unclaimed⟩]) ∧
    fleet.Keeps ["ghost ship", "ship"] (fleet.validateTree "ghost ship").2 := by
  have hport : fleet.breadthFirst "port" = ["port", "ship", "crew"] := rfl
  have hwreck : fleet.breadthFirst "ghost ship" = ["ghost ship", "ship", "ghost", "port", "crew"] := rfl
  refine ⟨fleet_reached, ?_, hwreck, ?_⟩
  · obtain ⟨-, hbreadth, hok, hlist, -⟩ := validation_is_breadth_first fleet_reached "port"
    have hall : ∀ a, fleet.Reaches "port" a → ∃ t, (fleet.resolve a).1 = .ok t := by
      intro a ha
      rw [← hbreadth.exact, hport] at ha
      simp only [List.mem_cons, List.not_mem_nil, or_false] at ha
      obtain rfl | rfl | rfl := ha <;> exact ⟨_, rfl⟩
    obtain ⟨ts, hts⟩ := hok.mpr hall
    rw [hts, (hlist ts hts).1, hport]
  · obtain ⟨-, hbreadth, hok, -, herror⟩ := validation_is_breadth_first fleet_reached "ghost ship"
    have hghost : (fleet.resolve "ghost").1 =
      .error (.invalidMethods "ghost" [⟨⟨"haunt", []⟩, .unclaimed⟩]) := rfl
    cases hout : (fleet.validateTree "ghost ship").1 with
    | ok ts =>
      obtain ⟨t, ht⟩ := hok.mp ⟨ts, hout⟩ "ghost" ((hbreadth.exact _).mp (by rw [hwreck]; simp))
      cases hghost.symm.trans ht
    | error e =>
      obtain ⟨before, a, after, horder, hbefore, hfails, hkeeps⟩ := herror e hout
      rw [hwreck] at horder
      rcases before with _ | ⟨first, _ | ⟨second, _ | ⟨third, before⟩⟩⟩ <;>
        simp only [List.nil_append, List.cons_append, List.cons.injEq] at horder
      · obtain ⟨rfl, -⟩ := horder
        cases hfails
      · obtain ⟨-, rfl, -⟩ := horder
        cases hfails
      · obtain ⟨rfl, rfl, rfl, -⟩ := horder
        cases hfails.symm.trans hghost
        exact ⟨rfl, hkeeps⟩
      · obtain ⟨-, -, rfl, -⟩ := horder
        obtain ⟨t, ht⟩ := hbefore "ghost" (by simp)
        cases hghost.symm.trans ht

end Vivarium
