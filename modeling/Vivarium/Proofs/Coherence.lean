import Vivarium.Proofs.Ancestry
import Vivarium.Simulation.Calls

/-! # Tables are never stale

A table is kept for good while the registry goes on to grow. What a type resolves to depends on the
declarations alone and not on their order, and once it resolves, declarations that come later have no
say in it. So it does not show what was resolved before.
-/

namespace Vivarium

namespace Entries

variable {κ α : Type} [DecidableEq κ] {es es' : List (κ × α)}

theorem get?_perm (h : es'.Perm es) (hd : (keys es).Nodup) (k : κ) : get? k es' = get? k es := by
  have hd' : (keys es').Nodup := (h.map _).nodup_iff.mpr hd
  apply Option.ext
  intro a
  constructor
  · intro ha
    exact get?_of_mem hd (h.mem_iff.mp (mem_of_get? ha))
  · intro ha
    exact get?_of_mem hd' (h.mem_iff.mpr (mem_of_get? ha))

end Entries

namespace TypeRegistry

open Relation

variable {β : Type} {r r' r'' : TypeRegistry β} {a type : TypeName} {types ts : List TypeName}
  {t : MethodTable β} {m : Method β} {b : Binding β} {ms : List (MethodKey × Method β)}

/-! ## What binds -/

/-- One resolver binds the method, and none rejects it. -/
def Binds (m : Method β) (b : Binding β) : Prop :=
  (claims m).rejection = none ∧ ∃ resolver, (claims m).bindings = [(resolver, b)]

theorem bind_ok_iff :
    r.bind m = .ok b ↔ Binds m b ∧ ∀ d ∈ b.dependencies, r.isRegistered d = true := by
  unfold bind Binds
  constructor
  · intro h
    simp only at h
    split at h
    · cases h
    · cases h
    · next resolver b' hrejection hbindings =>
      split at h
      · cases h
      · next hfind =>
        cases h
        refine ⟨⟨hrejection, resolver, hbindings⟩, fun d hd => ?_⟩
        simpa using List.find?_eq_none.mp hfind d hd
    · cases h
  · rintro ⟨⟨hrejection, resolver, hbindings⟩, hdependencies⟩
    have hfind : b.dependencies.find? (fun d => !r.isRegistered d) = none := by
      apply List.find?_eq_none.mpr
      intro d hd
      simp [hdependencies d hd]
    simp only [hrejection, hbindings, hfind]

theorem bindAll_problems_iff : (r.bindAll ms).2 = [] ↔ ∀ p ∈ ms, ∃ b, r.bind p.2 = .ok b := by
  induction ms with
  | nil => simp [bindAll]
  | cons p ms ih =>
    obtain ⟨k, m⟩ := p
    rw [List.forall_mem_cons, ← ih]
    cases hb : r.bind m with
    | error kind => simp [bindAll_cons_error hb]
    | ok b => simp [bindAll_cons_ok hb]

theorem build_ok_iff : r.build type = .ok t ↔ ∃ as ms, r.ancestors type = .ok as ∧
    r.allMethods type = .ok ms ∧ (r.bindAll ms).2 = [] ∧ t = ⟨type, as, (r.bindAll ms).1⟩ := by
  unfold build
  cases ha : r.ancestors type with
  | error e => simp [Bind.bind, Except.bind]
  | ok as =>
    cases hms : r.allMethods type with
    | error e => simp [Bind.bind, Except.bind]
    | ok ms =>
      rcases hbound : r.bindAll ms with ⟨bs, _ | ⟨problem, problems⟩⟩
      · simp [Bind.bind, Except.bind, hbound, @eq_comm _ t]
      · simp [Bind.bind, Except.bind, hbound]

/-- Nothing is missing: the type and its ancestors are declared without a cycle, and each method has
its one binding, to types that are declared. -/
structure Complete (type : TypeName) (r : TypeRegistry β) : Prop where
  founded : r.Founded type
  bound : ∀ ms, r.allMethods type = .ok ms → ∀ p ∈ ms, ∃ b, Binds p.2 b ∧
    ∀ d ∈ b.dependencies, r.isRegistered d = true

theorem complete_iff : (∃ t, r.build type = .ok t) ↔ r.Complete type := by
  constructor
  · rintro ⟨t, ht⟩
    obtain ⟨as, ms, has, hms, hbound, -⟩ := build_ok_iff.mp ht
    refine ⟨(founded_of_ancestors has).1, fun ms' hms' p hp => ?_⟩
    obtain rfl : ms = ms' := Except.ok.inj (hms.symm.trans hms')
    obtain ⟨b, hb⟩ := bindAll_problems_iff.mp hbound p hp
    exact ⟨b, bind_ok_iff.mp hb⟩
  · intro h
    obtain ⟨as, has, -⟩ := h.founded.ancestors
    obtain ⟨ts, hts⟩ := h.founded.unfolds
    have hms := hts.allMethods h.founded
    refine ⟨_, build_ok_iff.mpr ⟨as, _, has, hms, ?_, rfl⟩⟩
    apply bindAll_problems_iff.mpr
    intro p hp
    obtain ⟨b, hb⟩ := h.bound _ hms p hp
    exact ⟨b, bind_ok_iff.mpr hb⟩

/-! ## The order of the declarations -/

/-- The same types are declared in the same way. -/
structure SameDecls (r r' : TypeRegistry β) : Prop where
  decl : ∀ type, r'.decl? type = r.decl? type
  length : r'.decls.length = r.decls.length

namespace SameDecls

variable (h : r.SameDecls r')

include h

theorem lookup (type : TypeName) : r'.lookup type = r.lookup type := by
  rw [TypeRegistry.lookup, TypeRegistry.lookup, h.decl]

theorem isRegistered (type : TypeName) : r'.isRegistered type = r.isRegistered type :=
  congrArg Option.isSome (h.decl type)

theorem ancestorsFrom (depth : Nat) (type : TypeName) (path found : List TypeName) :
    r'.ancestorsFrom depth type path found = r.ancestorsFrom depth type path found := by
  induction depth generalizing type path found with
  | zero => rfl
  | succ depth ih => simp only [TypeRegistry.ancestorsFrom, h.lookup, ih]

theorem collectFrom (depth : Nat) (type : TypeName) (c : Collected β) :
    r'.collectFrom depth type c = r.collectFrom depth type c := by
  induction depth generalizing type c with
  | zero => rfl
  | succ depth ih => simp only [TypeRegistry.collectFrom, h.lookup, ih]

theorem bind (m : Method β) : r'.bind m = r.bind m := by
  simp only [TypeRegistry.bind, h.isRegistered]

theorem ancestors (type : TypeName) : r'.ancestors type = r.ancestors type := by
  rw [TypeRegistry.ancestors, h.length, h.ancestorsFrom]
  rfl

theorem build (type : TypeName) : r'.build type = r.build type := by
  have hmethods : r'.allMethods type = r.allMethods type := by
    rw [TypeRegistry.allMethods, h.length, h.collectFrom]
    rfl
  have hbindAll : r'.bindAll = r.bindAll := by
    funext ms
    simp only [bindAll, h.bind]
  rw [TypeRegistry.build, TypeRegistry.build, h.ancestors, hmethods, hbindAll]

end SameDecls

theorem SameDecls.trans {r'' : TypeRegistry β} (h : r.SameDecls r') (h' : r'.SameDecls r'') : r.SameDecls r'' where
  decl type := (h'.decl type).trans (h.decl type)
  length := h'.length.trans h.length

theorem SameDecls.resolve (type : TypeName) (r : TypeRegistry β) : r.SameDecls (r.resolve type).2 where
  decl type' := by rw [decl?, decls_resolve, decl?]
  length := congrArg List.length (decls_resolve type r)

/-! ## Later declarations -/

/-- Whatever is declared stays as it is. -/
def Grows (r r' : TypeRegistry β) : Prop := ∀ type d, r.decl? type = some d → r'.decl? type = some d

namespace Grows

variable (h : r.Grows r')

include h

theorem decl? (hreg : r.isRegistered type = true) : r'.decl? type = r.decl? type := by
  obtain ⟨d, hd⟩ := Option.isSome_iff_exists.mp hreg
  rw [h type d hd]
  exact hd.symm

theorem isRegistered (hreg : r.isRegistered type = true) : r'.isRegistered type = true :=
  (congrArg Option.isSome (h.decl? hreg)).trans hreg

theorem parentsOf (hreg : r.isRegistered type = true) : r'.parentsOf type = r.parentsOf type := by
  rw [TypeRegistry.parentsOf, h.decl? hreg]
  rfl

theorem declared (hreg : r.isRegistered type = true) : r'.declared type = r.declared type := by
  rw [TypeRegistry.declared, h.decl? hreg]
  rfl

theorem isA (hfounded : r.Founded type) : r'.IsA type a ↔ r.IsA type a := by
  constructor
  · intro ha
    induction ha with
    | refl => exact .refl
    | tail _ hp ih =>
      rw [Extends, h.parentsOf (hfounded.registered _ ih)] at hp
      exact ih.tail hp
  · intro ha
    induction ha with
    | refl => exact .refl
    | tail ha hp ih =>
      refine ih.tail ?_
      rw [Extends, h.parentsOf (hfounded.registered _ ha)]
      exact hp

theorem inherits (hfounded : r.Founded type) : r'.Inherits type a ↔ r.Inherits type a := by
  have hparents := h.parentsOf (hfounded.registered type .refl)
  rw [Inherits, Inherits, TransGen.head'_iff, TransGen.head'_iff]
  constructor
  · rintro ⟨p, hp, ha⟩
    rw [Extends, hparents] at hp
    exact ⟨p, hp, (h.isA (hfounded.of_isA (.single hp))).mp ha⟩
  · rintro ⟨p, hp, ha⟩
    refine ⟨p, ?_, (h.isA (hfounded.of_isA (.single hp))).mpr ha⟩
    rw [Extends, hparents]
    exact hp

theorem founded (hfounded : r.Founded type) : r'.Founded type := by
  constructor
  · intro a ha
    exact h.isRegistered (hfounded.registered a ((h.isA hfounded).mp ha))
  · intro a ha hback
    have ha' := (h.isA hfounded).mp ha
    exact hfounded.acyclic a ha' ((h.inherits (hfounded.of_isA ha')).mp hback)

theorem climbs (hclimbs : r.Climbs types ts) (htypes : ∀ t ∈ types, r.Founded t) : r'.Climbs types ts := by
  induction hclimbs with
  | nil => exact .nil
  | cons _ _ ihabove ihrest =>
    obtain ⟨hfounded, htypes⟩ := List.forall_mem_cons.mp htypes
    refine .cons ?_ (ihrest htypes)
    rw [h.parentsOf (hfounded.registered _ .refl)]
    exact ihabove fun p hp => hfounded.of_isA (.single hp)

theorem unfolds (hunfolds : r.Unfolds types ts) (htypes : ∀ t ∈ types, r.Founded t) :
    r'.Unfolds types ts := by
  induction hunfolds with
  | nil => exact .nil
  | cons _ _ ihabove ihrest =>
    obtain ⟨hfounded, htypes⟩ := List.forall_mem_cons.mp htypes
    refine .cons ?_ (ihrest htypes)
    rw [h.parentsOf (hfounded.registered _ .refl)]
    exact ihabove fun p hp => hfounded.of_isA (.single hp)

theorem ancestors (hfounded : r.Founded type) : r'.ancestors type = r.ancestors type := by
  obtain ⟨as, has, hancestry⟩ := hfounded.ancestors
  obtain ⟨as', has', hancestry'⟩ := (h.founded hfounded).ancestors
  obtain ⟨ts, hts, rfl⟩ := hancestry.order
  obtain ⟨ts', hts', rfl⟩ := hancestry'.order
  rw [h.parentsOf (hfounded.registered _ .refl)] at hts'
  have hgrown := h.climbs hts fun p hp => hfounded.of_isA (.single hp)
  rw [has, has', hgrown.unique hts']

theorem allMethods (hfounded : r.Founded type) : r'.allMethods type = r.allMethods type := by
  obtain ⟨ts, hts⟩ := hfounded.unfolds
  have hgrown := h.unfolds hts fun t ht => List.mem_singleton.mp ht ▸ hfounded
  rw [hgrown.allMethods (h.founded hfounded), hts.allMethods hfounded]
  have hdeclared : ∀ t ∈ Distinct.addAll ts [], r'.declared t = r.declared t := by
    intro t ht
    rw [(hts.inheritance hfounded).types] at ht
    exact h.declared (hfounded.registered t ht)
  rw [gather, gather, List.flatMap_congr hdeclared]

theorem bind (hb : r.bind m = .ok b) : r'.bind m = .ok b := by
  obtain ⟨hbinds, hdependencies⟩ := bind_ok_iff.mp hb
  exact bind_ok_iff.mpr ⟨hbinds, fun d hd => h.isRegistered (hdependencies d hd)⟩

theorem bindAll (hbound : ∀ p ∈ ms, ∃ b, r.bind p.2 = .ok b) : r'.bindAll ms = r.bindAll ms := by
  induction ms with
  | nil => rfl
  | cons p ms ih =>
    obtain ⟨k, m⟩ := p
    obtain ⟨⟨b, hb⟩, hrest⟩ := List.forall_mem_cons.mp hbound
    rw [bindAll_cons_ok hb, bindAll_cons_ok (h.bind hb), ih hrest]

/-- A table that was built would be built again. -/
theorem build (ht : r.build type = .ok t) : r'.build type = .ok t := by
  obtain ⟨as, ms, has, hms, hbound, rfl⟩ := build_ok_iff.mp ht
  have hfounded := (founded_of_ancestors has).1
  have hsame := h.bindAll (bindAll_problems_iff.mp hbound)
  refine build_ok_iff.mpr ⟨as, ms, (h.ancestors hfounded).trans has, (h.allMethods hfounded).trans hms, ?_, ?_⟩
  · rw [hsame]
    exact hbound
  · rw [hsame]

end Grows

/-! ## The steps of a validation -/

section

variable {seen rest : List TypeName} {e : TypeError}

theorem validateFrom_of_seen (h : seen.contains type = true) :
    r.validateFrom seen (type :: rest) = r.validateFrom seen rest := by
  rw [validateFrom, dif_pos h]

variable (h : ¬seen.contains type = true)

include h

theorem validateFrom_of_unknown (hreg : ¬r.isRegistered type = true) :
    r.validateFrom seen (type :: rest) = (.error (.unknownType type), r) := by
  rw [validateFrom, dif_neg h, dif_neg hreg]

variable (hreg : r.isRegistered type = true)

include hreg

theorem validateFrom_of_error (hresolve : r.resolve type = (.error e, r')) :
    r.validateFrom seen (type :: rest) = (.error e, r') := by
  rw [validateFrom, dif_neg h, dif_pos hreg]
  split
  · next hr =>
    cases hresolve.symm.trans hr
    rfl
  · next hr => cases hresolve.symm.trans hr

theorem validateFrom_of_ok (hresolve : r.resolve type = (.ok t, r')) :
    r.validateFrom seen (type :: rest) = r'.validateFrom (seen ++ [type])
      (rest ++ t.dependencies.filter fun d => !(seen ++ [type]).contains d) := by
  rw [validateFrom, dif_neg h, dif_pos hreg]
  split
  · next hr => cases hresolve.symm.trans hr
  · next hr =>
    cases hresolve.symm.trans hr
    rfl

end

/-! ## Calls on a registry -/

/-- One call on a registry and what it leaves. A registration that fails leaves the registry as it
is. -/
inductive Serves (r : TypeRegistry β) : TypeRegistry β → Prop
  | register {d : TypeDecl β} {r' : TypeRegistry β} (h : r.register d = .ok r') : Serves r r'
  | resolve (type : TypeName) : Serves r (r.resolve type).2
  | validateTree (type : TypeName) : Serves r (r.validateTree type).2
  | viewAs {μ : Type} {s s' : Simulation β μ} {e : EntityRef} {type : TypeName}
    {answer : Except TypeError Proxy} (hs : s.types = r)
    (h : Simulation.viewAs e type s = .ok (answer, s')) : Serves r s'.types

def Becomes : TypeRegistry β → TypeRegistry β → Prop := ReflTransGen Serves

/-- The registry is what calls have made of an empty one. -/
def Reached (r : TypeRegistry β) : Prop := Becomes {} r

/-- Every declaration has the name of its type, and every type one declaration. -/
structure Orderly (r : TypeRegistry β) : Prop where
  named : ∀ p ∈ r.decls, p.1 = p.2.name
  once : r.registered.Nodup

/-- Every table that is kept is the one that would be built. -/
def Coherent (r : TypeRegistry β) : Prop := ∀ type t, r.table? type = some t → r.build type = .ok t

theorem Grows.declare (d : TypeDecl β) (r : TypeRegistry β) :
    r.Grows { r with decls := r.decls ++ [(d.name, d)] } := by
  intro type d' hd
  have hget : Entries.get? type r.decls = some d' := hd
  change Entries.get? type (r.decls ++ _) = _
  rw [Entries.get?_append, hget]
  rfl

theorem Orderly.declare {d : TypeDecl β} (h : r.Orderly) (hnew : d.name ∉ r.registered) :
    Orderly { r with decls := r.decls ++ [(d.name, d)] } := by
  constructor
  · intro p hp
    rcases List.mem_append.mp hp with hp | hp
    · exact h.named p hp
    · rw [List.mem_singleton.mp hp]
  · change ((r.decls ++ [(d.name, d)]).map _).Nodup
    rw [List.map_append, List.nodup_append]
    refine ⟨h.once, List.pairwise_singleton _ _, fun x hx y hy => ?_⟩
    rw [List.mem_singleton.mp hy]
    rintro rfl
    exact hnew hx

theorem table?_keep (type a : TypeName) (t : MethodTable β) (r : TypeRegistry β) :
    table? a { r with tables := r.tables ++ [(type, t)] } =
      (r.table? a).or (if type = a then some t else none) := Entries.get?_append a _ _

theorem Coherent.keep (h : r.Coherent) (ht : r.build type = .ok t) :
    Coherent { r with tables := r.tables ++ [(type, t)] } := by
  have hsame : r.SameDecls { r with tables := r.tables ++ [(type, t)] } := ⟨fun _ => rfl, rfl⟩
  intro a t' ht'
  rw [table?_keep] at ht'
  rw [hsame.build]
  rcases Option.or_eq_some_iff.mp ht' with hold | ⟨-, hnew⟩
  · exact h a t' hold
  · split at hnew
    · next heq =>
      cases hnew
      exact heq ▸ ht
    · cases hnew

/-- What calls do to a registry. -/
structure Advances (r r' : TypeRegistry β) : Prop where
  grows : r.Grows r'
  tables : ∀ type t, r.table? type = some t → r'.table? type = some t
  orderly : r.Orderly → r'.Orderly
  coherent : r.Coherent → r'.Coherent

namespace Advances

theorem refl (r : TypeRegistry β) : r.Advances r := ⟨fun _ _ h => h, fun _ _ h => h, id, id⟩

theorem trans (h : r.Advances r') (h' : r'.Advances r'') : r.Advances r'' where
  grows type d hd := h'.grows type d (h.grows type d hd)
  tables type t ht := h'.tables type t (h.tables type t ht)
  orderly ho := h'.orderly (h.orderly ho)
  coherent hc := h'.coherent (h.coherent hc)

theorem register {d : TypeDecl β} (h : r.register d = .ok r') : r.Advances r' := by
  unfold TypeRegistry.register at h
  split at h
  · cases h
  next hnew =>
  cases h
  have hgrows := Grows.declare d r
  refine ⟨hgrows, fun _ _ ht => ht, fun ho => ho.declare ?_, fun hc type t ht => hgrows.build (hc type t ht)⟩
  exact fun hmem => hnew (Entries.has_iff_mem.mpr hmem)

theorem resolve (type : TypeName) (r : TypeRegistry β) : r.Advances (r.resolve type).2 := by
  unfold TypeRegistry.resolve
  split
  · exact .refl r
  split
  · next t ht =>
    refine ⟨fun _ _ h => h, fun type' t' ht' => ?_, fun ho => ⟨ho.named, ho.once⟩, fun hc => hc.keep ht⟩
    rw [table?_keep, ht']
    rfl
  · exact .refl r

theorem of_resolve {out : Except TypeError (MethodTable β)} (h : r.resolve type = (out, r')) :
    r.Advances r' := by
  have hstep := Advances.resolve type r
  rwa [h] at hstep

theorem validateFrom (seen queue : List TypeName) (r : TypeRegistry β) :
    r.Advances (r.validateFrom seen queue).2 := by
  induction r, seen, queue using TypeRegistry.validateFrom.induct with
  | case1 r seen =>
    rw [TypeRegistry.validateFrom]
    exact .refl r
  | case2 r seen type rest hin ih =>
    rw [validateFrom_of_seen hin]
    exact ih
  | case3 r seen type rest hnew hreg e r' hresolve =>
    rw [validateFrom_of_error hnew hreg hresolve]
    exact .of_resolve hresolve
  | case4 r seen type rest hnew hreg t r' hresolve _ ih =>
    rw [validateFrom_of_ok hnew hreg hresolve]
    exact (Advances.of_resolve hresolve).trans ih
  | case5 r seen type rest hnew hunknown =>
    rw [validateFrom_of_unknown hnew hunknown]
    exact .refl r

theorem of_serves (h : r.Serves r') : r.Advances r' := by
  cases h with
  | register h => exact .register h
  | resolve type => exact .resolve type r
  | validateTree type => exact .validateFrom [] [type] r
  | viewAs hs h =>
    cases h
    rw [← hs]
    exact .resolve _ _

end Advances

theorem Becomes.advances (h : r.Becomes r') : r.Advances r' := by
  induction h with
  | refl => exact .refl r
  | tail _ hserves ih => exact ih.trans (.of_serves hserves)

theorem Reached.orderly (h : r.Reached) : r.Orderly := h.advances.orderly ⟨by rintro _ ⟨⟩, .nil⟩

theorem Reached.coherent (h : r.Reached) : r.Coherent := h.advances.coherent (by rintro _ _ ⟨⟩)

theorem Reached.becomes (h : r.Reached) (h' : r.Becomes r') : r'.Reached := ReflTransGen.trans h h'

theorem Coherent.resolve (h : r.Coherent) (type : TypeName) : (r.resolve type).1 = r.build type := by
  unfold TypeRegistry.resolve
  split
  · next t ht => exact (h type t ht).symm
  · split
    · next t ht => exact ht.symm
    · next e he => exact he.symm

theorem resolve_of_error {e : TypeError} (h : (r.resolve type).1 = .error e) : (r.resolve type).2 = r := by
  unfold TypeRegistry.resolve at h ⊢
  split at h
  · cases h
  · split at h
    · cases h
    · rfl

/-! ## Registering anew -/

def declarations (r : TypeRegistry β) : List (TypeDecl β) := r.decls.map (·.2)

def registerAll (ds : List (TypeDecl β)) (r : TypeRegistry β) : Except TypeError (TypeRegistry β) :=
  ds.foldlM (fun r d => r.register d) r

theorem registerAll_of_distinct {ds : List (TypeDecl β)} (h : (r.registered ++ ds.map (·.name)).Nodup) :
    registerAll ds r = .ok { r with decls := r.decls ++ ds.map fun d => (d.name, d) } := by
  induction ds generalizing r with
  | nil => simp [registerAll, pure, Except.pure]
  | cons d ds ih =>
    have hnew : ¬Entries.has d.name r.decls = true := by
      intro hhas
      exact (List.nodup_append.mp h).2.2 _ (Entries.has_iff_mem.mp hhas) d.name List.mem_cons_self rfl
    have hone : r.register d = .ok { r with decls := r.decls ++ [(d.name, d)] } := if_neg hnew
    rw [registerAll, List.foldlM_cons, hone]
    change registerAll ds _ = _
    rw [ih]
    · simp
    · rw [registered, Entries.keys, List.map_append, List.append_assoc]
      exact h

theorem Orderly.entries (h : r.Orderly) : r.declarations.map (fun d => (d.name, d)) = r.decls := by
  rw [declarations, List.map_map]
  conv_rhs => rw [← List.map_id r.decls]
  apply List.map_congr_left
  rintro ⟨name, d⟩ hp
  rw [Function.comp_apply, ← h.named _ hp]
  rfl

theorem Reached.registers_anew (h : r.Reached) {ds : List (TypeDecl β)} (hds : ds.Perm r.declarations) :
    ∃ fresh : TypeRegistry β, registerAll ds {} = .ok fresh ∧ fresh.tables = [] ∧ r.SameDecls fresh := by
  have hperm : (ds.map fun d => (d.name, d)).Perm r.decls := by
    have hmapped := hds.map fun d => (d.name, d)
    rwa [h.orderly.entries] at hmapped
  have hkeys : Entries.keys (ds.map fun d => (d.name, d)) = ds.map (·.name) := by
    rw [Entries.keys, List.map_map]
    rfl
  have hdistinct : (ds.map (·.name)).Nodup := by
    rw [← hkeys]
    exact (hperm.map _).nodup_iff.mpr h.orderly.once
  refine ⟨_, registerAll_of_distinct hdistinct, rfl, fun type => ?_, hperm.length_eq⟩
  exact Entries.get?_perm hperm h.orderly.once type

end TypeRegistry

open TypeRegistry

/-- Whatever was registered and resolved in between, a type resolves to what it resolves to in a new
registry with the same declarations in any order. Once it has resolved it goes on to resolve to the same
table, and a failure leaves nothing behind: the type resolves if and only if nothing is missing. -/
theorem resolution_is_as_in_a_new_registry {β : Type} {r : TypeRegistry β} (h : r.Reached)
    (type : TypeName) :
    (∀ ds : List (TypeDecl β), ds.Perm r.declarations → ∃ fresh : TypeRegistry β,
      registerAll ds {} = .ok fresh ∧ fresh.tables = [] ∧ (r.resolve type).1 = (fresh.resolve type).1) ∧
      (∀ t, (r.resolve type).1 = .ok t → ∀ r', r.Becomes r' → (r'.resolve type).1 = .ok t) ∧
      (∀ e, (r.resolve type).1 = .error e → (r.resolve type).2 = r) ∧
      ((∃ t, (r.resolve type).1 = .ok t) ↔ r.Complete type) := by
  rw [h.coherent.resolve]
  refine ⟨?_, ?_, ?_, complete_iff⟩
  · intro ds hds
    obtain ⟨fresh, hfresh, hbare, hsame⟩ := h.registers_anew hds
    have hcoherent : fresh.Coherent := by
      intro type t ht
      rw [table?, hbare] at ht
      cases ht
    refine ⟨fresh, hfresh, hbare, ?_⟩
    rw [hcoherent.resolve, hsame.build]
  · intro t ht r' hr'
    rw [(h.becomes hr').coherent.resolve]
    exact hr'.advances.grows.build ht
  · intro e he
    rw [← h.coherent.resolve] at he
    exact resolve_of_error he

def zombie : TypeDecl Unit where
  name := "zombie"
  parents := ["corpse"]
  methods := [{ name := "rise", directives := [.markAsType "risen"] }]

def corpse : TypeDecl Unit := { name := "corpse" }

def risen : TypeDecl Unit := { name := "risen" }

/-- A type is declared before its parent and before the type that its method marks. -/
def graveyard : TypeRegistry Unit := { decls := [("zombie", zombie)] }

theorem zombie_resolves_in_time : graveyard.Reached ∧
    (graveyard.resolve "zombie").1 = .error (.unknownType "corpse") ∧
    ∃ (r : TypeRegistry Unit) (t : MethodTable Unit), graveyard.Becomes r ∧
      (r.resolve "zombie").1 = .ok t ∧ ∃ fresh : TypeRegistry Unit,
        registerAll [risen, zombie, corpse] {} = .ok fresh ∧ (fresh.resolve "zombie").1 = .ok t := by
  have hreached : graveyard.Reached := .single (.register (d := zombie) rfl)
  have hfails : (graveyard.resolve "zombie").1 = .error (.unknownType "corpse") := rfl
  have hbecomes : graveyard.Becomes
      { decls := [("zombie", zombie), ("corpse", corpse), ("risen", risen)] } :=
    .head (.resolve "zombie") (.head (.register (d := corpse) rfl)
      (.head (.resolve "zombie") (.single (.register (d := risen) rfl))))
  have hperm : ([risen] ++ [zombie, corpse]).Perm ([zombie, corpse] ++ [risen]) := List.perm_append_comm
  obtain ⟨fresh, hfresh, -, hsame⟩ :=
    (resolution_is_as_in_a_new_registry (hreached.becomes hbecomes) "zombie").1 [risen, zombie, corpse] hperm
  refine ⟨hreached, hfails, _, _, hbecomes, rfl, fresh, hfresh, ?_⟩
  rw [← hsame]
  rfl

end Vivarium
