import Vivarium.Proofs.Ambiguity

/-! # Why a type does not resolve

A method is sound if no resolver rejects it, one claims it and the types that it hands out are registered.
A type whose ancestors are known resolves if all its methods are sound. If not, all those that are not
sound are listed, each with the first thing that is wrong with it, and nothing is kept.
-/

namespace Vivarium

open TypeRegistry

variable {β : Type}

/-! ## What is wrong with a method -/

namespace Method

variable {m : Method β} {resolver : Resolver} {e : MethodError} {b : Binding β}

def Unrejected (m : Method β) : Prop := ∀ (resolver : Resolver) e, resolver.apply m ≠ .error e

/-- The resolver rejects the method, and none does that is tried before. -/
def FirstRejected (m : Method β) (resolver : Resolver) (e : MethodError) : Prop :=
  resolver.apply m = .error e ∧ ∃ before after, Resolver.all = before ++ resolver :: after ∧
    ∀ r ∈ before, ∀ e', r.apply m ≠ .error e'

/-- The resolvers that claim the method, in the order in which they are tried. -/
def claimants (m : Method β) : List Resolver := Resolver.all.filter fun resolver => (claimOf m resolver).isSome

theorem mem_claimants : resolver ∈ m.claimants ↔ ∃ b, resolver.apply m = .ok (some b) := by
  rw [claimants, List.mem_filter, Option.isSome_iff_exists]
  simp only [Resolver.mem_all, claimOf_eq_some, true_and]
  constructor
  · rintro ⟨p, -, happly⟩
    exact ⟨p.2, happly⟩
  · rintro ⟨b, happly⟩
    exact ⟨(resolver, b), rfl, happly⟩

theorem resolvers_bindings (m : Method β) : (claims m).bindings.map (·.1) = m.claimants := by
  rw [claims_eq, claimants]
  induction Resolver.all with
  | nil => rfl
  | cons r rs ih =>
    simp only at ih ⊢
    rw [List.filterMap_cons, List.filter_cons]
    cases hclaim : claimOf m r with
    | none => simpa using ih
    | some p =>
      obtain ⟨rfl, -⟩ := claimOf_eq_some.mp hclaim
      simpa using ih

theorem bindings_of_claimants (hone : m.claimants = [resolver]) (hb : resolver.apply m = .ok (some b)) :
    (claims m).bindings = [(resolver, b)] := by
  have hresolvers := m.resolvers_bindings
  rw [hone, List.map_eq_singleton_iff] at hresolvers
  obtain ⟨p, hbindings, rfl⟩ := hresolvers
  have hp : p.1.apply m = .ok (some p.2) := mem_bindings.mp (hbindings ▸ List.mem_cons_self)
  rw [hp] at hb
  cases hb
  exact hbindings

theorem firstRejected_iff : m.FirstRejected resolver e ↔ (claims m).rejection = some (resolver, e) := by
  have hrefuses : ∀ r : Resolver, refusalOf m r = some (resolver, e) ↔
      r = resolver ∧ resolver.apply m = .error e := by
    intro r
    unfold refusalOf
    constructor
    · intro h
      split at h
      · next e' happly =>
        cases h
        exact ⟨rfl, happly⟩
      · cases h
    · rintro ⟨rfl, happly⟩
      simp [happly]
  rw [claims_eq, List.findSome?_eq_some_iff]
  simp only [hrefuses, refusalOf_eq_none]
  constructor
  · rintro ⟨happly, before, after, hall, hbefore⟩
    exact ⟨before, resolver, after, hall, ⟨rfl, happly⟩, hbefore⟩
  · rintro ⟨before, _, after, hall, ⟨rfl, happly⟩, hbefore⟩
    exact ⟨happly, before, after, hall, hbefore⟩

end Method

namespace TypeRegistry

variable {r : TypeRegistry β} {m : Method β} {b : Binding β} {kind : ProblemKind} {type : TypeName}
  {k : MethodKey} {ms : List (MethodKey × Method β)}

/-- Nobody rejects the method, one resolver claims it, and what it hands out is registered. -/
structure Sound (m : Method β) (b : Binding β) (r : TypeRegistry β) : Prop where
  unrejected : m.Unrejected
  claimed : ∃ resolver, m.claimants = [resolver] ∧ resolver.apply m = .ok (some b)
  known : ∀ d ∈ b.dependencies, r.isRegistered d = true

/-- What is wrong with a method: a rejection comes before the number of claims, and this before the types
that are missing. -/
inductive Flaw (m : Method β) (r : TypeRegistry β) : ProblemKind → Prop
  | invalid {resolver : Resolver} {e : MethodError} (h : m.FirstRejected resolver e) :
    Flaw m r (.invalid resolver e)
  | unclaimed (hnone : m.Unrejected) (h : m.claimants = []) : Flaw m r .unclaimed
  | ambiguous (hnone : m.Unrejected) (h : 2 ≤ m.claimants.length) : Flaw m r (.ambiguous m.claimants)
  | unknown (hnone : m.Unrejected) {resolver : Resolver} {b : Binding β} (hone : m.claimants = [resolver])
    (hb : resolver.apply m = .ok (some b)) {type : TypeName} {known rest : List TypeName}
    (hfirst : b.dependencies = known ++ type :: rest) (hknown : ∀ d ∈ known, r.isRegistered d = true)
    (hno : r.isRegistered type = false) : Flaw m r (.unknownType type)

theorem Sound.bind (h : r.Sound m b) : r.bind m = .ok b := by
  obtain ⟨resolver, hone, hb⟩ := h.claimed
  exact bind_ok_iff.mpr ⟨⟨rejection_eq_none.mpr h.unrejected, resolver,
    Method.bindings_of_claimants hone hb⟩, h.known⟩

theorem Flaw.bind (h : r.Flaw m kind) : r.bind m = .error kind := by
  unfold TypeRegistry.bind
  cases h with
  | invalid h =>
    rw [Method.firstRejected_iff] at h
    simp only [h]
  | unclaimed hnone h =>
    rw [← m.resolvers_bindings, List.map_eq_nil_iff] at h
    simp only [rejection_eq_none.mpr hnone, h]
  | ambiguous hnone h =>
    rw [← m.resolvers_bindings] at h ⊢
    simp only [rejection_eq_none.mpr hnone]
    match hbindings : (claims m).bindings with
    | [] | [_] => simp [hbindings] at h
    | _ :: _ :: _ => rfl
  | @unknown hnone resolver b hone hb type known rest hfirst hknown hno =>
    have hfind : b.dependencies.find? (fun d => !r.isRegistered d) = some type := by
      rw [List.find?_eq_some_iff_append]
      exact ⟨by simp [hno], known, rest, hfirst, fun d hd => by simp [hknown d hd]⟩
    simp only [rejection_eq_none.mpr hnone, Method.bindings_of_claimants hone hb, hfind]

theorem sound_or_flaw (m : Method β) (r : TypeRegistry β) : (∃ b, r.Sound m b) ∨ ∃ kind, r.Flaw m kind := by
  cases hrejection : (claims m).rejection with
  | some p => exact .inr ⟨_, .invalid (Method.firstRejected_iff.mpr hrejection)⟩
  | none =>
    have hnone : m.Unrejected := rejection_eq_none.mp hrejection
    match hclaimants : m.claimants with
    | [] => exact .inr ⟨_, .unclaimed hnone hclaimants⟩
    | _ :: _ :: _ => exact .inr ⟨_, .ambiguous hnone (by simp [hclaimants])⟩
    | [resolver] =>
      obtain ⟨b, hb⟩ := Method.mem_claimants.mp (hclaimants ▸ List.mem_cons_self : resolver ∈ m.claimants)
      cases hfind : b.dependencies.find? (fun d => !r.isRegistered d) with
      | none =>
        refine .inl ⟨b, hnone, ⟨resolver, hclaimants, hb⟩, fun d hd => ?_⟩
        simpa using List.find?_eq_none.mp hfind d hd
      | some type =>
        obtain ⟨hno, known, rest, hfirst, hknown⟩ := List.find?_eq_some_iff_append.mp hfind
        exact .inr ⟨_, .unknown hnone hclaimants hb hfirst (by simpa using hknown) (by simpa using hno)⟩

theorem sound_iff : r.Sound m b ↔ r.bind m = .ok b := by
  refine ⟨Sound.bind, fun hb => ?_⟩
  rcases sound_or_flaw m r with ⟨b', h⟩ | ⟨kind, h⟩
  · rw [h.bind] at hb
    cases hb
    exact h
  · rw [h.bind] at hb
    cases hb

theorem flaw_iff : r.Flaw m kind ↔ r.bind m = .error kind := by
  refine ⟨Flaw.bind, fun hkind => ?_⟩
  rcases sound_or_flaw m r with ⟨b, h⟩ | ⟨kind', h⟩
  · rw [h.bind] at hkind
    cases hkind
  · rw [h.bind] at hkind
    cases hkind
    exact h

/-! ## The list of what is wrong -/

/-- The methods that are not sound are listed with what is wrong with them, in the order of the methods and
each once. -/
structure Lists (ms : List (MethodKey × Method β)) (problems : List MethodProblem) (r : TypeRegistry β) :
    Prop where
  kinds : ∀ k kind, ⟨k, kind⟩ ∈ problems ↔ ∃ m, (k, m) ∈ ms ∧ r.Flaw m kind
  methods : ∀ k m, (k, m) ∈ ms → (k ∈ problems.map (·.method) ↔ ∀ b, ¬r.Sound m b)
  order : (problems.map (·.method)).Sublist (Entries.keys ms)
  once : (problems.map (·.method)).Nodup

theorem mem_problems_iff (ms : List (MethodKey × Method β)) :
    ⟨k, kind⟩ ∈ (r.bindAll ms).2 ↔ ∃ m, (k, m) ∈ ms ∧ r.bind m = .error kind := by
  constructor
  · intro h
    induction ms with
    | nil => cases h
    | cons p ms ih =>
      obtain ⟨k', m'⟩ := p
      cases hb : r.bind m' with
      | error kind' =>
        rw [bindAll_cons_error hb] at h
        rcases List.mem_cons.mp h with heq | h
        · cases heq
          exact ⟨m', List.mem_cons_self, hb⟩
        · obtain ⟨m, hm, hkind⟩ := ih h
          exact ⟨m, List.mem_cons_of_mem _ hm, hkind⟩
      | ok b =>
        rw [bindAll_cons_ok hb] at h
        obtain ⟨m, hm, hkind⟩ := ih h
        exact ⟨m, List.mem_cons_of_mem _ hm, hkind⟩
  · rintro ⟨m, hm, hkind⟩
    exact mem_problems hm hkind

theorem sublist_bindAll (ms : List (MethodKey × Method β)) :
    ((r.bindAll ms).2.map (·.method)).Sublist (Entries.keys ms) := by
  induction ms with
  | nil => exact .slnil
  | cons p ms ih =>
    obtain ⟨k, m⟩ := p
    cases hb : r.bind m with
    | error kind =>
      rw [bindAll_cons_error hb]
      exact ih.cons_cons k
    | ok b =>
      rw [bindAll_cons_ok hb]
      exact ih.cons k

theorem bindAll_lists (hms : (Entries.keys ms).Nodup) : r.Lists ms (r.bindAll ms).2 where
  kinds k kind := by
    simp only [flaw_iff]
    exact mem_problems_iff ms
  methods k m hm := by
    constructor
    · intro hk b hsound
      obtain ⟨⟨_, kind⟩, hproblem, rfl⟩ := List.mem_map.mp hk
      obtain ⟨m', hm', hkind⟩ := (mem_problems_iff ms).mp hproblem
      have hsame := (Entries.get?_of_mem hms hm').symm.trans (Entries.get?_of_mem hms hm)
      obtain rfl := Option.some.inj hsame
      rw [hsound.bind] at hkind
      cases hkind
    · intro hbad
      obtain ⟨kind, hflaw⟩ := (sound_or_flaw m r).resolve_left fun ⟨b, hb⟩ => hbad b hb
      exact List.mem_map.mpr ⟨_, mem_problems hm hflaw.bind, rfl⟩
  order := sublist_bindAll ms
  once := hms.sublist (sublist_bindAll ms)

theorem allMethods_of_ancestors {as : List TypeName} (has : r.ancestors type = .ok as) :
    ∃ ms, r.allMethods type = .ok ms ∧ (Entries.keys ms).Nodup := by
  have hfounded := (founded_of_ancestors has).1
  obtain ⟨ts, hts⟩ := hfounded.unfolds
  refine ⟨_, hts.allMethods hfounded, ?_⟩
  rw [keys_gather]
  exact Distinct.nodup_addAll .nil

theorem resolve_of_new (h : r.table? type = none) : (r.resolve type).1 = r.build type := by
  rw [resolve, h]
  cases r.build type <;> rfl

theorem build_of_no_ancestors {e : TypeError} (h : r.ancestors type = .error e) : r.build type = .error e := by
  rw [build, h]
  rfl

end TypeRegistry

/-- A type that has not been resolved before resolves if and only if its ancestors are known and all the
methods that are collected for it are sound. Without ancestors, resolving fails as the search for them does;
otherwise it fails if some method is not sound, with the list of all that are not. Whatever it fails with,
the registry is as it was. -/
theorem failed_resolution_lists_all_flaws {β : Type} {r : TypeRegistry β} {type : TypeName}
    (h : r.table? type = none) :
    ((∃ t, (r.resolve type).1 = .ok t) ↔ (∃ as, r.ancestors type = .ok as) ∧
      ∃ ms, r.allMethods type = .ok ms ∧ ∀ p ∈ ms, ∃ b, r.Sound p.2 b) ∧
    (∀ e, r.ancestors type = .error e → (r.resolve type).1 = .error e) ∧
    (∀ as, r.ancestors type = .ok as → ∃ ms, r.allMethods type = .ok ms ∧
      ((∃ p ∈ ms, ∀ b, ¬r.Sound p.2 b) → ∃ problems,
        (r.resolve type).1 = .error (.invalidMethods type problems) ∧ r.Lists ms problems)) ∧
    ∀ e, (r.resolve type).1 = .error e → (r.resolve type).2 = r := by
  refine ⟨?_, fun e he => ?_, fun as has => ?_, fun e => resolve_of_error⟩
  · rw [resolve_of_new h]
    constructor
    · rintro ⟨t, ht⟩
      obtain ⟨as, ms, has, hms, hbound, -⟩ := build_ok_iff.mp ht
      refine ⟨⟨as, has⟩, ms, hms, fun p hp => ?_⟩
      obtain ⟨b, hb⟩ := bindAll_problems_iff.mp hbound p hp
      exact ⟨b, sound_iff.mpr hb⟩
    · rintro ⟨⟨as, has⟩, ms, hms, hsound⟩
      refine ⟨_, build_ok_iff.mpr ⟨as, ms, has, hms, bindAll_problems_iff.mpr fun p hp => ?_, rfl⟩⟩
      obtain ⟨b, hb⟩ := hsound p hp
      exact ⟨b, hb.bind⟩
  · rw [resolve_of_new h, build_of_no_ancestors he]
  · obtain ⟨ms, hms, hkeys⟩ := allMethods_of_ancestors has
    refine ⟨ms, hms, fun ⟨p, hp, hbad⟩ => ⟨_, ?_, bindAll_lists hkeys⟩⟩
    obtain ⟨kind, hflaw⟩ := (sound_or_flaw p.2 r).resolve_left fun ⟨b, hb⟩ => hbad b hb
    rw [resolve_of_new h]
    exact build_of_problem has hms (mem_problems hp hflaw.bind)

/-- A mast that has two bindings of which one is rejected. -/
def getMast : Method Unit := { name := "getMast", directives := [.killEntities, .getAttribute none] }

/-- A wreck inherits the mast; of its own methods only the last is sound. -/
def wreck : TypeDecl Unit where
  name := "wreck"
  parents := ["hull"]
  methods :=
    [{ name := "drift" }, { name := "sink", directives := [.markAsType "deep", .killEntities] },
      { name := "haunt", returns := .entity "ghost", directives := [.newEntity] },
      { name := "clear", directives := [.killEntities] }]

def shipyard : TypeRegistry Unit := { decls := [("hull", ⟨"hull", [], [getMast]⟩), ("wreck", wreck)] }

theorem wreck_has_four_flaws : shipyard.table? "wreck" = none ∧ ∃ ms problems,
    shipyard.allMethods "wreck" = .ok ms ∧ shipyard.Lists ms problems ∧
    shipyard.resolve "wreck" = (.error (.invalidMethods "wreck" problems), shipyard) ∧
    problems = [⟨⟨"getMast", []⟩, .invalid .getAttribute (.returnType .attributeValue .void)⟩,
      ⟨⟨"drift", []⟩, .unclaimed⟩, ⟨⟨"sink", []⟩, .ambiguous [.killEntities, .markAsType]⟩,
      ⟨⟨"haunt", []⟩, .unknownType "ghost"⟩] := by
  have hnew : shipyard.table? "wreck" = none := rfl
  have has : shipyard.ancestors "wreck" = .ok ["hull"] := rfl
  obtain ⟨-, -, hlists, hkeeps⟩ := failed_resolution_lists_all_flaws hnew
  obtain ⟨ms, hms, hfails⟩ := hlists _ has
  have hdrift : (⟨"drift", []⟩, { name := "drift" }) ∈ ms := by
    obtain rfl := Except.ok.inj hms
    exact List.mem_cons_of_mem _ List.mem_cons_self
  have hbad : ∀ b, ¬shipyard.Sound { name := "drift" } b := by
    rintro b ⟨-, ⟨resolver, hone, -⟩, -⟩
    cases hone
  obtain ⟨problems, hresolve, hall⟩ := hfails ⟨_, hdrift, hbad⟩
  refine ⟨hnew, ms, problems, hms, hall, Prod.ext hresolve (hkeeps _ hresolve), ?_⟩
  cases hresolve
  rfl

end Vivarium
