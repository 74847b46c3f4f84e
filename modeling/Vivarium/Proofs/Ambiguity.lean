import Vivarium.Proofs.Signatures

/-! # Methods that are bound twice

A table has one binding for each method. The declaration of the method may have more: a body beside a
directive or directives of two kinds are a problem, which is listed, but of directives of one kind the
first is taken, and the others have no effect.
-/

namespace Vivarium

variable {β : Type}

namespace Method

/-- A body beside a directive, or directives of two kinds. -/
def TwoKinds (m : Method β) : Prop :=
  (m.body.isSome ∧ m.directives ≠ []) ∨
    ∃ d ∈ m.directives, ∃ d' ∈ m.directives, d.resolver ≠ d'.resolver

/-- The body alone, or the first directive. -/
inductive Sole (m : Method β) : Binding β → Prop
  | body {body : β} (hbody : m.body = some body) (hnone : m.directives = []) : Sole m (.defaultMethod body)
  | directive {d : Directive β} {ds : List (Directive β)} {b : Binding β} (hbody : m.body = none)
    (hfirst : m.directives = d :: ds) (hkind : ∀ d' ∈ ds, d'.resolver = d.resolver)
    (hbound : m.bindBy d = .ok b) : Sole m b

end Method

namespace TypeRegistry

variable {r : TypeRegistry β} {type : TypeName} {t : MethodTable β} {m : Method β} {b : Binding β}
  {k : MethodKey} {ms : List (MethodKey × Method β)} {kind : ProblemKind}

theorem binds_iff_sole : Binds m b ↔ m.Sole b := by
  rw [binds_iff]
  constructor
  · rintro (⟨body, hbody, hnone, rfl⟩ | ⟨hbody, d, ds, hfirst, hkind, hbound⟩)
    · exact .body hbody hnone
    · exact .directive hbody hfirst hkind hbound
  · rintro (⟨hbody, hnone⟩ | ⟨hbody, hfirst, hkind, hbound⟩)
    · exact .inl ⟨_, hbody, hnone, rfl⟩
    · exact .inr ⟨hbody, _, _, hfirst, hkind, hbound⟩

/-- Whoever does not reject a method that carries its directive binds it. -/
theorem claims_of_mem {d : Directive β} (h : (claims m).rejection = none) (hd : d ∈ m.directives) :
    ∃ b, (d.resolver, b) ∈ (claims m).bindings := by
  rcases happly : d.resolver.apply m with e | _ | b
  · exact absurd happly (rejection_eq_none.mp h _ e)
  · exact absurd rfl ((Resolver.apply_none_iff (Resolver.directive_ne_default d)).mp happly d hd)
  · exact ⟨b, mem_bindings.mpr happly⟩

theorem two_bindings (h : m.TwoKinds) (hnone : (claims m).rejection = none) :
    ∃ p ∈ (claims m).bindings, ∃ q ∈ (claims m).bindings, p.1 ≠ q.1 := by
  rcases h with ⟨hbody, hds⟩ | ⟨d, hd, d', hd', hne⟩
  · obtain ⟨body, hbody⟩ := Option.isSome_iff_exists.mp hbody
    obtain ⟨d, hd⟩ := List.exists_mem_of_ne_nil _ hds
    obtain ⟨b, hb⟩ := claims_of_mem hnone hd
    have hdefault : (Resolver.defaultMethod, Binding.defaultMethod body) ∈ (claims m).bindings := by
      apply mem_bindings.mpr
      simp [Resolver.apply_default, hbody]
    exact ⟨_, hb, _, hdefault, Resolver.directive_ne_default d⟩
  · obtain ⟨b, hb⟩ := claims_of_mem hnone hd
    obtain ⟨b', hb'⟩ := claims_of_mem hnone hd'
    exact ⟨_, hb, _, hb', hne⟩

/-- Two kinds of bindings are ambiguous, unless one of them is rejected anyway. -/
theorem bind_of_twoKinds (h : m.TwoKinds) :
    (∃ resolver e, r.bind m = .error (.invalid resolver e)) ∨
    ∃ resolvers, 2 ≤ resolvers.length ∧ (∀ d ∈ m.directives, d.resolver ∈ resolvers) ∧
      r.bind m = .error (.ambiguous resolvers) := by
  unfold bind
  rcases hrejection : (claims m).rejection with _ | ⟨resolver, e⟩
  · obtain ⟨p, hp, q, hq, hne⟩ := two_bindings h hrejection
    have hcarried : ∀ d ∈ m.directives, d.resolver ∈ (claims m).bindings.map (·.1) := by
      intro d hd
      obtain ⟨b, hb⟩ := claims_of_mem hrejection hd
      exact List.mem_map_of_mem hb
    -- Two different ones are in the list, so it is neither empty nor has it one element.
    rcases hbindings : (claims m).bindings with _ | ⟨p₁, _ | ⟨p₂, ps⟩⟩
    · simp [hbindings] at hp
    · simp_all
    · refine .inr ⟨_, ?_, hcarried, by simp only [hrejection, hbindings]⟩
      simp [hbindings]
  · exact .inl ⟨resolver, e, by simp only [hrejection]⟩

theorem get?_bindAll (hbound : (r.bindAll ms).2 = []) (hm : Entries.get? k ms = some m) :
    ∃ b, r.bind m = .ok b ∧ Entries.get? k (r.bindAll ms).1 = some b := by
  induction ms with
  | nil => cases hm
  | cons p ms ih =>
    obtain ⟨k', m'⟩ := p
    cases hb : r.bind m' with
    | error kind =>
      rw [bindAll_cons_error hb] at hbound
      cases hbound
    | ok b =>
      rw [bindAll_cons_ok hb] at hbound ⊢
      rw [Entries.get?] at hm ⊢
      split at hm
      · next hk =>
        cases hm
        exact ⟨b, hb, if_pos hk⟩
      · next hk =>
        rw [if_neg hk]
        exact ih hbound hm

theorem mem_problems (hm : (k, m) ∈ ms) (hb : r.bind m = .error kind) :
    ⟨k, kind⟩ ∈ (r.bindAll ms).2 := by
  induction ms with
  | nil => cases hm
  | cons p ms ih =>
    obtain ⟨k', m'⟩ := p
    cases hb' : r.bind m' with
    | error kind' =>
      rw [bindAll_cons_error hb']
      rcases List.mem_cons.mp hm with heq | hm
      · cases heq
        rw [hb] at hb'
        cases hb'
        exact List.mem_cons_self
      · exact List.mem_cons_of_mem _ (ih hm)
    | ok b =>
      rw [bindAll_cons_ok hb']
      rcases List.mem_cons.mp hm with heq | hm
      · cases heq
        rw [hb] at hb'
        cases hb'
      · exact ih hm

theorem build_of_problem {as : List TypeName} (has : r.ancestors type = .ok as)
    (hms : r.allMethods type = .ok ms) {problem : MethodProblem} (hproblem : problem ∈ (r.bindAll ms).2) :
    r.build type = .error (.invalidMethods type (r.bindAll ms).2) := by
  unfold build
  rw [has, hms]
  rcases hbound : r.bindAll ms with ⟨bs, _ | ⟨p, ps⟩⟩
  · simp [hbound] at hproblem
  · simp [Bind.bind, Except.bind, hbound]

end TypeRegistry

open TypeRegistry

/-- A type that resolves binds each of its methods by the body alone or by the first of its directives,
which are then all of one kind. A body beside a directive or directives of two kinds make it fail, and
the method is listed. -/
theorem methods_are_bound_by_one_kind {β : Type} {r : TypeRegistry β} (h : r.Reached) (type : TypeName) :
    (∀ t, (r.resolve type).1 = .ok t → ∃ ms, r.allMethods type = .ok ms ∧
      Entries.keys t.methods = Entries.keys ms ∧
      ∀ k m, Entries.get? k ms = some m → ∃ b, t.get? k = some b ∧ m.Sole b) ∧
    ∀ as ms k m, r.ancestors type = .ok as → r.allMethods type = .ok ms → (k, m) ∈ ms → m.TwoKinds →
      ∃ kind problems, (r.resolve type).1 = .error (.invalidMethods type problems) ∧
        ⟨k, kind⟩ ∈ problems ∧ ((∃ resolver e, kind = .invalid resolver e) ∨
          ∃ resolvers, kind = .ambiguous resolvers ∧ 2 ≤ resolvers.length ∧
            ∀ d ∈ m.directives, d.resolver ∈ resolvers) := by
  rw [h.coherent.resolve]
  constructor
  · intro t ht
    obtain ⟨as, ms, -, hms, hbound, rfl⟩ := build_ok_iff.mp ht
    refine ⟨ms, hms, keys_bindAll ms hbound, fun k m hm => ?_⟩
    obtain ⟨b, hb, hget⟩ := get?_bindAll hbound hm
    exact ⟨b, hget, binds_iff_sole.mp (bind_ok_iff.mp hb).1⟩
  · intro as ms k m has hms hm htwo
    rcases bind_of_twoKinds htwo with ⟨resolver, e, hb⟩ | ⟨resolvers, hlength, hcarried, hb⟩
    · have hproblem := mem_problems hm hb
      exact ⟨_, _, build_of_problem has hms hproblem, hproblem, .inl ⟨resolver, e, rfl⟩⟩
    · have hproblem := mem_problems hm hb
      exact ⟨_, _, build_of_problem has hms hproblem, hproblem, .inr ⟨resolvers, rfl, hlength, hcarried⟩⟩

/-- Turning marks as open and marks as shut. -/
def turn : Method Unit := { name := "turn", directives := [.markAsType "open", .markAsType "shut"] }

/-- Slamming marks as shut and kills all within. -/
def slam : Method Unit := { name := "slam", directives := [.markAsType "shut", .killEntities] }

def gates : TypeRegistry Unit :=
  { decls := [("open", ⟨"open", [], []⟩), ("shut", ⟨"shut", [], []⟩), ("gate", ⟨"gate", [], [turn]⟩),
      ("trap", ⟨"trap", ["gate"], [slam]⟩)] }

theorem gates_reached : gates.Reached :=
  .head (.register (d := ⟨"open", [], []⟩) rfl) (.head (.register (d := ⟨"shut", [], []⟩) rfl)
    (.head (.register (d := ⟨"gate", [], [turn]⟩) rfl)
      (.single (.register (d := ⟨"trap", ["gate"], [slam]⟩) rfl))))

theorem gate_is_bound_and_trap_is_not :
    (∃ t b, (gates.resolve "gate").1 = .ok t ∧ t.get? turn.key = some b ∧ turn.Sole b) ∧
    ∃ problems, (gates.resolve "trap").1 = .error (.invalidMethods "trap" problems) ∧
      problems = [⟨slam.key, .ambiguous [.killEntities, .markAsType]⟩] := by
  constructor
  · obtain ⟨ms, hms, -, hbound⟩ := (methods_are_bound_by_one_kind gates_reached "gate").1 _ rfl
    obtain rfl : [(turn.key, turn)] = ms := Except.ok.inj hms
    obtain ⟨b, hb, hsole⟩ := hbound turn.key turn rfl
    exact ⟨_, b, rfl, hb, hsole⟩
  · have htwo : slam.TwoKinds :=
      .inr ⟨.markAsType "shut", by simp [slam], .killEntities, by simp [slam], by simp [Directive.resolver]⟩
    obtain ⟨kind, problems, hfails, hlisted, -⟩ := (methods_are_bound_by_one_kind gates_reached "trap").2
      ["gate"] [(turn.key, turn), (slam.key, slam)] slam.key slam rfl rfl (by simp) htwo
    refine ⟨problems, hfails, ?_⟩
    have hshown : (gates.resolve "trap").1 =
      .error (.invalidMethods "trap" [⟨slam.key, .ambiguous [.killEntities, .markAsType]⟩]) := rfl
    rw [hshown] at hfails
    cases hfails
    rfl

/-- The gate resolves with a method that has two directives, of which the second is ignored. -/
theorem second_directive_may_be_ignored : gates.Reached ∧ ∃ t, (gates.resolve "gate").1 = .ok t ∧
    gates.allMethods "gate" = .ok [(turn.key, turn)] ∧ turn.directives.length = 2 ∧
    t.methods = [(turn.key, .markAsType "open" false)] := ⟨gates_reached, _, rfl, rfl, rfl, rfl⟩

end Vivarium
