import Vivarium.Proofs.Coherence

/-! # Which signatures bind

A method is bound by its body or by its directives. Of the resolvers, those whose directive it carries
and the one for bodies have a say in it; each of them binds the method or rejects it. So a method binds
if and only if it has a body and no directive, or no body, directives of one kind and the shape that the
first of them asks for.
-/

namespace Vivarium

open TypeRegistry

variable {β : Type}

/-! ## The shapes -/

namespace Method

/-- A name that is not empty is given, or the method's own begins with one of `starts` and goes on in
upper case. -/
def NamesAttribute (m : Method β) (given : Option String) (starts : List String) : Prop :=
  (∃ name, given = some name ∧ name ≠ "") ∨ ∃ start ∈ starts, ∃ c rest,
    m.name = start ++ String.ofList (c :: rest) ∧ LetterCase.isUpper c = true

/-- One identifier to look up: the only parameter, or one that the method is annotated with. -/
def LooksUp (m : Method β) : Prop :=
  m.params = [.id] ∧ m.id = none ∨ m.params = [] ∧ ∃ source, m.id = some source ∧ source ≠ .random

/-- The shape that a directive asks for. -/
def Fits (m : Method β) : Directive β → Prop
  | .getAttribute given => m.params = [] ∧
      (∃ t, m.returns = .value t ∨ m.returns = .optional (.value t)) ∧
      m.NamesAttribute given ["get", "is"]
  | .setAttribute given =>
      (∃ t, m.params = [.value t] ∧
        (m.returns = .void ∨ m.returns = .value t ∨ m.returns = .optional (.value t))) ∧
      m.NamesAttribute given ["set"]
  | .getEntity _ => (∃ t, m.returns = .entity t ∨ m.returns = .optional (.entity t)) ∧ m.LooksUp
  | .getEntities _ => m.params = [] ∧ ∃ t, m.returns = .set (.entity t)
  | .newEntity =>
      (m.params = [] ∨ m.params = [.container] ∨
        (m.params = [.id] ∨ m.params = [.id, .container]) ∧ m.id = none) ∧
      (m.returns = .void ∨ ∃ t, m.returns = .entity t)
  | .killEntity => (m.returns = .void ∨ m.returns = .flag) ∧ m.LooksUp
  | .killEntities => m.params = [] ∧ m.returns = .void
  | .markAsType _ | .unmarkAsType _ => m.params = [] ∧ (m.returns = .void ∨ m.returns = .flag)
  | .scheduleForActor spec => m.params = [] ∧
      (m.returns = .void ∨ m.returns = .task ∨ m.returns = .optional .task) ∧
      0 ≤ spec.delay ∧ 0 ≤ spec.period

/-- What the resolver of the directive makes of the method. -/
def bindBy (m : Method β) : Directive β → Except MethodError (Binding β)
  | .getAttribute given => m.bindGetAttribute given
  | .setAttribute given => m.bindSetAttribute given
  | .getEntity ofType => m.bindGetEntity ofType
  | .getEntities ofType => m.bindGetEntities ofType
  | .newEntity => m.bindNewEntity
  | .killEntity => m.bindKillEntity
  | .killEntities => m.bindKillEntities
  | .markAsType type => m.bindMarking (.markAsType type)
  | .unmarkAsType type => m.bindMarking (.unmarkAsType type)
  | .scheduleForActor spec => m.bindScheduleForActor spec

end Method


/-! ## What the checks let through -/

theorem bind_eq_ok {ε α γ : Type} {x : Except ε α} {f : α → Except ε γ} {c : γ} :
    (x >>= f) = .ok c ↔ ∃ a, x = .ok a ∧ f a = .ok c := by
  cases x <;> simp [Bind.bind, Except.bind]

@[simp] theorem exists_bind_eq_ok {ε α γ : Type} {x : Except ε α} {f : α → Except ε γ} :
    (∃ c, (x >>= f) = .ok c) ↔ ∃ a, x = .ok a ∧ ∃ c, f a = .ok c := by
  cases x <;> simp [Bind.bind, Except.bind]

theorem textAfter?_eq_some {start text rest : List Char} :
    textAfter? start text = some rest ↔ text = start ++ rest := by
  unfold textAfter?
  constructor
  · intro h
    split at h
    · next hstart =>
      obtain ⟨rest', rfl⟩ := List.isPrefixOf_iff_prefix.mp hstart
      simpa using h
    · cases h
  · rintro rfl
    simp

theorem propertyName?_isSome_iff {name : String} {starts : List String} :
    (∃ property, propertyName? name starts = some property) ↔ ∃ start ∈ starts, ∃ c rest,
      name = start ++ String.ofList (c :: rest) ∧ LetterCase.isUpper c = true := by
  unfold propertyName?
  rw [← Option.isSome_iff_exists, List.findSome?_isSome_iff]
  refine exists_congr fun start => and_congr_right fun _ => ?_
  have hname : ∀ rest, textAfter? start.toList name.toList = some rest ↔ name = start ++ String.ofList rest := by
    intro rest
    rw [textAfter?_eq_some, ← String.toList_inj]
    simp
  constructor
  · intro h
    split at h
    · next c rest hrest =>
      split at h
      · next hupper => exact ⟨c, rest, (hname _).mp hrest, hupper⟩
      · cases h
    · cases h
  · rintro ⟨c, rest, hrest, hupper⟩
    simp [(hname _).mpr hrest, hupper]

namespace Method

variable {m : Method β}

theorem rejectBody_ok (h : m.body = none) : m.rejectBody = .ok () := by simp [rejectBody, h]

theorem noParams_ok_iff : (∃ u, m.noParams = .ok u) ↔ m.params = [] := by
  unfold noParams
  split <;> simp_all

theorem returnsFlag_ok_iff : (∃ flag, m.returnsFlag = .ok flag) ↔ m.returns = .void ∨ m.returns = .flag := by
  unfold returnsFlag
  split <;> simp_all

theorem nonNegative_ok_iff {field : ScheduleField} {amount : Int} :
    (∃ n, nonNegative field amount = .ok n) ↔ 0 ≤ amount := by
  unfold nonNegative
  split <;> simp <;> omega

theorem attributeName_ok_iff {given : Option String} {starts : List String} :
    (∃ name, m.attributeName given starts = .ok name) ↔ m.NamesAttribute given starts := by
  unfold attributeName NamesAttribute
  rw [← propertyName?_isSome_iff]
  split
  · cases propertyName? m.name starts <;> simp
  · cases propertyName? m.name starts <;> simp
  · next name hname =>
    simp_all

theorem lookupId_ok_iff : (∃ id, m.lookupId = .ok id) ↔ m.LooksUp := by
  unfold lookupId LooksUp
  split
  · next hparams =>
    rcases m.id with _ | (_ | _ | _) <;> simp [Bind.bind, Except.bind, IdSource.id?, hparams]
  · next hparams =>
    rcases m.id with _ | (_ | _ | _) <;> simp [Bind.bind, Except.bind, hparams]
  · simp_all [Bind.bind, Except.bind]
  · simp_all [Bind.bind, Except.bind]

/-! ## What each resolver lets through -/

theorem bindGetAttribute_ok_iff (h : m.body = none) (given : Option String) :
    (∃ b, m.bindGetAttribute given = .ok b) ↔ m.Fits (.getAttribute given) := by
  simp only [bindGetAttribute, Fits, ← noParams_ok_iff, ← attributeName_ok_iff]
  cases m.returns with
  | optional inner => cases inner <;> simp [rejectBody_ok h, TypeRef.splitOptional]
  | _ => simp [rejectBody_ok h, TypeRef.splitOptional]

theorem bindSetAttribute_ok_iff (h : m.body = none) (given : Option String) :
    (∃ b, m.bindSetAttribute given = .ok b) ↔ m.Fits (.setAttribute given) := by
  simp only [bindSetAttribute, Fits, ← attributeName_ok_iff]
  rcases m.params with _ | ⟨t, _ | ⟨t', ts⟩⟩
  · simp
  · cases t with
    | value type =>
      cases m.returns with
      | value t => by_cases ht : t = type <;> simp [rejectBody_ok h, TypeRef.splitOptional, ht]
      | optional inner =>
        cases inner with
        | value t => by_cases ht : t = type <;> simp [rejectBody_ok h, TypeRef.splitOptional, ht]
        | _ => simp [TypeRef.splitOptional]
      | _ => simp [rejectBody_ok h, TypeRef.splitOptional]
    | _ => simp
  · simp

theorem bindGetEntity_ok_iff (h : m.body = none) (ofType : Bool) :
    (∃ b, m.bindGetEntity ofType = .ok b) ↔ m.Fits (.getEntity ofType) := by
  simp only [bindGetEntity, Fits, ← lookupId_ok_iff]
  cases m.returns with
  | optional inner => cases inner <;> simp [rejectBody_ok h, TypeRef.splitOptional]
  | _ => simp [rejectBody_ok h, TypeRef.splitOptional]

theorem bindGetEntities_ok_iff (h : m.body = none) (ofType : Bool) :
    (∃ b, m.bindGetEntities ofType = .ok b) ↔ m.Fits (.getEntities ofType) := by
  simp only [bindGetEntities, Fits, ← noParams_ok_iff]
  cases m.returns with
  | set inner => cases inner <;> simp [rejectBody_ok h]
  | _ => simp [rejectBody_ok h]

theorem bindNewEntity_ok_iff (h : m.body = none) :
    (∃ b, m.bindNewEntity = .ok b) ↔ m.Fits .newEntity := by
  simp only [bindNewEntity, Fits, exists_bind_eq_ok, rejectBody_ok h]
  constructor
  · rintro ⟨_, -, b, hb⟩
    split at hb <;> next hparams =>
      obtain ⟨_, hcontainer, hb⟩ := bind_eq_ok.mp hb
      cases hcontainer <;> cases hid : m.id <;> rw [hid] at hb
      all_goals
        obtain ⟨_, hsource, hb⟩ := bind_eq_ok.mp hb
        cases hsource <;> split at hb <;> simp_all
  · rintro ⟨hparams | hparams | ⟨hparams | hparams, hid⟩, hreturns | ⟨type, hreturns⟩⟩
    all_goals cases hsource : m.id <;> simp_all

theorem bindKillEntity_ok_iff (h : m.body = none) :
    (∃ b, m.bindKillEntity = .ok b) ↔ m.Fits .killEntity := by
  simp only [bindKillEntity, Fits, ← returnsFlag_ok_iff, ← lookupId_ok_iff]
  simp [rejectBody_ok h]

theorem bindKillEntities_ok_iff (h : m.body = none) :
    (∃ b, m.bindKillEntities = .ok b) ↔ m.Fits .killEntities := by
  simp only [bindKillEntities, Fits, ← noParams_ok_iff]
  split <;> simp_all [rejectBody_ok h]

theorem bindMarking_ok_iff (h : m.body = none) (bind : Bool → Binding β) :
    (∃ b, m.bindMarking bind = .ok b) ↔ m.params = [] ∧ (m.returns = .void ∨ m.returns = .flag) := by
  simp only [bindMarking, ← noParams_ok_iff, ← returnsFlag_ok_iff]
  simp [rejectBody_ok h]

theorem bindScheduleForActor_ok_iff (h : m.body = none) (spec : ScheduleSpec β) :
    (∃ b, m.bindScheduleForActor spec = .ok b) ↔ m.Fits (.scheduleForActor spec) := by
  simp only [bindScheduleForActor, Fits, ← noParams_ok_iff]
  rw [← @nonNegative_ok_iff .delay, ← @nonNegative_ok_iff .period]
  cases m.returns with
  | optional inner => cases inner <;> simp [rejectBody_ok h, TypeRef.splitOptional]
  | _ => simp [rejectBody_ok h, TypeRef.splitOptional]

/-- A method without a body is bound by a directive if and only if it has the shape for it. -/
theorem bindBy_ok_iff (h : m.body = none) (d : Directive β) : (∃ b, m.bindBy d = .ok b) ↔ m.Fits d := by
  cases d with
  | getAttribute given => exact bindGetAttribute_ok_iff h given
  | setAttribute given => exact bindSetAttribute_ok_iff h given
  | getEntity ofType => exact bindGetEntity_ok_iff h ofType
  | getEntities ofType => exact bindGetEntities_ok_iff h ofType
  | newEntity => exact bindNewEntity_ok_iff h
  | killEntity => exact bindKillEntity_ok_iff h
  | killEntities => exact bindKillEntities_ok_iff h
  | markAsType type => exact bindMarking_ok_iff h _
  | unmarkAsType type => exact bindMarking_ok_iff h _
  | scheduleForActor spec => exact bindScheduleForActor_ok_iff h spec

end Method

/-! ## What each resolver binds to -/

/-- The resolver that binds methods to the operation. -/
def Binding.resolver : Binding β → Resolver
  | .getAttribute _ _ => .getAttribute
  | .setAttribute _ _ => .setAttribute
  | .getEntity _ _ _ _ => .getEntity
  | .getEntities _ _ => .getEntities
  | .newEntity _ _ _ => .newEntity
  | .killEntity _ _ => .killEntity
  | .killEntities => .killEntities
  | .markAsType _ _ => .markAsType
  | .unmarkAsType _ _ => .unmarkAsType
  | .scheduleForActor _ _ _ _ => .scheduleForActor
  | .defaultMethod _ => .defaultMethod

/-- What it binds is an operation of the resolver. -/
def Yields (resolver : Resolver) (x : Except MethodError (Binding β)) : Prop :=
  ∀ b, x = .ok b → b.resolver = resolver

namespace Yields

variable {resolver : Resolver} {b : Binding β}

theorem ok (h : b.resolver = resolver) : Yields resolver (.ok b) := by
  rintro _ ⟨⟩
  exact h

theorem error (e : MethodError) : Yields resolver (.error e : Except MethodError (Binding β)) := by
  rintro _ ⟨⟩

theorem bind {α : Type} {x : Except MethodError α} {f : α → Except MethodError (Binding β)}
    (h : ∀ a, Yields resolver (f a)) : Yields resolver (x >>= f) := by
  intro b hb
  obtain ⟨a, -, hb⟩ := bind_eq_ok.mp hb
  exact h a b hb

end Yields

theorem Method.bindBy_yields (m : Method β) (d : Directive β) : Yields d.resolver (m.bindBy d) := by
  cases d with
  | getAttribute given =>
    refine .bind fun _ => .bind fun _ => ?_
    simp only
    split <;> exact .bind fun _ => .bind fun _ => .ok rfl
  | setAttribute given =>
    refine .bind fun _ => ?_
    simp only
    split <;> refine .bind fun _ => ?_ <;> split <;> try split
    all_goals exact .bind fun _ => .bind fun _ => .ok rfl
  | getEntity ofType =>
    refine .bind fun _ => ?_
    simp only
    split <;> exact .bind fun _ => .bind fun _ => .ok rfl
  | getEntities ofType =>
    refine .bind fun _ => .bind fun _ => ?_
    split
    · exact .ok rfl
    · exact .error _
  | newEntity =>
    refine .bind fun _ => ?_
    simp only
    split <;> refine .bind fun _ => ?_ <;> split <;> refine .bind fun _ => ?_ <;> split
    all_goals first | exact .ok rfl | exact .error _
  | killEntity => exact .bind fun _ => .bind fun _ => .bind fun _ => .ok rfl
  | killEntities =>
    refine .bind fun _ => .bind fun _ => ?_
    split
    · exact .ok rfl
    · exact .error _
  | markAsType | unmarkAsType => exact .bind fun _ => .bind fun _ => .bind fun _ => .ok rfl
  | scheduleForActor spec =>
    refine .bind fun _ => .bind fun _ => ?_
    simp only
    split <;> exact .bind fun _ => .bind fun _ => .bind fun _ => .ok rfl

/-! ## Which resolvers have a say -/

namespace Resolver

variable {m : Method β} {b : Binding β} {d : Directive β} {resolver : Resolver}

theorem mem_all (resolver : Resolver) : resolver ∈ all := by cases resolver <;> decide

theorem nodup_all : all.Nodup := by decide

theorem directive_ne_default (d : Directive β) : d.resolver ≠ .defaultMethod := by
  cases d <;> simp [Directive.resolver]

/-- A directive of a resolver's own kind is what it selects, and is all that it selects. -/
theorem withDirective_eq {α : Type} {select : Directive β → Option α}
    {bind : α → Except MethodError (Binding β)}
    (hself : ∀ d, d.resolver = resolver → ∃ a, select d = some a ∧ bind a = m.bindBy d)
    (hother : ∀ d, d.resolver ≠ resolver → select d = none) :
    withDirective m select bind = match m.directives.find? (·.resolver = resolver) with
      | none => .ok none
      | some d => some <$> m.bindBy d := by
  unfold withDirective
  induction m.directives with
  | nil => rfl
  | cons d ds ih =>
    rw [List.findSome?_cons, List.find?_cons]
    by_cases hd : d.resolver = resolver
    · obtain ⟨a, ha, hbind⟩ := hself d hd
      simp [hd, ha, hbind]
    · simpa [hd, hother d hd] using ih

theorem apply_eq (m : Method β) (h : resolver ≠ .defaultMethod) :
    resolver.apply m = match m.directives.find? (·.resolver = resolver) with
      | none => .ok none
      | some d => some <$> m.bindBy d := by
  cases resolver with
  | defaultMethod => exact absurd rfl h
  | _ =>
    apply withDirective_eq
    · intro d hd
      cases d <;> first | exact ⟨_, rfl, rfl⟩ | cases hd
    · intro d hd
      cases d <;> first | rfl | exact absurd rfl hd

theorem apply_default (m : Method β) : apply m .defaultMethod = .ok (m.body.map .defaultMethod) := rfl

/-- A resolver leaves a method alone only if the method does not carry its directive. -/
theorem apply_none_iff (h : resolver ≠ .defaultMethod) :
    resolver.apply m = .ok none ↔ ∀ d ∈ m.directives, d.resolver ≠ resolver := by
  rw [apply_eq m h]
  cases hfind : m.directives.find? (·.resolver = resolver) with
  | none => simpa using hfind
  | some d =>
    have hd : d.resolver = resolver := by simpa using List.find?_some hfind
    constructor
    · intro hnone
      cases hb : m.bindBy d <;> simp [hb] at hnone
    · intro hall
      exact absurd hd (hall d (List.mem_of_find?_eq_some hfind))

end Resolver

namespace TypeRegistry

variable {m : Method β} {b : Binding β} {resolver : Resolver}

def claimOf (m : Method β) (resolver : Resolver) : Option (Resolver × Binding β) :=
  match resolver.apply m with
  | .ok (some b) => some (resolver, b)
  | _ => none

def refusalOf (m : Method β) (resolver : Resolver) : Option (Resolver × MethodError) :=
  match resolver.apply m with
  | .error e => some (resolver, e)
  | _ => none

theorem claimOf_eq_some {p : Resolver × Binding β} :
    claimOf m resolver = some p ↔ p.1 = resolver ∧ resolver.apply m = .ok (some p.2) := by
  unfold claimOf
  constructor
  · intro h
    split at h
    · next b happly =>
      cases h
      exact ⟨rfl, happly⟩
    · cases h
  · rintro ⟨rfl, happly⟩
    simp [happly]

theorem refusalOf_eq_none : refusalOf m resolver = none ↔ ∀ e, resolver.apply m ≠ .error e := by
  unfold refusalOf
  split <;> simp_all

theorem foldl_claims {f : Claims β → Resolver → Claims β} (hf : ∀ c resolver, f c resolver =
      ⟨c.bindings ++ (claimOf m resolver).toList, c.rejection <|> refusalOf m resolver⟩)
    (rs : List Resolver) (c : Claims β) : rs.foldl f c =
      ⟨c.bindings ++ rs.filterMap (claimOf m), c.rejection <|> rs.findSome? (refusalOf m)⟩ := by
  induction rs generalizing c with
  | nil => simp
  | cons r rs ih =>
    rw [List.foldl_cons, ih, hf, List.filterMap_cons, List.findSome?_cons]
    cases claimOf m r <;> cases refusalOf m r <;> cases c.rejection <;> simp

theorem claims_eq (m : Method β) :
    claims m = ⟨Resolver.all.filterMap (claimOf m), Resolver.all.findSome? (refusalOf m)⟩ := by
  rw [claims, foldl_claims (m := m)]
  · simp
  · intro c resolver
    rcases happly : resolver.apply m with e | _ | b <;> simp [claimOf, refusalOf, happly]

theorem mem_bindings {p : Resolver × Binding β} :
    p ∈ (claims m).bindings ↔ p.1.apply m = .ok (some p.2) := by
  rw [claims_eq]
  simp [claimOf_eq_some, Resolver.mem_all]

theorem nodup_bindings (m : Method β) : (claims m).bindings.Nodup := by
  rw [claims_eq]
  apply List.Pairwise.filterMap _ _ Resolver.nodup_all
  rintro r r' hne p hp p' hp' rfl
  exact hne ((claimOf_eq_some.mp hp).1.symm.trans (claimOf_eq_some.mp hp').1)

theorem rejection_eq_none : (claims m).rejection = none ↔ ∀ r e, Resolver.apply m r ≠ .error e := by
  rw [claims_eq]
  simp [refusalOf_eq_none, Resolver.mem_all]

/-- One resolver binds the method and all others leave it alone. -/
theorem binds_iff_apply : Binds m b ↔ ∃ resolver : Resolver, resolver.apply m = .ok (some b) ∧
    ∀ r : Resolver, r ≠ resolver → r.apply m = .ok none := by
  constructor
  · rintro ⟨hrejection, resolver, hbindings⟩
    have hself : (resolver, b) ∈ (claims m).bindings := by simp [hbindings]
    refine ⟨resolver, mem_bindings.mp hself, fun r hr => ?_⟩
    rcases happly : r.apply m with e | _ | b'
    · exact absurd happly (rejection_eq_none.mp hrejection r e)
    · rfl
    · have hmem : (r, b') ∈ (claims m).bindings := mem_bindings.mpr happly
      rw [hbindings, List.mem_singleton] at hmem
      exact absurd (congrArg Prod.fst hmem) hr
  · rintro ⟨resolver, happly, hothers⟩
    constructor
    · apply rejection_eq_none.mpr
      intro r e
      by_cases hr : r = resolver
      · simp [hr, happly]
      · simp [hothers r hr]
    · -- The list of what is bound is known by its members, since nobody binds twice.
      refine ⟨resolver, List.perm_singleton.mp ?_⟩
      apply (List.perm_ext_iff_of_nodup (nodup_bindings m) (List.pairwise_singleton _ _)).mpr
      rintro ⟨r, b'⟩
      rw [mem_bindings, List.mem_singleton, Prod.ext_iff]
      by_cases hr : r = resolver
      · simp [hr, happly, eq_comm]
      · simp [hr, hothers r hr]

/-- The body binds a method without directives. A method without a body is bound by the first of its
directives, if they are all of one kind. -/
theorem binds_iff : Binds m b ↔
    (∃ body, m.body = some body ∧ m.directives = [] ∧ b = .defaultMethod body) ∨
    (m.body = none ∧ ∃ d ds, m.directives = d :: ds ∧ (∀ d' ∈ ds, d'.resolver = d.resolver) ∧
      m.bindBy d = .ok b) := by
  rw [binds_iff_apply]
  constructor
  · rintro ⟨resolver, happly, hothers⟩
    -- A directive of another kind would give its own resolver something to say.
    have hkind : ∀ d ∈ m.directives, d.resolver = resolver := by
      intro d hd
      by_contra hne
      exact (Resolver.apply_none_iff (Resolver.directive_ne_default d)).mp (hothers _ hne) d hd rfl
    by_cases hdefault : resolver = .defaultMethod
    · subst hdefault
      left
      rw [Resolver.apply_default] at happly
      obtain ⟨body, hbody, hb⟩ := Option.map_eq_some_iff.mp (Except.ok.inj happly)
      refine ⟨body, hbody, List.eq_nil_iff_forall_not_mem.mpr fun d hd => ?_, hb.symm⟩
      exact Resolver.directive_ne_default d (hkind d hd)
    · right
      have hbody : m.body = none := by
        simpa [Resolver.apply_default] using hothers .defaultMethod (Ne.symm hdefault)
      refine ⟨hbody, ?_⟩
      rw [Resolver.apply_eq m hdefault] at happly
      cases hds : m.directives with
      | nil => simp [hds] at happly
      | cons d ds =>
        rw [hds] at happly hkind
        have hd := hkind d (by simp)
        refine ⟨d, ds, rfl, fun d' hd' => (hkind d' (by simp [hd'])).trans hd.symm, ?_⟩
        cases hb : m.bindBy d <;> simp_all
  · rintro (⟨body, hbody, hds, rfl⟩ | ⟨hbody, d, ds, hds, hkind, hb⟩)
    · refine ⟨.defaultMethod, by simp [Resolver.apply_default, hbody], fun r hr => ?_⟩
      exact (Resolver.apply_none_iff hr).mpr (by simp [hds])
    · have hd := Resolver.directive_ne_default d
      refine ⟨d.resolver, by simp [Resolver.apply_eq m hd, hds, hb], fun r hr => ?_⟩
      by_cases hdefault : r = .defaultMethod
      · simp [hdefault, Resolver.apply_default, hbody]
      · apply (Resolver.apply_none_iff hdefault).mpr
        rw [hds]
        intro d' hd'
        rcases List.mem_cons.mp hd' with rfl | hd'
        · exact Ne.symm hr
        · exact fun h => hr (h.symm.trans (hkind d' hd'))

end TypeRegistry

open TypeRegistry

/-- A method with at most one directive is bound, by one resolver and with no objection from another,
if and only if it has a body and no directive, or no body and the shape that its directive asks for. -/
theorem binds_iff_signature_fits {β : Type} (name : String) (params : List TypeRef) (returns : TypeRef)
    (directive : Option (Directive β)) (id : Option IdSource) (body : Option β) :
    let m : Method β := { name, params, returns, directives := directive.toList, id, body }
    (∃ b, Binds m b) ↔ body.isSome ∧ directive = none ∨
      body = none ∧ ∃ d, directive = some d ∧ m.Fits d := by
  intro m
  simp only [binds_iff]
  constructor
  · rintro ⟨b, ⟨body', hbody, hds, -⟩ | ⟨hbody, d, ds, hds, -, hb⟩⟩
    · exact .inl ⟨Option.isSome_iff_exists.mpr ⟨body', hbody⟩, by simpa [m] using hds⟩
    · cases directive with
      | none => cases hds
      | some _ =>
        cases hds
        exact .inr ⟨hbody, d, rfl, (Method.bindBy_ok_iff hbody d).mp ⟨b, hb⟩⟩
  · rintro (⟨hbody, rfl⟩ | ⟨hbody, d, rfl, hfits⟩)
    · obtain ⟨body', hbody⟩ := Option.isSome_iff_exists.mp hbody
      exact ⟨_, .inl ⟨body', hbody, rfl, rfl⟩⟩
    · obtain ⟨b, hb⟩ := (Method.bindBy_ok_iff hbody d).mpr hfits
      exact ⟨b, .inr ⟨hbody, d, [], rfl, by simp, hb⟩⟩

end Vivarium
