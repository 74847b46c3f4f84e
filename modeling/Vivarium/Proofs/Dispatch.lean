import Vivarium.Proofs.Newcomers

/-! # Arguments are checked once

A call goes to the first method of its name whose parameters the arguments fit. What the parameters of a
bound method admit is what its operation takes, and the attributes of a set are of the types of their
keys. So an operation that a call has been dispatched to never finds fault with the arguments.
-/

namespace Vivarium

variable {β : Type}

/-! ## Where identifiers come from -/

/-- What a method looks up. -/
def Binding.lookedUp? : Binding β → Option RequestedId
  | .getEntity _ _ _ id => some id
  | .killEntity id _ => some id
  | _ => none

namespace Method

variable {m : Method β} {b : Binding β} {id : RequestedId}

theorem lookupId_eq (h : m.lookupId = .ok id) :
    id = .param 0 ∧ m.params = [.id] ∨ ∃ i, id = .fixed i := by
  unfold lookupId at h
  split at h
  · obtain ⟨_, hparam, h⟩ := bind_eq_ok.mp h
    cases hparam
    cases hid : m.id with
    | none =>
      rw [hid] at h
      cases h
    | some source =>
      rw [hid] at h
      simp only at h
      split at h <;> cases h
      exact Or.inr ⟨_, rfl⟩
  · next hparams =>
    obtain ⟨_, hparam, h⟩ := bind_eq_ok.mp h
    cases hparam
    cases hid : m.id with
    | none =>
      rw [hid] at h
      cases h
      exact Or.inl ⟨rfl, hparams⟩
    | some source =>
      rw [hid] at h
      cases h
  · cases h
  · cases h

theorem bindGetEntity_lookup {type : TypeName} {optional ofType ofType' : Bool}
    (h : m.bindGetEntity ofType = .ok (.getEntity type optional ofType' id)) : m.lookupId = .ok id := by
  obtain ⟨_, -, h⟩ := bind_eq_ok.mp h
  simp only at h
  split at h <;>
    obtain ⟨_, -, h⟩ := bind_eq_ok.mp h <;>
    obtain ⟨_, hid, h⟩ := bind_eq_ok.mp h <;>
    cases h <;> exact hid

theorem bindKillEntity_lookup {flag : Bool} (h : m.bindKillEntity = .ok (.killEntity id flag)) :
    m.lookupId = .ok id := by
  obtain ⟨_, -, h⟩ := bind_eq_ok.mp h
  obtain ⟨_, -, h⟩ := bind_eq_ok.mp h
  obtain ⟨_, hid, h⟩ := bind_eq_ok.mp h
  cases h
  exact hid

theorem Sole.lookup (h : m.Sole b) (hid : b.lookedUp? = some id) : m.lookupId = .ok id := by
  cases h with
  | body => cases hid
  | @directive d _ _ _ _ _ hbound =>
    have hkind := m.bindBy_yields d _ hbound
    cases b with
    | getEntity type optional ofType id =>
      cases hid
      cases d with
      | getEntity => exact bindGetEntity_lookup hbound
      | _ => cases hkind
    | killEntity id flag =>
      cases hid
      cases d with
      | killEntity => exact bindKillEntity_lookup hbound
      | _ => cases hkind
    | _ => cases hid

end Method

/-! ## The choice of a method -/

/-- The first entry of the table that has the name and whose parameters the arguments fit. -/
def MethodTable.FirstFitting (t : MethodTable β) (name : String) (args : List Arg) (b : Binding β) : Prop :=
  ∃ before k after, t.methods = before ++ (k, b) :: after ∧
    (k.name = name ∧ Simulation.argsFit args k.params = true) ∧
    ∀ m ∈ before, m.1.name = name → Simulation.argsFit args m.1.params = false

/-- The error says that the call does not fit: no method, no parameters, or a value of another type. -/
def CallError.BlamesCall : CallError → Prop
  | .noSuchMethod _ _ => True
  | .argumentMismatch _ _ => True
  | .entity (.typeMismatch _ _ _) => True
  | _ => False

namespace Simulation

variable {t : MethodTable β} {name : String} {args : List Arg} {b : Binding β}

/-- The entry that a call goes to, if there is one. -/
def target? (t : MethodTable β) (name : String) (args : List Arg) : Option (MethodKey × Binding β) :=
  t.methods.find? fun m => m.1.name = name ∧ argsFit args m.1.params = true

theorem select_eq (t : MethodTable β) (name : String) (args : List Arg) : select t name args =
    match target? t name args with
    | some (_, b) => .ok b
    | none => .error (if ∃ m ∈ t.methods, m.1.name = name then .argumentMismatch t.type name
      else .noSuchMethod t.type name) := by
  -- one search for the name and for the parameters
  have htarget : (t.methods.filter (·.1.name == name)).find? (fun m => argsFit args m.1.params) =
      target? t name args := by
    rw [target?, List.find?_filter]
    congr 1
    funext m
    simp
  have hnamed : (t.methods.filter (·.1.name == name)).isEmpty = !decide (∃ m ∈ t.methods, m.1.name = name) := by
    rw [Bool.eq_iff_iff]
    simp [List.isEmpty_iff, List.filter_eq_nil_iff]
  unfold select
  simp only [htarget, hnamed]
  cases target? t name args with
  | some found => rfl
  | none => by_cases h : ∃ m ∈ t.methods, m.1.name = name <;> simp [h]

theorem target?_eq_none : target? t name args = none ↔
    ∀ m ∈ t.methods, m.1.name = name → argsFit args m.1.params = false := by
  simp [target?]

theorem select_ok_iff : select t name args = .ok b ↔ t.FirstFitting name args b := by
  have hfound : ∀ k, target? t name args = some (k, b) ↔ (k.name = name ∧ argsFit args k.params = true) ∧
      ∃ before after, t.methods = before ++ (k, b) :: after ∧
        ∀ m ∈ before, m.1.name = name → argsFit args m.1.params = false := by
    intro k
    simp only [target?, List.find?_eq_some_iff_append, decide_eq_true_eq, Bool.not_eq_true',
      decide_eq_false_iff_not, not_and, Bool.not_eq_true]
  rw [select_eq]
  constructor
  · intro h
    cases hentry : target? t name args with
    | none =>
      rw [hentry] at h
      cases h
    | some found =>
      rw [hentry] at h
      cases h
      obtain ⟨hk, before, after, hmethods, hbefore⟩ := (hfound found.1).mp hentry
      exact ⟨before, found.1, after, hmethods, hk, hbefore⟩
  · rintro ⟨before, k, after, hmethods, hk, hbefore⟩
    rw [(hfound k).mpr ⟨hk, before, after, hmethods, hbefore⟩]

/-- Without such an entry the error says whether there is one of the name at all. -/
theorem select_error_iff {error : CallError} : select t name args = .error error ↔
    (∀ m ∈ t.methods, m.1.name = name → argsFit args m.1.params = false) ∧
      error = if ∃ m ∈ t.methods, m.1.name = name then .argumentMismatch t.type name
        else .noSuchMethod t.type name := by
  rw [select_eq, ← target?_eq_none]
  cases hentry : target? t name args with
  | none => simp [eq_comm]
  | some found => simp

theorem select_noSuchMethod_iff : select t name args = .error (.noSuchMethod t.type name) ↔
    ∀ m ∈ t.methods, m.1.name ≠ name := by
  rw [select_error_iff]
  split
  · next hnamed => simpa using hnamed
  · next hnone =>
    simp only [not_exists, not_and] at hnone
    exact ⟨fun _ => hnone, fun _ => ⟨fun m hm hname => absurd hname (hnone m hm), rfl⟩⟩

theorem select_argumentMismatch_iff : select t name args = .error (.argumentMismatch t.type name) ↔
    (∃ m ∈ t.methods, m.1.name = name) ∧
      ∀ m ∈ t.methods, m.1.name = name → argsFit args m.1.params = false := by
  rw [select_error_iff]
  split
  · next hnamed => simp [hnamed]
  · next hnone => simp [hnone]

/-! ## What operations find fault with -/

/-- If the answer is an error, it has nothing to do with the arguments. -/
def Blameless : Except CallError Return → Prop
  | .ok _ => True
  | .error error => ¬error.BlamesCall

/-- A creation that does not find a value of another type. -/
def Admissible (created : Except EntityError EntityRef) : Prop :=
  ∀ name expected got, created ≠ .error (.typeMismatch name expected got)

/-- Wherever the operation ends, something is said of what it gives. -/
def Tells {μ α : Type} (act : Act β μ α) (what : α → Prop) : Prop := ∀ s a s', act s = .ok (a, s') → what a

section

variable {μ α γ : Type} {run : Run β μ} {s s' : Simulation β μ} {depth : Nat} {p : Proxy}

namespace Tells

variable {act : Act β μ α} {what : α → Prop}

theorem pure {a : α} (ha : what a) : Tells (Pure.pure a : Act β μ α) what := by
  intro s a' s' hact
  cases hact
  exact ha

theorem after {next : α → Act β μ γ} {what : γ → Prop} (hn : ∀ a, Tells (next a) what) :
    Tells (act >>= next) what := by
  intro s c s' hact
  obtain ⟨a, s₁, -, hnext⟩ := bind_ok hact
  exact hn a s₁ c s' hnext

theorem bind {next : α → Act β μ γ} {what' : γ → Prop} (h : Tells act what)
    (hn : ∀ a, what a → Tells (next a) what') : Tells (act >>= next) what' := by
  intro s c s' hact
  obtain ⟨a, s₁, hact, hnext⟩ := bind_ok hact
  exact hn a (h s a s₁ hact) s₁ c s' hnext

/-! ### Setters -/

theorem setAttribute {holder : Holder} {key : AttributeKey} {v : Value} (hv : v.type = key.type) :
    Tells (Simulation.setAttribute run holder key v) fun answer => ∃ previous, answer = .ok previous := by
  intro s answer s' hact
  rw [setAttribute_eq hv] at hact
  obtain ⟨_, _, -, hdone⟩ := bind_ok hact
  cases hdone
  exact ⟨_, rfl⟩

theorem callSetAttribute {key : AttributeKey} {given : Option Value} (hgiven : ∀ v ∈ given, v.type = key.type)
    (returnsPrevious : Bool) :
    Tells (Simulation.callSetAttribute run p key returnsPrevious [.value given]) Blameless := by
  cases given with
  | none => exact .after fun _ => .pure trivial
  | some v =>
    refine .bind (.setAttribute (hgiven v rfl)) ?_
    rintro _ ⟨previous, rfl⟩
    exact .pure trivial

/-! ### Views -/

theorem callGetEntity (type : TypeName) (ofType : Bool) (id : EntityId) :
    Tells (Simulation.callGetEntity p type ofType id : Act β μ _) Blameless := by
  refine .after fun found => ?_
  cases found with
  | none => exact .pure trivial
  | some e =>
    refine .after fun seen => ?_
    cases seen with
    | ok q => exact .pure trivial
    | error error => exact .pure not_false

theorem callGetEntities (type : TypeName) (ofType : Bool) :
    Tells (Simulation.callGetEntities p type ofType : Act β μ _) Blameless := by
  refine .after fun _ => .after fun seen => ?_
  cases seen with
  | ok qs => exact .pure trivial
  | error error => exact .pure not_false

/-! ### Creation -/

theorem insert (container : EntityRef) (values : List (AttributeKey × Value)) (id : EntityId) :
    Tells (createEntity.insert run container values id) Admissible :=
  .after fun _ => .after fun _ => .pure (by rintro _ _ _ ⟨⟩)

theorem enter {values : List (AttributeKey × Value)} (hvalues : ∀ v ∈ values, v.2.type = v.1.type)
    (container : EntityRef) (f : Forest β) (id : EntityId) :
    Tells (Simulation.enter run container values f id) Admissible := by
  rw [enter_of_typed (mismatch?_eq_none.mpr hvalues)]
  split
  · exact .pure (by rintro _ _ _ ⟨⟩)
  split
  · split
    · exact .pure (by rintro _ _ _ ⟨⟩)
    · exact .insert container values id
  · exact .insert container values id

theorem createEntity {values : List (AttributeKey × Value)} (hvalues : ∀ v ∈ values, v.2.type = v.1.type)
    (container : EntityRef) (id : Option EntityId) :
    Tells (Simulation.createEntity run container id values) Admissible := by
  intro s created s' hact
  cases hlive : s.forest.isAlive container with
  | false =>
    rw [createEntity_of_dead hlive] at hact
    cases hact
    rintro _ _ _ ⟨⟩
  | true =>
    rw [createEntity_of_alive hlive] at hact
    cases id <;> exact enter hvalues container _ _ _ _ _ hact

theorem finishCreation (e : EntityRef) (type : TypeName) :
    Tells (Simulation.finishCreation run depth p e type) Blameless := by
  have hundone : ∀ error, Tells (ask (·.forest.idOf e) >>= fun id => killEntity run depth p.entity id >>= fun _ =>
      Pure.pure (.error (.typing error) : Except CallError Return)) Blameless :=
    fun error => .after fun _ => .after fun _ => .pure not_false
  unfold Simulation.finishCreation
  refine .after fun marked => ?_
  cases marked with
  | error error => exact hundone error
  | ok _ =>
    refine .after fun seen => ?_
    cases seen with
    | ok q => exact .pure trivial
    | error error => exact hundone error

end Tells

theorem Admissible.blameless {error : EntityError} (h : Admissible (.error error)) :
    Blameless (.error (.entity error)) := by
  cases error with
  | typeMismatch name expected got => exact absurd rfl (h name expected got)
  | _ => exact not_false

/-! ## Operations that take what fits -/

variable {m : Method β} {answer : Except CallError Return}

theorem suppliedId_of_fits {id : RequestedId} (hid : m.lookupId = .ok id)
    (hargs : argsFit args m.params = true) : ∃ i, suppliedId p args id = .ok i := by
  rcases Method.lookupId_eq hid with ⟨rfl, hparams⟩ | ⟨i, rfl⟩
  · rw [hparams] at hargs
    obtain ⟨a, rest, rfl, ha, -⟩ := argsFit_cons hargs
    obtain ⟨i, rfl⟩ := fits_id ha
    exact ⟨i, rfl⟩
  · exact ⟨i, rfl⟩

variable (htyped : ∀ holder, (s.attributesOf holder).Typed)

include htyped

/-- A creation is admissible with the attributes that a set holds. -/
theorem createFrom_admissible {source : Option Holder} {container : EntityRef} {id : Option EntityId}
    {created : Except EntityError EntityRef}
    (hact : (ask (·.copied source) >>= createEntity run container id) s = .ok (created, s')) :
    Admissible created := by
  obtain ⟨values, _, hask, hcreate⟩ := bind_ok hact
  cases hask
  refine Tells.createEntity ?_ container id _ _ _ hcreate
  cases source with
  | none => exact List.forall_mem_nil _
  | some holder => exact htyped holder

theorem callNewEntity_blameless {id : Option EntityId} {source : Option Holder} {type : Option TypeName}
    (hact : callNewEntity run depth p id source type s = .ok (answer, s')) : Blameless answer := by
  cases type with
  | none =>
    obtain ⟨created, s₁, hcreate, hdone⟩ := bind_ok hact
    have hadmissible := createFrom_admissible htyped hcreate
    cases created with
    | ok e =>
      cases hdone
      trivial
    | error error =>
      cases hdone
      exact hadmissible.blameless
  | some T =>
    obtain ⟨found, s₁, hresolve, hact⟩ := bind_ok hact
    cases found with
    | error error =>
      cases hact
      exact not_false
    | ok t =>
      obtain rfl : { s with types := (s.types.resolve T).2 } = s₁ := congrArg Prod.snd (Except.ok.inj hresolve)
      -- the resolution has left the attributes as they were
      have htyped' : ∀ holder, ({ s with types := (s.types.resolve T).2 }.attributesOf holder).Typed := htyped
      obtain ⟨created, s₂, hcreate, hdone⟩ := bind_ok hact
      have hadmissible := createFrom_admissible htyped' hcreate
      cases created with
      | ok e => exact Tells.finishCreation e T _ _ _ hdone
      | error error =>
        cases hdone
        exact hadmissible.blameless

/-- The operation of a method takes whatever fits the parameters of the method. -/
theorem perform_blameless (hsole : m.Sole b) (hargs : argsFit args m.params = true)
    (hbound : ∀ body, b ≠ .defaultMethod body) (hact : perform run depth p args b s = .ok (answer, s')) :
    Blameless answer := by
  cases b with
  | getAttribute => exact (Tells.after fun _ => .pure trivial) _ _ _ hact
  | setAttribute key returnsPrevious =>
    rw [hsole.setter.1] at hargs
    obtain ⟨given, rfl, hgiven⟩ := argsFit_value hargs
    exact Tells.callSetAttribute hgiven returnsPrevious _ _ _ hact
  | getEntity type optional ofType id =>
    obtain ⟨i, hid⟩ := suppliedId_of_fits (p := p) (hsole.lookup rfl) hargs
    simp only [perform, hid] at hact
    exact Tells.callGetEntity type ofType i _ _ _ hact
  | getEntities type ofType => exact Tells.callGetEntities type ofType _ _ _ hact
  | newEntity id container type =>
    obtain ⟨given, source, hsupplied⟩ := supplied_of_fits (p := p) hsole.creator hargs
    rw [perform_newEntity, hsupplied] at hact
    exact callNewEntity_blameless htyped hact
  | killEntity id returnsFlag =>
    obtain ⟨i, hid⟩ := suppliedId_of_fits (p := p) (hsole.lookup rfl) hargs
    simp only [perform, hid] at hact
    exact (Tells.after fun _ => .pure trivial) _ _ _ hact
  | killEntities => exact (Tells.after fun _ => .pure trivial) _ _ _ hact
  | markAsType type returnsFlag =>
    refine (Tells.after fun marked => ?_) _ _ _ hact
    cases marked <;> first | exact .pure trivial | exact .pure not_false
  | unmarkAsType type returnsFlag =>
    refine (Tells.after fun marked => ?_) _ _ _ hact
    cases marked <;> first | exact .pure trivial | exact .pure not_false
  | scheduleForActor action delay period returnsTask =>
    refine (Tells.after fun scheduled => ?_) _ _ _ hact
    cases scheduled with
    | error error => exact .pure not_false
    | ok id => exact .pure trivial
  | defaultMethod body => exact absurd rfl (hbound body)

end

end Simulation

open Simulation TypeRegistry

/-- A call fails because there is no method of the name, or because there are such methods and the
arguments fit none of them; otherwise it goes to the first one in the table that they fit. If that is
bound to an operation, then the operation has nothing to say against the arguments. -/
theorem fitting_arguments_are_never_refused {μ : Type} {run : Run (Code μ) μ} {s : Simulation (Code μ) μ}
    (hs : s.Lived) (htypes : s.types.Reached) {p : Proxy} {t : MethodTable (Code μ)}
    (ht : (s.types.resolve p.type).1 = .ok t) (name : String) (args : List Arg) (depth : Nat) :
    (select t name args = .error (.noSuchMethod p.type name) ↔ ∀ m ∈ t.methods, m.1.name ≠ name) ∧
    (select t name args = .error (.argumentMismatch p.type name) ↔ (∃ m ∈ t.methods, m.1.name = name) ∧
      ∀ m ∈ t.methods, m.1.name = name → argsFit args m.1.params = false) ∧
    (∀ b, select t name args = .ok b ↔ t.FirstFitting name args b) ∧
    (∀ error, select t name args = .error error → invoke run depth p name args s =
      .ok (.error error, { s with types := (s.types.resolve p.type).2 })) ∧
    ∀ b, select t name args = .ok b →
      invoke run depth p name args s =
        perform run depth p args b { s with types := (s.types.resolve p.type).2 } ∧
      ((∀ body, b ≠ .defaultMethod body) → ∀ error s',
        invoke run depth p name args s = .ok (.error error, s') → ¬error.BlamesCall) := by
  have hbuild := (htypes.coherent.resolve p.type).symm.trans ht
  have htype : t.type = p.type := by
    obtain ⟨_, _, -, -, -, rfl⟩ := build_ok_iff.mp hbuild
    rfl
  rw [← htype]
  refine ⟨select_noSuchMethod_iff, select_argumentMismatch_iff, fun b => select_ok_iff, ?_, ?_⟩
  · rw [htype]
    exact fun error herror => invoke_of_error (resolveType_eq ht) herror
  · rw [htype]
    intro b hb
    have hinvoke : invoke run depth p name args s = perform run depth p args b _ :=
      invoke_of_ok (resolveType_eq ht) hb
    refine ⟨hinvoke, fun hbound error s' hact => ?_⟩
    obtain ⟨k, hentry, -, hargs⟩ := entry_of_select hb
    obtain ⟨m, -, rfl, hsole⟩ := method_of_entry hbuild hentry
    rw [hinvoke] at hact
    refine perform_blameless (fun holder => ?_) hsole hargs hbound hact
    cases holder with
    | entity e => exact hs.typed (.entity e)
    | standalone i => exact hs.typed (.standalone i)

/-- Where there is no entity no house is founded, and not because of the container that was given. -/
theorem ruin_founds_nothing :
    (∃ s', invoke (runCode 2) 2 ⟨⟨5⟩, "village"⟩ "sink" [] settled =
      .ok (.error (.noSuchMethod "village" "sink"), s')) ∧
    (∃ s', invoke (runCode 2) 2 ⟨⟨5⟩, "village"⟩ "found" [.value none] settled =
      .ok (.error (.argumentMismatch "village" "found"), s')) ∧
    ∃ error s', invoke (runCode 2) 2 ⟨⟨5⟩, "village"⟩ "found" [.container (.entity Forest.root)] settled =
      .ok (.error error, s') ∧ ¬error.BlamesCall := by
  have hvillage : (settled.types.resolve "village").1 = .ok founding := rfl
  have hdispatch := fun name args => @fitting_arguments_are_never_refused _ (runCode 2) settled settled_lived
    country_reached ⟨⟨5⟩, "village"⟩ founding hvillage name args 2
  refine ⟨⟨_, (hdispatch "sink" []).2.2.2.1 _ ?_⟩, ⟨_, (hdispatch "found" [.value none]).2.2.2.1 _ ?_⟩, ?_⟩
  · exact (hdispatch "sink" []).1.mpr (by decide)
  · exact (hdispatch "found" [.value none]).2.1.mpr (by decide)
  · obtain ⟨-, hblameless⟩ := (hdispatch "found" [.container (.entity Forest.root)]).2.2.2.2
      (.newEntity none (some 0) (some "house")) rfl
    have hact : ∃ error s', invoke (runCode 2) 2 ⟨⟨5⟩, "village"⟩ "found" [.container (.entity Forest.root)]
        settled = .ok (.error error, s') := ⟨_, _, rfl⟩
    obtain ⟨error, s', hact⟩ := hact
    exact ⟨error, s', hact, hblameless (by rintro _ ⟨⟩) error s' hact⟩

end Vivarium
