import Vivarium.Proofs.Coherence
import Vivarium.Proofs.Evolution

/-! # Validated types

A validation resolves a type and whatever its methods hand out or mark, and the tables are kept. So a
call on such a type does not fail for want of a type, whatever is registered later, and neither does a
call on what an earlier call has handed out.
-/

namespace Vivarium

namespace TypeRegistry

open Relation

variable {β : Type} {r r' : TypeRegistry β} {type : TypeName} {t : MethodTable β} {ts seen queue : List TypeName}

/-- The tables of these types are kept. -/
structure Stocked (ts : List TypeName) (r : TypeRegistry β) : Prop where
  coherent : r.Coherent
  kept : ∀ t ∈ ts, ∃ table, r.table? t = some table

namespace Stocked

theorem becomes (h : r.Stocked ts) (h' : r.Becomes r') : r'.Stocked ts where
  coherent := h'.advances.coherent h.coherent
  kept t ht := by
    obtain ⟨table, htable⟩ := h.kept t ht
    exact ⟨table, h'.advances.tables t table htable⟩

theorem resolve (h : r.Stocked ts) (ht : type ∈ ts) :
    ∃ t, r.table? type = some t ∧ r.resolve type = (.ok t, r) := by
  obtain ⟨t, htable⟩ := h.kept type ht
  refine ⟨t, htable, ?_⟩
  rw [TypeRegistry.resolve, htable]

theorem founded (h : r.Stocked ts) (ht : type ∈ ts) : r.Founded type := by
  obtain ⟨t, htable⟩ := h.kept type ht
  exact (complete_iff.mp ⟨t, h.coherent type t htable⟩).founded

end Stocked

/-- And what their methods hand out or mark is among them. -/
structure SelfContained (ts : List TypeName) (r : TypeRegistry β) : Prop extends r.Stocked ts where
  closed : ∀ t ∈ ts, ∀ table, r.table? t = some table → ∀ d ∈ table.dependencies, d ∈ ts

theorem SelfContained.becomes (h : r.SelfContained ts) (h' : r.Becomes r') : r'.SelfContained ts where
  toStocked := h.toStocked.becomes h'
  closed t ht table htable := by
    obtain ⟨table', htable'⟩ := h.kept t ht
    have hsame := (h'.advances.tables t table' htable').symm.trans htable
    exact h.closed t ht table (hsame ▸ htable')

/-! ## Validation -/

theorem table?_of_resolve (h : r.resolve type = (.ok t, r')) : r'.table? type = some t := by
  unfold TypeRegistry.resolve at h
  split at h
  · next htable =>
    cases h
    exact htable
  next hnone =>
  split at h
  · cases h
    rw [table?_keep, hnone]
    exact if_pos rfl
  · cases h

theorem Stocked.of_resolve (h : r.Coherent) (hresolve : r.resolve type = (.ok t, r')) :
    r'.Stocked [type] := by
  refine ⟨(Advances.of_resolve hresolve).coherent h, fun u hu => ⟨t, ?_⟩⟩
  rw [List.mem_singleton.mp hu]
  exact table?_of_resolve hresolve

/-- The types of `seen` are resolved, and what they depend on is there or in the queue. -/
def Explored (seen queue : List TypeName) (r : TypeRegistry β) : Prop :=
  ∀ t ∈ seen, ∃ table, r.table? t = some table ∧ ∀ d ∈ table.dependencies, d ∈ seen ∨ d ∈ queue

theorem Explored.skip {rest : List TypeName} (h : r.Explored seen (type :: rest)) (hin : type ∈ seen) :
    r.Explored seen rest := by
  intro t ht
  obtain ⟨table, htable, hdependencies⟩ := h t ht
  refine ⟨table, htable, fun d hd => ?_⟩
  rcases hdependencies d hd with hd | hd
  · exact Or.inl hd
  · rcases List.mem_cons.mp hd with rfl | hd
    · exact Or.inl hin
    · exact Or.inr hd

theorem Explored.visit {rest : List TypeName} (h : r.Explored seen (type :: rest))
    (hresolve : r.resolve type = (.ok t, r')) : r'.Explored (seen ++ [type])
      (rest ++ t.dependencies.filter fun d => !(seen ++ [type]).contains d) := by
  intro u hu
  rcases List.mem_append.mp hu with hu | hu
  · obtain ⟨table, htable, hdependencies⟩ := h u hu
    refine ⟨table, (Advances.of_resolve hresolve).tables u table htable, fun d hd => ?_⟩
    rcases hdependencies d hd with hd | hd
    · exact Or.inl (List.mem_append_left _ hd)
    · rcases List.mem_cons.mp hd with rfl | hd
      · exact Or.inl (List.mem_append_right _ List.mem_cons_self)
      · exact Or.inr (List.mem_append_left _ hd)
  · obtain rfl := List.mem_singleton.mp hu
    refine ⟨t, table?_of_resolve hresolve, fun d hd => ?_⟩
    by_cases hin : d ∈ seen ++ [u]
    · exact Or.inl hin
    · exact Or.inr (List.mem_append_right _ (List.mem_filter.mpr ⟨hd, by simpa using hin⟩))

theorem Explored.validates (h : r.Explored seen queue) (hok : (r.validateFrom seen queue).1 = .ok ts) :
    (r.validateFrom seen queue).2.Explored ts [] ∧ (∀ t ∈ seen, t ∈ ts) ∧ ∀ t ∈ queue, t ∈ ts := by
  induction r, seen, queue using TypeRegistry.validateFrom.induct with
  | case1 r seen =>
    rw [validateFrom] at hok ⊢
    cases hok
    exact ⟨h, fun _ ht => ht, by simp⟩
  | case2 r seen type rest hin ih =>
    rw [validateFrom_of_seen hin] at hok ⊢
    have hmem := List.contains_iff_mem.mp hin
    obtain ⟨hexplored, hseen, hrest⟩ := ih (h.skip hmem) hok
    exact ⟨hexplored, hseen, List.forall_mem_cons.mpr ⟨hseen type hmem, hrest⟩⟩
  | case3 r seen type rest hnew hreg e r' hresolve =>
    rw [validateFrom_of_error hnew hreg hresolve] at hok
    cases hok
  | case4 r seen type rest hnew hreg t r' hresolve seen' ih =>
    rw [validateFrom_of_ok hnew hreg hresolve] at hok ⊢
    obtain ⟨hexplored, hseen, hrest⟩ := ih (h.visit hresolve) hok
    refine ⟨hexplored, fun t ht => hseen t (List.mem_append_left _ ht), List.forall_mem_cons.mpr ⟨?_, ?_⟩⟩
    · exact hseen type (List.mem_append_right _ List.mem_cons_self)
    · exact fun t ht => hrest t (List.mem_append_left _ ht)
  | case5 r seen type rest hnew hunknown =>
    rw [validateFrom_of_unknown hnew hunknown] at hok
    cases hok

theorem Reached.validates (h : r.Reached) (hok : (r.validateTree type).1 = .ok ts) :
    (r.validateTree type).2.SelfContained ts ∧ type ∈ ts := by
  have hbegin : r.Explored [] [type] := by
    rintro _ ⟨⟩
  obtain ⟨hexplored, -, hqueue⟩ := hbegin.validates hok
  have hcoherent := (h.becomes (.single (.validateTree type))).coherent
  refine ⟨⟨⟨hcoherent, fun t ht => ?_⟩, fun t ht table htable d hd => ?_⟩, hqueue type List.mem_cons_self⟩
  · obtain ⟨table, htable, -⟩ := hexplored t ht
    exact ⟨table, htable⟩
  · obtain ⟨table', htable', hdependencies⟩ := hexplored t ht
    obtain rfl := Option.some.inj (htable'.symm.trans htable)
    exact (hdependencies d hd).resolve_right List.not_mem_nil

end TypeRegistry

namespace Simulation

variable {β μ α γ : Type} {raw : EntityRef → Prop} {run : Run β μ} {depth : Nat} {s s' : Simulation β μ}
  {type : TypeName} {ts : List TypeName} {e : EntityRef} {p : Proxy} {args : List Arg}

/-! ## What operations do to the registry -/

theorem Touch.becomes (h : s.Touch raw s') : s.types.Becomes s'.types := by
  cases h with
  | register h => exact .single (.register h)
  | resolve type => exact .single (.resolve type)
  | validate type => exact .single (.validateTree type)
  | edit holder => cases holder <;> exact .refl
  | markAs h =>
    obtain ⟨change, rfl⟩ := remarks_of_mark h
    exact .refl
  | unmarkAs h =>
    obtain ⟨change, rfl⟩ := remarks_of_unmark h
    exact .refl
  | _ => exact .refl

theorem Touches.becomes (h : s.Touches raw s') : s.types.Becomes s'.types := by
  induction h with
  | refl => exact .refl
  | tail _ ht ih => exact ih.trans ht.becomes

/-- The identifier and the attributes that a creation is given. -/
def supplied (p : Proxy) (args : List Arg) (id : Option RequestedId) (container : Option Nat) :
    Except CallError (Option EntityId × Option Holder) := do
  let id ← id.mapM (suppliedId p args)
  let container ← container.mapM (suppliedContainer p args)
  .ok (id, container)

theorem perform_newEntity (id : Option RequestedId) (container : Option Nat) (type : Option TypeName) :
    perform run depth p args (.newEntity id container type) =
      match supplied p args id container with
      | .error e => Pure.pure (.error e)
      | .ok (id, container) => callNewEntity run depth p id container type := rfl

/-- Where the tables of `ts` are kept the operation keeps them, and gives what is told. -/
def Gives (ts : List TypeName) (act : Act β μ α) (what : α → Prop) : Prop :=
  ∀ s a s', s.types.Stocked ts → act s = .ok (a, s') → s'.types.Stocked ts ∧ what a

namespace Gives

variable {act : Act β μ α} {what : α → Prop}

theorem bind {next : α → Act β μ γ} {what' : γ → Prop} (h : Gives ts act what)
    (hn : ∀ a, what a → Gives ts (next a) what') : Gives ts (act >>= next) what' := by
  intro s c s'' hs hact
  obtain ⟨a, s', hact, hnext⟩ := bind_ok hact
  obtain ⟨hs', ha⟩ := h s a s' hs hact
  exact hn a ha s' c s'' hs' hnext

theorem mono {what' : α → Prop} (h : Gives ts act what) (hw : ∀ a, what a → what' a) : Gives ts act what' := by
  intro s a s' hs hact
  obtain ⟨hs', ha⟩ := h s a s' hs hact
  exact ⟨hs', hw a ha⟩

theorem pure {a : α} (ha : what a) : Gives ts (Pure.pure a : Act β μ α) what := by
  intro s a' s' hs hact
  cases hact
  exact ⟨hs, ha⟩

theorem of_evolves (h : Evolves raw act) : Gives ts act fun _ => True :=
  fun s a s' hs hact => ⟨hs.becomes (h s a s' hact).becomes, trivial⟩

theorem ask (f : Simulation β μ → α) : Gives ts (Simulation.ask f) fun _ => True := by
  intro s a s' hs hact
  cases hact
  exact ⟨hs, trivial⟩

/-- Whatever the operation is, something is said of all that it might give. -/
theorem then_pure {f : α → γ} {what' : γ → Prop} (h : Gives ts act what) (hf : ∀ a, what a → what' (f a)) :
    Gives ts (act >>= fun a => Pure.pure (f a)) what' := h.bind fun a ha => .pure (hf a ha)

theorem resolveType (ht : type ∈ ts) :
    Gives ts (Simulation.resolveType type : Act β μ _) fun a => ∃ t, a = .ok t := by
  intro s a s' hs hact
  obtain ⟨t, -, hresolve⟩ := hs.resolve ht
  simp only [Simulation.resolveType, onTypes, hresolve] at hact
  cases hact
  exact ⟨hs, t, rfl⟩

theorem viewAs (e : EntityRef) (ht : type ∈ ts) :
    Gives ts (Simulation.viewAs e type : Act β μ _) fun a => a = .ok ⟨e, type⟩ := by
  refine (resolveType ht).then_pure ?_
  rintro _ ⟨t, rfl⟩
  rfl

theorem viewAllAs (ht : type ∈ ts) (es : List EntityRef) : Gives ts (Simulation.viewAllAs type es : Act β μ _)
    fun a => ∃ ps, a = .ok ps ∧ ∀ p ∈ ps, p.type = type := by
  induction es with
  | nil => exact .pure ⟨[], rfl, by simp⟩
  | cons e es ih =>
    refine (viewAs e ht).bind ?_
    rintro _ rfl
    refine ih.then_pure ?_
    rintro _ ⟨ps, rfl, hps⟩
    exact ⟨_, rfl, List.forall_mem_cons.mpr ⟨rfl, hps⟩⟩

theorem markAsType (e : EntityRef) (ht : type ∈ ts) :
    Gives ts (Simulation.markAsType e type : Act β μ _) fun a => ∃ b, a = .ok b := by
  intro s a s' hs hact
  obtain ⟨as, has, -⟩ := (hs.founded ht).ancestors
  rw [markAsType_of_ok has] at hact
  cases hact
  exact ⟨hs, _, rfl⟩

theorem unmarkAsType (e : EntityRef) (ht : type ∈ ts) :
    Gives ts (Simulation.unmarkAsType e type : Act β μ _) fun a => ∃ b, a = .ok b := by
  intro s a s' hs hact
  rw [unmarkAsType_of_known ((hs.founded ht).registered type .refl)] at hact
  cases hact
  exact ⟨hs, _, rfl⟩

/-! ## Calls -/

/-- The answer is not an error of types, and what it hands out is seen as types of `ts`. -/
def Clean (ts : List TypeName) : Except CallError Return → Prop
  | .ok answer => ∀ p ∈ answer.toEntities, p.type ∈ ts
  | .error (.typing _) => False
  | .error _ => True

theorem Clean.of_none {answer : Return} (h : answer.toEntities = []) : Clean ts (.ok answer) := by
  intro p hp
  rw [h] at hp
  cases hp

theorem clean_flag (returnsFlag b : Bool) : Clean ts (.ok (flagOrVoid returnsFlag b)) := by
  cases returnsFlag <;> exact .of_none rfl

theorem clean_view (e : EntityRef) (ht : type ∈ ts) : Clean ts (.ok (.entity (some ⟨e, type⟩))) := by
  intro p hp
  rw [List.mem_singleton.mp hp]
  exact ht

theorem clean_suppliedId {error : CallError} {id : RequestedId} (h : suppliedId p args id = .error error) :
    Clean ts (.error error) := by
  unfold suppliedId at h
  split at h
  · cases h
  · split at h
    · cases h
    · cases h
      trivial

theorem clean_suppliedContainer {error : CallError} {i : Nat} (h : suppliedContainer p args i = .error error) :
    Clean ts (.error error) := by
  unfold suppliedContainer at h
  split at h
  · cases h
  · cases h
    trivial

theorem error_of_mapM {δ ε : Type} {f : δ → Except CallError ε} {found : Option δ} {error : CallError}
    (h : found.mapM f = .error error) : ∃ d, f d = .error error := by
  cases found with
  | none => cases h
  | some d =>
    refine ⟨d, ?_⟩
    change some <$> f d = _ at h
    cases hd : f d with
    | error e =>
      rw [hd] at h
      cases h
      rfl
    | ok a =>
      rw [hd] at h
      cases h

theorem clean_supplied {id : Option RequestedId} {container : Option Nat} {error : CallError}
    (h : supplied p args id container = .error error) : Clean ts (.error error) := by
  unfold supplied at h
  cases hid : id.mapM (suppliedId p args) with
  | error e =>
    rw [hid] at h
    cases h
    obtain ⟨id, hid⟩ := error_of_mapM hid
    exact clean_suppliedId hid
  | ok id =>
    cases hcontainer : container.mapM (suppliedContainer p args) with
    | error e =>
      rw [hid, hcontainer] at h
      cases h
      obtain ⟨i, hi⟩ := error_of_mapM hcontainer
      exact clean_suppliedContainer hi
    | ok container =>
      rw [hid, hcontainer] at h
      cases h

theorem callSetAttribute (hrun : RunEvolves raw run) (k : AttributeKey) (returnsPrevious : Bool) :
    Gives ts (Simulation.callSetAttribute run p k returnsPrevious args) (Clean ts) := by
  have hanswer : ∀ previous, Clean ts (.ok (if returnsPrevious then .value previous else .void)) := by
    intro previous
    cases returnsPrevious <;> exact .of_none rfl
  unfold Simulation.callSetAttribute
  simp only
  split
  · refine (of_evolves (.setAttribute hrun _ _ _)).bind fun previous _ => ?_
    cases previous with
    | error e => exact .pure trivial
    | ok previous => exact .pure (hanswer previous)
  · exact (of_evolves (.removeAttribute hrun _ _)).then_pure fun previous _ => hanswer previous
  · exact .pure trivial

theorem callGetEntity (ht : type ∈ ts) (ofType : Bool) (id : EntityId) :
    Gives ts (Simulation.callGetEntity p type ofType id : Act β μ _) (Clean ts) := by
  refine (ask _).bind fun found _ => ?_
  cases found with
  | none => exact .pure (.of_none rfl)
  | some e =>
    refine (viewAs e ht).bind ?_
    rintro _ rfl
    exact .pure (clean_view e ht)

theorem callGetEntities (ht : type ∈ ts) (ofType : Bool) :
    Gives ts (Simulation.callGetEntities p type ofType : Act β μ _) (Clean ts) := by
  refine (ask _).bind fun es _ => (viewAllAs ht es).bind ?_
  rintro _ ⟨ps, rfl, hps⟩
  exact .pure fun p hp => by rw [hps p hp]; exact ht

/-- A created entity is never killed again because of its type. -/
theorem finishCreation (ht : type ∈ ts) (e : EntityRef) :
    Gives ts (Simulation.finishCreation run depth p e type) fun a => a = .ok (.entity (some ⟨e, type⟩)) := by
  unfold Simulation.finishCreation
  refine (markAsType e ht).bind ?_
  rintro _ ⟨b, rfl⟩
  refine (viewAs e ht).bind ?_
  rintro _ rfl
  exact .pure rfl

theorem callNewEntity (hrun : RunEvolves raw run) (id : Option EntityId) (container : Option Holder)
    {found : Option TypeName} (hfound : ∀ t ∈ found, t ∈ ts) :
    Gives ts (Simulation.callNewEntity run depth p id container found) (Clean ts) := by
  have hcreate : ∀ values, Evolves raw (Simulation.createEntity run p.entity id values) :=
    fun values => .createEntity hrun _ _ values
  cases found with
  | none =>
    refine ((ask _).bind fun values _ => of_evolves (hcreate values)).bind fun created _ => ?_
    cases created with
    | error e => exact .pure trivial
    | ok e => exact .pure (.of_none rfl)
  | some type =>
    have ht := hfound type rfl
    refine (resolveType ht).bind ?_
    rintro _ ⟨t, rfl⟩
    refine ((ask _).bind fun values _ => of_evolves (hcreate values)).bind fun created _ => ?_
    cases created with
    | error e => exact .pure trivial
    | ok e =>
      refine (finishCreation ht e).mono ?_
      rintro _ rfl
      exact clean_view e ht

/-- A method that is bound to an operation does not fail for want of a type. -/
theorem perform (hrun : RunEvolves raw run) {b : Binding β} (hb : ∀ d ∈ b.dependencies, d ∈ ts)
    (hbound : ∀ body, b ≠ .defaultMethod body) :
    Gives ts (Simulation.perform run depth p args b) (Clean ts) := by
  cases b with
  | getAttribute => exact (ask _).then_pure fun _ _ => .of_none rfl
  | setAttribute => exact callSetAttribute hrun _ _
  | getEntity type _ ofType id =>
    simp only [Simulation.perform]
    split
    · next hid => exact .pure (clean_suppliedId hid)
    · exact callGetEntity (hb type List.mem_cons_self) ofType _
  | getEntities type ofType => exact callGetEntities (hb type List.mem_cons_self) ofType
  | newEntity id container type =>
    rw [perform_newEntity]
    cases hsupplied : supplied p args id container with
    | error e => exact .pure (clean_supplied hsupplied)
    | ok given => exact callNewEntity hrun _ _ fun t ht => hb t (Option.mem_toList.mpr ht)
  | killEntity id returnsFlag =>
    simp only [Simulation.perform]
    split
    · next hid => exact .pure (clean_suppliedId hid)
    · exact (of_evolves (.killEntity hrun _ _)).then_pure fun b _ => clean_flag _ b
  | killEntities => exact (of_evolves (.killEntities hrun _)).then_pure fun _ _ => .of_none rfl
  | markAsType type =>
    refine (markAsType _ (hb type List.mem_cons_self)).then_pure ?_
    rintro _ ⟨b, rfl⟩
    exact clean_flag _ b
  | unmarkAsType type =>
    refine (unmarkAsType _ (hb type List.mem_cons_self)).then_pure ?_
    rintro _ ⟨b, rfl⟩
    exact clean_flag _ b
  | scheduleForActor action delay period returnsTask =>
    have hschedule : Evolves raw (schedule (.entity p.entity) ⟨action, .proxy p⟩ delay period : Act β μ _) :=
      .schedule _ _ _ _
    refine (of_evolves hschedule).bind fun scheduled _ => ?_
    cases scheduled with
    | error e => exact .pure trivial
    | ok id =>
      apply Gives.pure
      cases returnsTask <;> exact .of_none rfl
  | defaultMethod body => exact absurd rfl (hbound body)

end Gives

theorem dependencies_of_select {t : MethodTable β} {name : String} {b : Binding β}
    (h : select t name args = .ok b) : ∀ d ∈ b.dependencies, d ∈ t.dependencies := by
  unfold select at h
  simp only at h
  split at h
  · next k _ hfind =>
    cases h
    have hmem := (List.mem_filter.mp (List.mem_of_find?_eq_some hfind)).1
    intro d hd
    exact Distinct.mem_addAll.mpr (Or.inr (List.mem_flatMap.mpr ⟨_, hmem, hd⟩))
  · cases h

/-- Whether the method that is called has a body of its own. -/
def callsBody (p : Proxy) (name : String) (args : List Arg) (s : Simulation β μ) : Bool :=
  match (s.types.resolve p.type).1 with
  | .error _ => false
  | .ok t =>
    match select t name args with
    | .ok (.defaultMethod _) => true
    | _ => false

section

variable {t : MethodTable β} {name : String}

theorem clean_select {error : CallError} (h : select t name args = .error error) :
    Gives.Clean ts (.error error) := by
  unfold select at h
  simp only at h
  split at h
  · cases h
  · cases h
    split <;> trivial

variable (hresolve : resolveType p.type s = .ok (.ok t, s'))

include hresolve

theorem invoke_of_error {error : CallError} (h : select t name args = .error error) :
    invoke run depth p name args s = .ok (.error error, s') := by
  refine (bind_of_ok hresolve).trans ?_
  simp only [h]
  rfl

theorem invoke_of_ok {b : Binding β} (h : select t name args = .ok b) :
    invoke run depth p name args s = perform run depth p args b s' := by
  refine (bind_of_ok hresolve).trans ?_
  simp only [h]

end

theorem invoke_clean (hrun : RunEvolves raw run) (hs : s.types.SelfContained ts) (hp : p.type ∈ ts)
    {name : String} (hbound : s.callsBody p name args = false) {answer : Except CallError Return}
    (hact : invoke run depth p name args s = .ok (answer, s')) : Gives.Clean ts answer := by
  obtain ⟨t, htable, hresolve⟩ := hs.resolve hp
  have hresolved : resolveType p.type s = .ok (.ok t, s) := by
    simp only [resolveType, onTypes, hresolve]
  cases hselect : select t name args with
  | error error =>
    rw [invoke_of_error hresolved hselect] at hact
    cases hact
    exact clean_select hselect
  | ok b =>
    rw [invoke_of_ok hresolved hselect] at hact
    have hb : ∀ d ∈ b.dependencies, d ∈ ts := fun d hd =>
      hs.closed p.type hp t htable d (dependencies_of_select hselect d hd)
    have hother : ∀ body, b ≠ .defaultMethod body := by
      rintro body rfl
      rw [callsBody, hresolve] at hbound
      simp only [hselect] at hbound
      cases hbound
    exact (Gives.perform hrun hb hother s answer s' hs.toStocked hact).2

def handedOut : Except CallError Return → List Proxy
  | .ok answer => answer.toEntities
  | .error _ => []

/-- Calls that begin with an entity that is seen as `type` when the registry is `r` or a later one. They
are made on the proxies that are there, on which the answers put further ones, and no method with a body
of its own is called. In between anything else may be done. -/
inductive Calls (run : Run β μ) (r : TypeRegistry β) (type : TypeName) : List Proxy → Simulation β μ → Prop
  | view {e : EntityRef} {p : Proxy} {s s' : Simulation β μ} (hr : r.Becomes s.types)
    (hact : viewAs e type s = .ok (.ok p, s')) : Calls run r type [p] s'
  | other {ps : List Proxy} {s s' : Simulation β μ} (h : Calls run r type ps s)
    (hs : s.types.Becomes s'.types) : Calls run r type ps s'
  | invoke {ps : List Proxy} {p : Proxy} {s s' : Simulation β μ} {depth : Nat} {name : String}
    {args : List Arg} {answer : Except CallError Return} (h : Calls run r type ps s) (hp : p ∈ ps)
    (hbound : s.callsBody p name args = false) (hact : invoke run depth p name args s = .ok (answer, s')) :
    Calls run r type (ps ++ handedOut answer) s'

theorem Calls.contained {r : TypeRegistry β} {ps : List Proxy} (h : Calls run r type ps s)
    (hrun : RunEvolves raw run) (hr : r.SelfContained ts) (htype : type ∈ ts) :
    s.types.SelfContained ts ∧ ∀ p ∈ ps, p.type ∈ ts := by
  induction h with
  | @view e p s s' hbecomes hact =>
    have hs := hr.becomes hbecomes
    have hviewed := (Gives.viewAs e htype _ _ _ hs.toStocked hact).2
    cases hviewed
    have hview : Evolves raw (viewAs e type : Act β μ _) := .viewAs e type
    refine ⟨hs.becomes (hview _ _ _ hact).becomes, ?_⟩
    simpa using htype
  | other _ hbecomes ih => exact ⟨ih.1.becomes hbecomes, ih.2⟩
  | @invoke ps p s s' depth name args answer _ hp hbound hact ih =>
    obtain ⟨hs, hps⟩ := ih
    refine ⟨hs.becomes (Evolves.invoke hrun p name args _ _ _ hact).becomes, fun q hq => ?_⟩
    rcases List.mem_append.mp hq with hq | hq
    · exact hps q hq
    · have hclean := invoke_clean hrun hs (hps p hp) hbound hact
      cases answer with
      | ok answer => exact hclean q hq
      | error error => cases hq

end Simulation

open Simulation TypeRegistry

/-- When a type has been validated, no call fails for want of a type that is made on an entity seen as
this type or on what such calls have handed out, whatever happens in between. -/
theorem validated_types_never_fail_a_call {β μ : Type} {run : Run β μ} {r : TypeRegistry β}
    {type : TypeName} {ts : List TypeName} (hrun : RunEvolves (fun _ => True) run) (hr : r.Reached)
    (hvalid : (r.validateTree type).1 = .ok ts) {ps : List Proxy} {s s' : Simulation β μ}
    (hcalls : Calls run (r.validateTree type).2 type ps s) {p : Proxy} (hp : p ∈ ps) {depth : Nat}
    {name : String} {args : List Arg} (hbound : s.callsBody p name args = false)
    {answer : Except CallError Return} (hact : invoke run depth p name args s = .ok (answer, s'))
    (error : TypeError) : answer ≠ .error (.typing error) := by
  obtain ⟨hcontained, htype⟩ := hr.validates hvalid
  obtain ⟨hs, hps⟩ := hcalls.contained hrun hcontained htype
  have hclean := invoke_clean hrun hs (hps p hp) hbound hact
  rintro rfl
  exact hclean

/-- A town founds houses, which may be flooded. -/
def town : TypeDecl (Code Unit) where
  name := "town"
  parents := ["place"]
  methods := [{ name := "found", returns := .entity "house", directives := [.newEntity] }]

def house : TypeDecl (Code Unit) where
  name := "house"
  parents := ["place"]
  methods := [{ name := "flood", directives := [.markAsType "wet"] }]

def settlement : TypeRegistry (Code Unit) where
  decls := [("town", town), ("house", house), ("place", { name := "place" }), ("wet", { name := "wet" })]

theorem settlement_reached : settlement.Reached :=
  .head (.register (d := town) rfl) (.head (.register (d := house) rfl)
    (.head (.register (d := { name := "place" }) rfl) (.single (.register (d := { name := "wet" }) rfl))))

def surveyed : TypeRegistry (Code Unit) :=
  (((settlement.resolve "town").2.resolve "house").2.resolve "wet").2

theorem settlement_validates :
    settlement.validateTree "town" = (.ok ["town", "house", "wet"], surveyed) := by
  rw [validateTree, validateFrom_of_ok (by decide) rfl rfl]
  change validateFrom (settlement.resolve "town").2 ["town"] ["house"] = _
  rw [validateFrom_of_ok (by decide) rfl rfl]
  change validateFrom ((settlement.resolve "town").2.resolve "house").2 ["town", "house"] ["wet"] = _
  rw [validateFrom_of_ok (by decide) rfl rfl]
  change validateFrom surveyed ["town", "house", "wet"] [] = _
  rw [validateFrom]

theorem house_never_fails : ∃ (s s' : Simulation (Code Unit) Unit) (answer : Except CallError Return),
    Calls (runCode 2) surveyed "town" [⟨Forest.root, "town"⟩, ⟨⟨1⟩, "house"⟩] s ∧
      invoke (runCode 2) 2 ⟨⟨1⟩, "house"⟩ "flood" [] s = .ok (answer, s') ∧
      s'.forest.isMarked ⟨1⟩ "wet" = true ∧ ∀ error, answer ≠ .error (.typing error) := by
  obtain ⟨p, s₁, hview, hholds⟩ := endsWith_iff.mp (show
    endsWith (viewAs Forest.root "town") { blank false with types := surveyed } (fun p s₁ =>
      (p.toOption == some ⟨Forest.root, "town"⟩ && !s₁.callsBody ⟨Forest.root, "town"⟩ "found" []) &&
      endsWith (invoke (runCode 2) 2 ⟨Forest.root, "town"⟩ "found" []) s₁ fun answer s₂ =>
        (handedOut answer == [⟨⟨1⟩, "house"⟩] && !s₂.callsBody ⟨⟨1⟩, "house"⟩ "flood" []) &&
        endsWith (invoke (runCode 2) 2 ⟨⟨1⟩, "house"⟩ "flood" []) s₂ fun _ s₃ =>
          s₃.forest.isMarked ⟨1⟩ "wet") = true by decide +kernel)
  simp only [Bool.and_eq_true, Bool.not_eq_true', beq_iff_eq, endsWith_iff] at hholds
  obtain ⟨⟨hp, hfirst⟩, answer, s₂, hfound, ⟨hhanded, hsecond⟩, answer', s₃, hflood, hwet⟩ := hholds
  have hvalid : (settlement.validateTree "town").1 = .ok ["town", "house", "wet"] := by
    rw [settlement_validates]
  have hlast : (settlement.validateTree "town").2 = surveyed := by
    rw [settlement_validates]
  obtain rfl := eq_ok_of_toOption hp
  have hcalls : Calls (runCode 2) surveyed "town" [⟨Forest.root, "town"⟩, ⟨⟨1⟩, "house"⟩] s₂ := by
    have hnext := (Calls.view .refl hview).invoke List.mem_cons_self hfirst hfound
    rwa [hhanded] at hnext
  refine ⟨s₂, s₃, answer', hcalls, hflood, hwet, ?_⟩
  exact validated_types_never_fail_a_call (Evolves.runCode 2) settlement_reached hvalid (hlast ▸ hcalls)
    (List.mem_cons_of_mem _ List.mem_cons_self) hsecond hflood

end Vivarium
