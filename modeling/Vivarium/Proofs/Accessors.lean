import Vivarium.Proofs.Ambiguity
import Vivarium.Proofs.Validated
import Vivarium.Proofs.Writes

/-! # Getters and setters

A getter and a setter that speak of one property are bound to one attribute, in whatever types they are
declared. What the setter was called with is what the getter returns, until the attribute is written
again.
-/

namespace Vivarium

variable {β : Type}

/-! ## Properties -/

/-- The property that accessors speak of whose names end in `suffix`. -/
def property? (suffix : String) : Option String :=
  match suffix.toList with
  | c :: rest => if LetterCase.isUpper c then some (String.ofList (LetterCase.lower c ++ rest)) else none
  | [] => none

theorem propertyName?_append (start suffix : String) (starts : List String) :
    propertyName? (start ++ suffix) (start :: starts) =
      (property? suffix).or (propertyName? (start ++ suffix) starts) := by
  have hrest : textAfter? start.toList (start ++ suffix).toList = some suffix.toList :=
    textAfter?_eq_some.mpr String.toList_append
  rw [propertyName?, List.findSome?_cons, hrest, property?]
  cases suffix.toList with
  | nil => rfl
  | cons c rest => by_cases hupper : LetterCase.isUpper c = true <;> simp [hupper, propertyName?]

theorem propertyName?_set (suffix : String) : propertyName? ("set" ++ suffix) ["set"] = property? suffix := by
  rw [propertyName?_append]
  exact Option.or_none

theorem propertyName?_is (suffix : String) :
    propertyName? ("is" ++ suffix) ["get", "is"] = property? suffix := by
  have hother : textAfter? "get".toList ("is" ++ suffix).toList = none := by
    simp [textAfter?, String.toList_append]
  have hlast := propertyName?_append "is" suffix []
  rw [propertyName?, List.findSome?_cons, hother]
  exact hlast.trans Option.or_none

theorem propertyName?_get (suffix : String) :
    propertyName? ("get" ++ suffix) ["get", "is"] = property? suffix := by
  have hother : propertyName? ("get" ++ suffix) ["is"] = none := by
    simp [propertyName?, textAfter?, String.toList_append]
  rw [propertyName?_append, hother]
  exact Option.or_none

/-! ## Declarations -/

namespace Method

variable {m : Method β} {b : Binding β} {given : Option String}

theorem bindSetAttribute_eq (h : m.bindSetAttribute given = .ok b) : ∃ type name,
    m.params = [.value type] ∧ m.attributeName given ["set"] = .ok name ∧
      b = .setAttribute ⟨name, type⟩ (m.returns ≠ .void) := by
  simp only [bindSetAttribute, bind_eq_ok] at h
  obtain ⟨-, -, h⟩ := h
  split at h
  · next type hparams =>
    obtain ⟨_, htype, h⟩ := bind_eq_ok.mp h
    cases htype
    have hnamed : ∀ previous, (do
        let name ← m.attributeName given ["set"]
        Except.ok (Binding.setAttribute ⟨name, type⟩ previous)) = .ok b →
          ∃ name, m.attributeName given ["set"] = .ok name ∧ b = .setAttribute ⟨name, type⟩ previous := by
      intro previous hb
      obtain ⟨name, hname, hb⟩ := bind_eq_ok.mp hb
      cases hb
      exact ⟨name, hname, rfl⟩
    split at h
    · next hvoid =>
      obtain ⟨name, hname, rfl⟩ := hnamed false h
      exact ⟨type, name, hparams, hname, by simp [hvoid]⟩
    · next hvoid =>
      split at h
      · obtain ⟨name, hname, rfl⟩ := hnamed true h
        exact ⟨type, name, hparams, hname, by simp [hvoid]⟩
      · cases h
  · cases h
  · cases h

theorem bindGetAttribute_eq (h : m.bindGetAttribute given = .ok b) : ∃ type name optional,
    m.params = [] ∧ (m.returns = .value type ∨ m.returns = .optional (.value type)) ∧
      m.attributeName given ["get", "is"] = .ok name ∧ b = .getAttribute ⟨name, type⟩ optional := by
  simp only [bindGetAttribute, bind_eq_ok] at h
  obtain ⟨-, -, u, hparams, h⟩ := h
  have hparams := noParams_ok_iff.mp ⟨u, hparams⟩
  split at h
  · next type optional hreturns =>
    obtain ⟨_, htype, h⟩ := bind_eq_ok.mp h
    cases htype
    obtain ⟨name, hname, h⟩ := bind_eq_ok.mp h
    cases h
    refine ⟨type, name, optional, hparams, ?_, hname, rfl⟩
    cases hr : m.returns <;> simp_all [TypeRef.splitOptional]
  · cases h
  · cases h

theorem Sole.setter {key : AttributeKey} {previous : Bool} (h : m.Sole (.setAttribute key previous)) :
    m.params = [.value key.type] ∧ previous = decide (m.returns ≠ .void) := by
  cases h with
  | @directive d _ _ _ _ _ hbound =>
    have hkind := m.bindBy_yields d _ hbound
    cases d with
    | setAttribute given =>
      obtain ⟨type, name, hparams, -, heq⟩ := bindSetAttribute_eq hbound
      cases heq
      exact ⟨hparams, rfl⟩
    | _ => cases hkind

/-- A setter of a property, which has no name of its own for the attribute. -/
structure SetsProperty (m : Method β) (suffix : String) (type : AttributeType) : Prop where
  name : m.name = "set" ++ suffix
  params : m.params = [.value type]
  directives : m.directives = [.setAttribute none]

structure GetsProperty (m : Method β) (suffix : String) (type : AttributeType) : Prop where
  name : m.name = "get" ++ suffix ∨ m.name = "is" ++ suffix
  returns : m.returns = .value type ∨ m.returns = .optional (.value type)
  directives : m.directives = [.getAttribute none]

theorem SetsProperty.bound {suffix : String} {type : AttributeType} (hm : m.SetsProperty suffix type)
    (h : m.Sole b) : ∃ property, property? suffix = some property ∧
      b = .setAttribute ⟨property, type⟩ (m.returns ≠ .void) := by
  cases h with
  | body _ hnone => simp [hm.directives] at hnone
  | directive _ hfirst _ hbound =>
    rw [hm.directives] at hfirst
    cases hfirst
    obtain ⟨type', name, hparams, hname, rfl⟩ := bindSetAttribute_eq hbound
    rw [hm.params] at hparams
    cases hparams
    refine ⟨name, ?_, rfl⟩
    rw [attributeName, hm.name, propertyName?_set] at hname
    cases hproperty : property? suffix <;> simp_all

theorem GetsProperty.bound {suffix : String} {type : AttributeType} (hm : m.GetsProperty suffix type)
    (h : m.Sole b) : ∃ property optional, property? suffix = some property ∧
      b = .getAttribute ⟨property, type⟩ optional := by
  cases h with
  | body _ hnone => simp [hm.directives] at hnone
  | directive _ hfirst _ hbound =>
    rw [hm.directives] at hfirst
    cases hfirst
    obtain ⟨type', name, optional, -, hreturns, hname, rfl⟩ := bindGetAttribute_eq hbound
    have htype : type' = type := by
      rcases hm.returns with hr | hr <;> simp_all
    subst htype
    refine ⟨name, optional, ?_, rfl⟩
    have hspoken : propertyName? m.name ["get", "is"] = property? suffix := by
      rcases hm.name with hm | hm
      · rw [hm, propertyName?_get]
      · rw [hm, propertyName?_is]
    rw [attributeName, hspoken] at hname
    cases hproperty : property? suffix <;> simp_all

end Method

/-! ## Tables -/

namespace TypeRegistry

variable {r r' : TypeRegistry β} {type : TypeName} {t : MethodTable β} {k : MethodKey} {b : Binding β}
  {ms : List (MethodKey × Method β)}

theorem mem_bindAll (hbound : (r.bindAll ms).2 = []) (hb : (k, b) ∈ (r.bindAll ms).1) :
    ∃ m, (k, m) ∈ ms ∧ r.bind m = .ok b := by
  induction ms with
  | nil => cases hb
  | cons p ms ih =>
    obtain ⟨k', m'⟩ := p
    cases hb' : r.bind m' with
    | error kind =>
      rw [bindAll_cons_error hb'] at hbound
      cases hbound
    | ok b' =>
      rw [bindAll_cons_ok hb'] at hbound hb
      rcases List.mem_cons.mp hb with heq | hb
      · cases heq
        exact ⟨m', List.mem_cons_self, hb'⟩
      · obtain ⟨m, hm, hbind⟩ := ih hbound hb
        exact ⟨m, List.mem_cons_of_mem _ hm, hbind⟩

/-- The method is one of the type's. -/
def HasMethod (r : TypeRegistry β) (type : TypeName) (m : Method β) : Prop :=
  ∃ ms, r.allMethods type = .ok ms ∧ Entries.get? m.key ms = some m

/-- A method of a type that resolves has one entry in the table. -/
theorem HasMethod.bound {m : Method β} (hm : r.HasMethod type m) (ht : r.build type = .ok t) :
    ∃ b, t.get? m.key = some b ∧ m.Sole b := by
  obtain ⟨ms, hms, hget⟩ := hm
  obtain ⟨as, ms', -, hms', hbound, rfl⟩ := build_ok_iff.mp ht
  obtain rfl : ms = ms' := Except.ok.inj (hms.symm.trans hms')
  obtain ⟨b, hb, hentry⟩ := get?_bindAll hbound hget
  exact ⟨b, hentry, binds_iff_sole.mp (bind_ok_iff.mp hb).1⟩

/-- And an entry in the table is that of a method of the type. -/
theorem method_of_entry (ht : r.build type = .ok t) (hb : (k, b) ∈ t.methods) :
    ∃ m, r.HasMethod type m ∧ m.key = k ∧ m.Sole b := by
  have hfounded := (complete_iff.mp ⟨t, ht⟩).founded
  obtain ⟨as, ms, -, hms, hbound, rfl⟩ := build_ok_iff.mp ht
  obtain ⟨ts, hts⟩ := hfounded.unfolds
  obtain rfl : _ = ms := Except.ok.inj ((hts.allMethods hfounded).symm.trans hms)
  have hinherits := hts.inheritance hfounded
  obtain ⟨m, hm, hbind⟩ := mem_bindAll hbound hb
  obtain ⟨a, hown, -⟩ := hinherits.chosen k m hm
  have hkey := (declares_of_own? hown).2
  exact ⟨m, ⟨_, hms, hkey ▸ Entries.get?_of_mem hinherits.single hm⟩, hkey,
    binds_iff_sole.mp (bind_ok_iff.mp hbind).1⟩

theorem Reached.resolves_later (h : r.Reached) (hbecomes : r.Becomes r') (ht : (r.resolve type).1 = .ok t) :
    (r'.resolve type).1 = .ok t := by
  rw [h.coherent.resolve] at ht
  rw [(h.becomes hbecomes).coherent.resolve]
  exact hbecomes.advances.grows.build ht

end TypeRegistry

/-! ## Calls -/

namespace Simulation

variable {μ : Type} {run : Run β μ} {s s' : Simulation β μ} {e : EntityRef} {p : Proxy} {depth : Nat}
  {t : MethodTable β} {name : String} {args : List Arg} {b : Binding β} {key : AttributeKey}
  {returnsPrevious optional : Bool}

theorem entry_of_select (h : select t name args = .ok b) :
    ∃ k, (k, b) ∈ t.methods ∧ k.name = name ∧ argsFit args k.params = true := by
  unfold select at h
  simp only at h
  split at h
  · next k _ hfind =>
    cases h
    have hmem := List.mem_filter.mp (List.mem_of_find?_eq_some hfind)
    have hfits := List.find?_some hfind
    exact ⟨k, hmem.1, by simpa using hmem.2, hfits⟩
  · cases h

theorem argsFit_value {type : AttributeType} (h : argsFit args [.value type] = true) :
    ∃ given : Option Value, args = [.value given] ∧ ∀ v ∈ given, v.type = type := by
  rcases args with _ | ⟨a, _ | ⟨a', args⟩⟩
  · simp [argsFit] at h
  · cases a with
    | value given =>
      refine ⟨given, rfl, ?_⟩
      rintro v rfl
      simpa [argsFit, Arg.fits] using h
    | id => simp [argsFit, Arg.fits] at h
    | container => simp [argsFit, Arg.fits] at h
  · simp [argsFit] at h

def Returns (act : Act β μ (Except CallError Return)) (s : Simulation β μ) (answer : Return) : Prop :=
  ∃ s', act s = .ok (.ok answer, s')

theorem resolveType_eq {type : TypeName} (ht : (s.types.resolve type).1 = .ok t) :
    resolveType type s = .ok (.ok t, { s with types := (s.types.resolve type).2 }) := by
  rw [← ht]
  rfl

theorem getter_returns (ht : (s.types.resolve p.type).1 = .ok t)
    (hget : select t name args = .ok (.getAttribute key optional)) :
    Returns (invoke run depth p name args) s (.value ((s.attributesOf (.entity p.entity)).get? key)) :=
  ⟨_, invoke_of_ok (resolveType_eq ht) hget⟩

/-- The state in which the setter begins to write is the one before the call, but for a table. -/
theorem setter_eq (ht : (s.types.resolve p.type).1 = .ok t)
    (hset : select t name args = .ok (.setAttribute key returnsPrevious)) :
    invoke run depth p name args s = callSetAttribute run p key returnsPrevious args
      { s with types := (s.types.resolve p.type).2 } := invoke_of_ok (resolveType_eq ht) hset

variable {given : Option Value}

theorem callSetAttribute_overwrites (hin : s.Holds (.entity p.entity))
    (hls : ∀ l ∈ (s.attributesOf (.entity p.entity)).listenersOf key, ListensOnly run (.entity p.entity) l)
    (hv : ∀ v ∈ given, v.type = key.type) {answer : Except CallError Return}
    (hact : callSetAttribute run p key returnsPrevious [.value given] s = .ok (answer, s')) :
    answer = .ok (if returnsPrevious then .value ((s.attributesOf (.entity p.entity)).get? key) else .void) ∧
      s.Overwrites run (.entity p.entity) key given s' := by
  cases given with
  | none =>
    obtain ⟨previous, s₁, hremove, hdone⟩ := bind_ok hact
    cases hdone
    obtain ⟨rfl, hwritten⟩ := removeAttribute_overwrites hin hls hremove
    exact ⟨rfl, hwritten⟩
  | some v =>
    obtain ⟨previous, s₁, hset, hdone⟩ := bind_ok hact
    obtain ⟨rfl, hwritten⟩ := setAttribute_overwrites hin hls (hv v rfl) hset
    cases hdone
    exact ⟨rfl, hwritten⟩

theorem callSetAttribute_fails (hin : s.Holds (.entity p.entity)) {why : Halt}
    (hact : callSetAttribute run p key returnsPrevious [.value given] s = .error why) :
    ∃ l ∈ (s.attributesOf (.entity p.entity)).listenersOf key,
      ∃ event s₁, run (.attributeEvent event) l.code s₁ = .error why := by
  cases given with
  | none =>
    rcases bind_error hact with hremove | ⟨_, _, -, hdone⟩
    · exact removeAttribute_fails hin hremove
    · cases hdone
  | some v =>
    rcases bind_error hact with hset | ⟨answer, _, -, hdone⟩
    · exact setAttribute_fails hin hset
    · cases answer <;> cases hdone

end Simulation

open Simulation TypeRegistry

/-- What a setter returns. -/
def Method.setterReturns (m : Method β) (previous : Option Value) : Return :=
  if m.returns = .void then .void else .value previous

/-- Of two types as which an entity is seen, a setter of the one and a getter of the other that speak of
one property are bound to one attribute. When they are, the getter returns what the setter was called
with, as long as the attribute is not written again. The setter returns what the getter returned before,
and writes nothing else. Whatever happens writes the attribute or leaves it as it is. -/
theorem getter_returns_what_was_set {μ : Type} {run : Run β μ} {s : Simulation β μ} {e : EntityRef}
    {type₁ type₂ : TypeName} {t₁ t₂ : MethodTable β} (hs : s.types.Reached) (he : e.index < s.forest.size)
    (ht₁ : (s.types.resolve type₁).1 = .ok t₁) (ht₂ : (s.types.resolve type₂).1 = .ok t₂) :
    (∀ suffix type m₁ m₂, s.types.HasMethod type₁ m₁ → s.types.HasMethod type₂ m₂ →
      m₁.SetsProperty suffix type → m₂.GetsProperty suffix type → ∃ property previous optional,
        t₁.get? m₁.key = some (.setAttribute ⟨property, type⟩ previous) ∧
        t₂.get? m₂.key = some (.getAttribute ⟨property, type⟩ optional)) ∧
    (∀ key name₁ args₁ previous name₂ args₂ optional depth,
      select t₁ name₁ args₁ = .ok (.setAttribute key previous) →
      select t₂ name₂ args₂ = .ok (.getAttribute key optional) →
      (∀ l ∈ (s.attributesOf (.entity e)).listenersOf key, ListensOnly run (.entity e) l) →
      ∃ m given before, s.types.HasMethod type₁ m ∧ m.key = ⟨name₁, [.value key.type]⟩ ∧
        previous = decide (m.returns ≠ .void) ∧ args₁ = [.value given] ∧
        (∀ v ∈ given, v.type = key.type) ∧
        Returns (invoke run depth ⟨e, type₂⟩ name₂ args₂) s (.value before) ∧
        (∀ answer s₁, invoke run depth ⟨e, type₁⟩ name₁ args₁ s = .ok (answer, s₁) →
          answer = .ok (m.setterReturns before) ∧
          (∀ h k, h ≠ .entity e ∨ k ≠ key →
            (∀ l ∈ (s.attributesOf (.entity e)).listenersOf key, ListensOnly run h l) →
            (s₁.attributesOf h).get? k = (s.attributesOf h).get? k) ∧
          ∀ s₂, s₁.Unwritten (.entity e) key s₂ →
            Returns (invoke run depth ⟨e, type₂⟩ name₂ args₂) s₂ (.value given)) ∧
        ∀ why, invoke run depth ⟨e, type₁⟩ name₁ args₁ s = .error why →
          ∃ l ∈ (s.attributesOf (.entity e)).listenersOf key,
            ∃ event s₁, run (.attributeEvent event) l.code s₁ = .error why) ∧
    ∀ (s₂ s₃ : Simulation β μ) h key, s₂.Touch (fun _ => True) s₃ → s₂.Holds h →
      s₂.Bypasses h key s₃ ∨ s₂.Writes h key s₃ := by
  have hbuilt₁ := ht₁
  rw [hs.coherent.resolve] at hbuilt₁
  have hbuilt₂ := ht₂
  rw [hs.coherent.resolve] at hbuilt₂
  refine ⟨?_, ?_, fun s₂ s₃ h key ht hin => ht.bypasses_or_writes hin key⟩
  · intro suffix type m₁ m₂ hm₁ hm₂ hsets hgets
    obtain ⟨b₁, hb₁, hsole₁⟩ := hm₁.bound hbuilt₁
    obtain ⟨b₂, hb₂, hsole₂⟩ := hm₂.bound hbuilt₂
    obtain ⟨property, hproperty, rfl⟩ := hsets.bound hsole₁
    obtain ⟨property', optional, hproperty', rfl⟩ := hgets.bound hsole₂
    obtain rfl := Option.some.inj (hproperty.symm.trans hproperty')
    exact ⟨property, _, optional, hb₁, hb₂⟩
  · intro key name₁ args₁ previous name₂ args₂ optional depth hset hget hls
    obtain ⟨k, hentry, hname, hfits⟩ := entry_of_select hset
    obtain ⟨m, hm, rfl, hsole⟩ := method_of_entry hbuilt₁ hentry
    obtain ⟨hparams, rfl⟩ := hsole.setter
    have hkey : m.key = ⟨name₁, [.value key.type]⟩ := by
      rw [← hname, ← hparams]
      rfl
    rw [hkey] at hfits
    obtain ⟨given, rfl, hgiven⟩ := argsFit_value hfits
    have hin : Holds { s with types := (s.types.resolve type₁).2 } (.entity (Proxy.mk e type₁).entity) := he
    refine ⟨m, given, _, hm, hkey, rfl, rfl, hgiven, getter_returns ht₂ hget, ?_, ?_⟩
    · intro answer s₁ hact
      rw [setter_eq ht₁ hset] at hact
      obtain ⟨hanswer, hwritten⟩ := callSetAttribute_overwrites hin hls hgiven hact
      refine ⟨?_, fun h k hother hlisten => (hwritten.others h k hother hlisten).get?, fun s₂ hcourse => ?_⟩
      · rw [hanswer]
        by_cases hvoid : m.returns = .void <;> simp [Method.setterReturns, hvoid, attributesOf]
      · -- Code may have declared types since, but a type that has resolved keeps its table.
        have hlater : s.types.Becomes s₂.types :=
          (Relation.ReflTransGen.single (.resolve type₁)).trans
            (hwritten.touches.becomes.trans hcourse.touches.becomes)
        have hreturns : Returns (invoke run depth ⟨e, type₂⟩ name₂ args₂) s₂ _ :=
          getter_returns (hs.resolves_later hlater ht₂) hget
        rwa [hcourse.get?, hwritten.value] at hreturns
    · intro why hact
      rw [setter_eq ht₁ hset] at hact
      exact callSetAttribute_fails hin hact

/-- A listener that counts how often it is told. -/
def tally : Code Nat := .ofAttributeListener fun _ => .memory (· + 1) fun _ => .done ()

theorem tally_listensOnly (n : Nat) (id : ListenerId) (h : Holder) :
    ListensOnly (runCode (n + 1)) h ⟨id, tally⟩ := by
  intro event s s' hact k
  cases hact
  refine .single (.apart (.memory _) ?_)
  cases h <;> rfl

def person : TypeDecl (Code Nat) where
  name := "person"
  methods := [⟨"setAge", [.value .int], .value .int, [.setAttribute none], none, none⟩]

def guest : TypeDecl (Code Nat) where
  name := "guest"
  methods := [⟨"getAge", [], .optional (.value .int), [.getAttribute none], none, none⟩]

/-- An age is set through one type and got through another. -/
def people : TypeRegistry (Code Nat) := { decls := [("person", person), ("guest", guest)] }

theorem people_reached : people.Reached :=
  .head (.register (d := person) rfl) (.single (.register (d := guest) rfl))

/-- Nothing but a root, the changes of whose age are counted. -/
def newborn : Simulation (Code Nat) Nat :=
  ({ create { config := EngineConfig.standard 1, meter := { ticksPerSecond := 10 } } false none 0 with
    types := people } : Simulation (Code Nat) Nat).withAttributes (.entity Forest.root)
      ⟨.drawn 0, [], [(⟨"age", .int⟩, [⟨⟨1⟩, tally⟩])]⟩

theorem newborn_grows : ∃ (answer : Except CallError Return) (s₁ s₂ : Simulation (Code Nat) Nat),
    invoke (runCode 2) 2 ⟨Forest.root, "person"⟩ "setAge" [.value (some (.int 3))] newborn =
      .ok (answer, s₁) ∧ s₁.memory = 1 ∧
    s₁.Unwritten (.entity Forest.root) ⟨"age", .int⟩ s₂ ∧
    Returns (invoke (runCode 2) 2 ⟨Forest.root, "guest"⟩ "getAge" []) s₂ (.value (some (.int 3))) := by
  have hls : ∀ l ∈ (newborn.attributesOf (.entity Forest.root)).listenersOf ⟨"age", .int⟩,
      ListensOnly (runCode 2) (.entity Forest.root) l := by
    intro l hl
    obtain rfl := List.mem_singleton.mp hl
    exact tally_listensOnly 1 _ _
  have hroot : Forest.root.index < newborn.forest.size := by decide
  have hperson : (newborn.types.resolve "person").1 =
    .ok ⟨"person", [], [(⟨"setAge", [.value .int]⟩, .setAttribute ⟨"age", .int⟩ true)]⟩ := rfl
  have hguest : (newborn.types.resolve "guest").1 =
    .ok ⟨"guest", [], [(⟨"getAge", []⟩, .getAttribute ⟨"age", .int⟩ true)]⟩ := rfl
  obtain ⟨m, given, before, -, -, -, hgiven, -, -, hset, -⟩ :=
    (getter_returns_what_was_set people_reached hroot hperson hguest).2.1 ⟨"age", .int⟩ "setAge"
      [.value (some (.int 3))] true "getAge" [] true 2 rfl rfl hls
  cases hgiven
  obtain ⟨answer, s₁, hact, htold⟩ := endsWith_iff.mp (show
    endsWith (invoke (runCode 2) 2 ⟨Forest.root, "person"⟩ "setAge" [.value (some (.int 3))]) newborn
      (fun _ s₁ => s₁.memory == 1) = true by decide +kernel)
  have hmark : s₁.Unwritten (.entity Forest.root) ⟨"age", .int⟩
      { s₁ with forest := (s₁.forest.mark Forest.root "guest").2 } :=
    .single (.apart (.mark trivial "guest") (attributesOf_modify fun _ => rfl))
  exact ⟨answer, s₁, _, hact, beq_iff_eq.mp htold, hmark, (hset answer s₁ hact).2.2 _ hmark⟩

end Vivarium
