import Vivarium.Proofs.Validated

/-! # Marks respect inheritance

Where nobody marks by hand, an entity that is marked as a type is marked as all that the type inherits
from. Marking adds a type with its ancestors, unmarking takes a type away with all that inherit from it,
and types that are registered later change nothing about those that are marked.
-/

namespace Vivarium

/-- Whether an entity is marked or unmarked by hand. -/
def Request.byHand : Request → Bool
  | .mark _ _ => true
  | .unmark _ _ => true
  | _ => false

theorem Request.marksOnly_of_not_byHand {raw : EntityRef → Prop} (q : Request) (h : (!q.byHand) = true) :
    q.MarksOnly raw := by
  cases q with
  | mark | unmark => cases h
  | _ => trivial

/-- Whether the method marks or unmarks an entity. -/
def Binding.remarks {β : Type} : Binding β → Bool
  | .newEntity _ _ _ => true
  | .markAsType _ _ => true
  | .unmarkAsType _ _ => true
  | _ => false

namespace TypeRegistry

variable {β : Type} {r : TypeRegistry β} {type t : TypeName}

theorem descends_iff (h : r.Founded t) : r.descends t type = true ↔ r.Inherits t type := by
  obtain ⟨as, has, hancestry⟩ := h.ancestors
  rw [descends, has, ← hancestry.mem_iff]
  exact List.contains_iff_mem

theorem mem_kinds_iff {as : List TypeName} (has : r.ancestors type = .ok as) :
    t ∈ type :: as ↔ r.IsA type t := by
  rw [List.mem_cons, (founded_of_ancestors has).2.mem_iff, IsA, Relation.reflTransGen_iff_eq_or_transGen]
  rfl

theorem not_kept_iff (h : r.Founded t) :
    decide (t ≠ type ∧ r.descends t type = false) = false ↔ r.IsA t type := by
  rw [decide_eq_false_iff_not, IsA, Relation.reflTransGen_iff_eq_or_transGen, ← Bool.not_eq_true,
    descends_iff h, not_and_or, not_not, not_not, eq_comm]
  rfl

end TypeRegistry

namespace Simulation

open TypeRegistry

variable {β μ : Type} {raw : EntityRef → Prop} {s s' : Simulation β μ} {e x : EntityRef}
  {type t : TypeName}

/-- Whatever the entity is marked as is known with all its ancestors, and they are marked too. -/
structure Upward (e : EntityRef) (s : Simulation β μ) : Prop where
  founded : ∀ t ∈ s.marksOf e, s.types.Founded t
  closed : ∀ t ∈ s.marksOf e, ∀ a, s.types.Inherits t a → a ∈ s.marksOf e

namespace Upward

theorem of_unmarked (h : s.marksOf e = []) : s.Upward e := by
  constructor
  · intro t ht
    rw [h] at ht
    cases ht
  · intro t ht
    rw [h] at ht
    cases ht

theorem grows (h : s.Upward e) (hmarks : s'.marksOf e = s.marksOf e) (hg : s.types.Grows s'.types) :
    s'.Upward e := by
  constructor
  · intro t ht
    rw [hmarks] at ht
    exact hg.founded (h.founded t ht)
  · intro t ht a ha
    rw [hmarks] at ht ⊢
    exact h.closed t ht a ((hg.inherits (h.founded t ht)).mp ha)

theorem same (h : s.Upward e) (hmarks : s'.marksOf e = s.marksOf e) (htypes : s'.types = s.types) :
    s'.Upward e :=
  h.grows hmarks fun _ _ hd => htypes ▸ hd

/-- The marks of another entity, or those of this one after a change that respects inheritance. -/
theorem remark (h : s.Upward x) (e : EntityRef) {change : List TypeName → List TypeName}
    (hfounded : ∀ t ∈ change (s.marksOf x), s.types.Founded t)
    (hclosed : ∀ t ∈ change (s.marksOf x), ∀ a, s.types.Inherits t a → a ∈ change (s.marksOf x)) :
    (s.remark e change).Upward x := by
  rcases Forest.entity_modify e x (fun y => { y with marks := change y.marks }) s.forest with heq | ⟨-, heq⟩
  · exact h.same (congrArg Entity.marks heq) rfl
  · have hmarks : (s.remark e change).marksOf x = change (s.marksOf x) := congrArg Entity.marks heq
    constructor
    · intro t ht
      rw [hmarks] at ht
      exact hfounded t ht
    · intro t ht
      rw [hmarks] at ht ⊢
      exact hclosed t ht

theorem mark (h : s.Upward x) (e : EntityRef) {as : List TypeName}
    (has : s.types.ancestors type = .ok as) : (s.remark e (Distinct.addAll (type :: as))).Upward x := by
  have hmem : ∀ t, t ∈ Distinct.addAll (type :: as) (s.marksOf x) ↔ t ∈ s.marksOf x ∨ s.types.IsA type t := by
    intro t
    rw [Distinct.mem_addAll, mem_kinds_iff has]
  apply h.remark e
  · intro t ht
    rcases (hmem t).mp ht with ht | ht
    · exact h.founded t ht
    · exact (founded_of_ancestors has).1.of_isA ht
  · intro t ht a ha
    apply (hmem a).mpr
    rcases (hmem t).mp ht with ht | ht
    · exact Or.inl (h.closed t ht a ha)
    · exact Or.inr (ht.trans ha.to_reflTransGen)

theorem unmark (h : s.Upward x) (e : EntityRef) (type : TypeName) :
    (s.remark e (·.filter fun m => m ≠ type ∧ s.types.descends m type = false)).Upward x := by
  apply h.remark e
  · intro t ht
    exact h.founded t (List.mem_filter.mp ht).1
  · intro t ht a ha
    obtain ⟨ht, hkept⟩ := List.mem_filter.mp ht
    have hmarked := h.closed t ht a ha
    refine List.mem_filter.mpr ⟨hmarked, ?_⟩
    -- If an ancestor had to go, so would whoever inherits from it.
    rw [← Bool.not_eq_false, not_kept_iff (h.founded a hmarked)]
    intro hgoes
    rw [(not_kept_iff (h.founded t ht)).mpr (ha.to_reflTransGen.trans hgoes)] at hkept
    cases hkept

end Upward

/-- Where nobody marks by hand, no touch does harm. -/
theorem Touch.upward (ht : s.Touch raw s') (h : s.Upward x) (hx : ¬raw x) : s'.Upward x := by
  have hgrows : s.types.Grows s'.types := ht.becomes.advances.grows
  cases ht with
  | engine | memory | register | resolve | validate | schedulers | newAttributes | drawId | bind =>
    exact h.grows rfl hgrows
  | edit holder =>
    cases holder with
    | entity e => exact h.same (Forest.field_modify (·.marks) fun _ => rfl) rfl
    | standalone i => exact h.same rfl rfl
  | retask | subscribe | unsubscribe | cut | fall =>
    exact h.same (Forest.field_modify (·.marks) fun _ => rfl) rfl
  | mark he | unmark he =>
    have hne : x ≠ _ := fun heq => hx (heq ▸ he)
    exact h.same (congrArg Entity.marks (Forest.entity_modify_of_ne _ hne)) rfl
  | markAs hact =>
    rcases markAsType_cases hact with ⟨_, -, -, rfl⟩ | ⟨as, has, -, rfl⟩
    · exact h
    · exact h.mark _ has
  | unmarkAs hact =>
    rcases unmarkAsType_cases hact with ⟨-, -, rfl⟩ | ⟨-, -, rfl⟩
    · exact h
    · exact h.unmark _ _
  | create hp =>
    exact h.same (Forest.field_insertChild_of_bare (·.marks) (fun _ _ => rfl)
      (Forest.index_lt_of_isAlive hp) rfl x) rfl

theorem Touches.upward (ht : s.Touches raw s') (h : s.Upward x) (hx : ¬raw x) : s'.Upward x := by
  induction ht with
  | refl => exact h
  | tail _ ht ih => exact ht.upward ih hx

/-! ## What one call does -/

/-- The entity is marked as the type and its ancestors as well, those that were missing once each, and
nothing is done to anybody else. The flag tells whether it was not marked as the type. -/
structure MarksAs (e : EntityRef) (type : TypeName) (flag : Bool) (s s' : Simulation β μ) : Prop where
  added : ∃ new, s'.marksOf e = s.marksOf e ++ new ∧ new.Nodup ∧
    ∀ t, t ∈ new ↔ t ∉ s.marksOf e ∧ s.types.IsA type t
  flag : flag = true ↔ type ∉ s.marksOf e
  others : ∀ x, x ≠ e → s'.forest.entity x = s.forest.entity x

/-- Of the marks of the entity the type and all that inherit from it are taken away, and nothing is done
to anybody else. The flag tells whether the entity was marked as the type. -/
structure UnmarksAs (e : EntityRef) (type : TypeName) (flag : Bool) (s s' : Simulation β μ) : Prop where
  taken : ∃ keep : TypeName → Bool, s'.marksOf e = (s.marksOf e).filter keep ∧
    ∀ t ∈ s.marksOf e, keep t = false ↔ s.types.IsA t type
  flag : flag = true ↔ type ∈ s.marksOf e
  others : ∀ x, x ≠ e → s'.forest.entity x = s.forest.entity x

theorem isMarked_iff : s.forest.isMarked e type = true ↔ type ∈ s.marksOf e := List.contains_iff_mem

theorem entity_remark_of_ne (change : List TypeName → List TypeName) (hx : x ≠ e) :
    (s.remark e change).forest.entity x = s.forest.entity x := Forest.entity_modify_of_ne _ hx

theorem markAsType_marks {flag : Bool} (he : e.index < s.forest.size)
    (h : markAsType e type s = .ok (.ok flag, s')) : s.MarksAs e type flag s' := by
  rcases markAsType_cases h with ⟨error, -, hflag, -⟩ | ⟨as, has, hflag, rfl⟩
  · cases hflag
  cases hflag
  refine ⟨?_, ?_, fun x hx => entity_remark_of_ne _ hx⟩
  · obtain ⟨new, hnew, hnodup, hmem⟩ := Distinct.addAll_eq_append (type :: as) (s.marksOf e)
    refine ⟨new, (marksOf_remark he _).trans hnew, hnodup, fun t => ?_⟩
    rw [hmem, mem_kinds_iff has]
  · rw [Bool.not_eq_true', ← Bool.not_eq_true, isMarked_iff]

theorem unmarkAsType_unmarks {flag : Bool} (hup : s.Upward e)
    (h : unmarkAsType e type s = .ok (.ok flag, s')) : s.UnmarksAs e type flag s' := by
  rcases unmarkAsType_cases h with ⟨-, hflag, -⟩ | ⟨-, hflag, rfl⟩
  · cases hflag
  cases hflag
  refine ⟨⟨_, marksOf_remark_of_nil rfl, fun t ht => ?_⟩, isMarked_iff, fun x hx => entity_remark_of_ne _ hx⟩
  exact not_kept_iff (hup.founded t ht)

theorem markAsType_error {error : TypeError} (h : markAsType e type s = .ok (.error error, s')) : s' = s := by
  rcases markAsType_cases h with ⟨_, -, -, rfl⟩ | ⟨_, -, herror, -⟩
  · rfl
  · cases herror

theorem unmarkAsType_error {error : TypeError} (h : unmarkAsType e type s = .ok (.error error, s')) :
    s' = s := by
  rcases unmarkAsType_cases h with ⟨-, -, rfl⟩ | ⟨-, herror, -⟩
  · rfl
  · cases herror

/-! ## Methods that mark -/

section

variable {run : Run β μ} {depth : Nat} {p : Proxy} {args : List Arg} {error : CallError}

theorem enter_error {container : EntityRef} {values : List (AttributeKey × Value)} {f : Forest β}
    {id : EntityId} {error : EntityError} (h : enter run container values f id s = .ok (.error error, s')) :
    s' = s := by
  have hinsert : createEntity.insert run container values id s ≠ .ok (.error error, s') := by
    intro hact
    obtain ⟨e, s₁, -, hact⟩ := bind_ok hact
    obtain ⟨_, s₂, -, hact⟩ := bind_ok hact
    cases hact
  cases hvalues : mismatch? values with
  | some error =>
    rw [enter_of_mismatch hvalues] at h
    cases h
    rfl
  | none =>
  rw [enter_of_typed hvalues] at h
  split at h
  · cases h
    rfl
  · cases hlimit : f.limitOf container with
    | none =>
      simp only [hlimit] at h
      exact absurd h hinsert
    | some limit =>
      simp only [hlimit] at h
      split at h
      · cases h
        rfl
      · exact absurd h hinsert

/-- A creation that fails changes no entity. -/
theorem createEntity_error {container : EntityRef} {id : Option EntityId}
    {values : List (AttributeKey × Value)} {error : EntityError}
    (h : createEntity run container id values s = .ok (.error error, s')) (x : EntityRef) :
    s'.forest.entity x = s.forest.entity x := by
  cases hlive : s.forest.isAlive container with
  | false =>
    rw [createEntity_of_dead hlive] at h
    cases h
    rfl
  | true =>
    rw [createEntity_of_alive hlive] at h
    cases id with
    | some id => rw [enter_error h]
    | none =>
      rw [enter_error h]
      rfl

theorem callNewEntity_error (hrun : RunEvolves raw run) (hs : s.types.Coherent) {id : Option EntityId}
    {container : Option Holder} {type : Option TypeName}
    (h : callNewEntity run depth p id container type s = .ok (.error error, s')) (x : EntityRef) :
    s'.forest.entity x = s.forest.entity x := by
  cases type with
  | none =>
    obtain ⟨created, s₁, hcreate, h⟩ := bind_ok h
    obtain ⟨values, s₂, hask, hcreate⟩ := bind_ok hcreate
    cases hask
    cases created with
    | error e =>
      cases h
      exact createEntity_error hcreate x
    | ok e => cases h
  | some type =>
    obtain ⟨resolved, s₁, hresolve, h⟩ := bind_ok h
    obtain ⟨hresolved, rfl⟩ : (s.types.resolve type).1 = resolved ∧
        s₁ = { s with types := (s.types.resolve type).2 } := by
      cases hresolve
      exact ⟨rfl, rfl⟩
    cases resolved with
    | error e =>
      cases h
      rfl
    | ok t =>
      have hstocked := Stocked.of_resolve hs (Prod.ext hresolved rfl)
      obtain ⟨created, s₂, hcreate, h⟩ := bind_ok h
      obtain ⟨values, s₃, hask, hcreate⟩ := bind_ok hcreate
      obtain rfl : { s with types := (s.types.resolve type).2 } = s₃ := by
        cases hask
        rfl
      clear hask
      cases created with
      | error e =>
        cases h
        exact createEntity_error hcreate x
      | ok e =>
        -- The type was resolved before the entity was made, and goes on to be.
        have hlater := (Evolves.createEntity hrun p.entity id values _ _ _ hcreate).becomes
        have hanswer := (Gives.finishCreation List.mem_cons_self e _ _ _ (hstocked.becomes hlater) h).2
        cases hanswer

/-- A method that marks or unmarks and fails has changed no entity. -/
theorem perform_error (hrun : RunEvolves raw run) (hs : s.types.Coherent) {b : Binding β}
    (hb : b.remarks = true) (h : perform run depth p args b s = .ok (.error error, s')) (x : EntityRef) :
    s'.forest.entity x = s.forest.entity x := by
  cases b with
  | newEntity id container type =>
    rw [perform_newEntity] at h
    cases hsupplied : supplied p args id container with
    | error e =>
      rw [hsupplied] at h
      cases h
      rfl
    | ok given =>
      rw [hsupplied] at h
      exact callNewEntity_error hrun hs h x
  | markAsType type =>
    obtain ⟨a, s₁, hmark, h⟩ := bind_ok h
    cases a with
    | error error =>
      cases h
      rw [markAsType_error hmark]
    | ok flag => cases h
  | unmarkAsType type =>
    obtain ⟨a, s₁, hunmark, h⟩ := bind_ok h
    cases a with
    | error error =>
      cases h
      rw [unmarkAsType_error hunmark]
    | ok flag => cases h
  | _ => cases hb

end

end Simulation

open Simulation

/-- Marks respect inheritance. In whatever way a simulation in which nobody was marked has evolved,
an entity that was never marked or unmarked by hand is marked as all the ancestors of what it is marked
as. Marking adds exactly a type and its ancestors, unmarking takes away exactly a type and what inherits
from it, no other entity is touched, and what fails changes nothing. -/
theorem marks_respect_inheritance {β μ : Type} {raw : EntityRef → Prop} {s₀ s : Simulation β μ}
    (hbare : ∀ e, s₀.marksOf e = []) (hr : s₀.types.Reached) (h : s₀.Touches raw s) :
    (∀ e, ¬raw e → ∀ t ∈ s.marksOf e, ∀ a, s.types.Inherits t a → a ∈ s.marksOf e) ∧
      (∀ container t a, s.types.Inherits t a → ∀ c ∈ s.forest.ofType container t, ¬raw c →
        c ∈ s.forest.ofType container a) ∧
      (∀ e type flag s', e.index < s.forest.size → markAsType e type s = .ok (.ok flag, s') →
        s.MarksAs e type flag s') ∧
      (∀ e type flag s', ¬raw e → unmarkAsType e type s = .ok (.ok flag, s') →
        s.UnmarksAs e type flag s') ∧
      (∀ e type error s', markAsType e type s = .ok (.error error, s') → s' = s) ∧
      (∀ e type error s', unmarkAsType e type s = .ok (.error error, s') → s' = s) ∧
      ∀ run : Run β μ, RunEvolves raw run →
        (∀ bound (q : Request) a s', q.MarksOnly raw → answer run bound q s = .ok (a, s') →
          s₀.Touches raw s') ∧
        ∀ depth p args (b : Binding β) error s', b.remarks = true →
          perform run depth p args b s = .ok (.error error, s') →
            ∀ x, s'.forest.entity x = s.forest.entity x := by
  have hup : ∀ e, ¬raw e → s.Upward e := fun e he => h.upward (.of_unmarked (hbare e)) he
  refine ⟨fun e he => (hup e he).closed, ?_, ?_, ?_, ?_, ?_, ?_⟩
  · intro container t a ha c hc hraw
    obtain ⟨hchild, hmarked⟩ := List.mem_filter.mp hc
    exact List.mem_filter.mpr ⟨hchild, isMarked_iff.mpr ((hup c hraw).closed t (isMarked_iff.mp hmarked) a ha)⟩
  · intro e type flag s' he hact
    exact markAsType_marks he hact
  · intro e type flag s' he hact
    exact unmarkAsType_unmarks (hup e he) hact
  · intro e type error s' hact
    exact markAsType_error hact
  · intro e type error s' hact
    exact unmarkAsType_error hact
  · intro run hrun
    constructor
    · intro bound q a s' hq hact
      exact h.trans (Evolves.answer hrun bound hq _ _ _ hact)
    · intro depth p args b error s' hb hact
      exact perform_error hrun (hr.becomes h.becomes).coherent hb hact

def zoo : TypeRegistry (Code Unit) where
  decls := [("animal", { name := "animal" }), ("bird", { name := "bird", parents := ["animal"] }),
    ("swimmer", { name := "swimmer", parents := ["animal"] }),
    ("penguin", { name := "penguin", parents := ["bird", "swimmer"] })]

theorem zoo_reached : zoo.Reached :=
  .head (.register (d := { name := "animal" }) rfl)
    (.head (.register (d := { name := "bird", parents := ["animal"] }) rfl)
      (.head (.register (d := { name := "swimmer", parents := ["animal"] }) rfl)
        (.single (.register (d := { name := "penguin", parents := ["bird", "swimmer"] }) rfl))))

/-- Makes an entity and marks it as a penguin. -/
def hatching : Program Unit .listener :=
  .request (.create Forest.root none none) fun
    | .error _ => .done ()
    | .ok e => .request (.markAsType e "penguin") fun _ => .done ()

theorem penguin_is_no_bird : ∃ s s' : Simulation (Code Unit) Unit,
    Touches (fun _ => False) { blank false with types := zoo } s ∧
      s.marksOf ⟨1⟩ = ["penguin", "bird", "animal", "swimmer"] ∧
      unmarkAsType ⟨1⟩ "bird" s = .ok (.ok true, s') ∧ s.UnmarksAs ⟨1⟩ "bird" true s' ∧
      s'.marksOf ⟨1⟩ = ["animal", "swimmer"] := by
  obtain ⟨_, s, hact, hholds⟩ := endsWith_iff.mp (show
    endsWith (executeWithin (fun q => !q.byHand) 3 hatching) { blank false with types := zoo } (fun _ s =>
      s.marksOf ⟨1⟩ == ["penguin", "bird", "animal", "swimmer"] &&
      endsWith (unmarkAsType ⟨1⟩ "bird") s fun flag s' =>
        flag.toOption == some true && s'.marksOf ⟨1⟩ == ["animal", "swimmer"]) = true by decide +kernel)
  simp only [Bool.and_eq_true, beq_iff_eq, endsWith_iff] at hholds
  obtain ⟨hmarks, flag, s', hunmark, hflag, hmarks'⟩ := hholds
  obtain rfl := eq_ok_of_toOption hflag
  have htouches : Touches (fun _ => False) { blank false with types := zoo } s :=
    Evolves.executeWithin (fun q hq => q.marksOnly_of_not_byHand hq) 3 hatching _ _ _ hact
  have hbare : ∀ e, marksOf e { blank false with types := zoo } = [] := by
    rintro ⟨_ | i⟩
    · rfl
    · rfl
  obtain ⟨-, -, -, hunmarks, -⟩ := marks_respect_inheritance hbare zoo_reached htouches
  exact ⟨s, s', htouches, hmarks, hunmark, hunmarks ⟨1⟩ "bird" true s' id hunmark, hmarks'⟩

end Vivarium
