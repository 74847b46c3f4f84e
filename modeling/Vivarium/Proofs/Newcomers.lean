import Vivarium.Proofs.Accessors
import Vivarium.Proofs.Keyed
import Vivarium.Proofs.Recording

/-! # Creation by a call

A call that creates resolves the type of the child before there is a child, and nothing that comes
after the creation fails. So the container either has one child more, with the identifier, the attributes
and the marks that it should have, or the call is refused and no entity has been made.
-/

namespace Vivarium

/-! ## Methods that create -/

section

variable {β : Type}

namespace Method

variable {m : Method β} {b : Binding β}

/-- An identifier is a parameter or fixed, or there is none; the parameters are where the binding has
them. -/
theorem bindNewEntity_eq (h : m.bindNewEntity = .ok b) : ∃ id container type,
    b = .newEntity id container type ∧ m.returns = type.elim .void .entity ∧
      (id = some (.param 0) ∧ (m.params = [.id] ∧ container = none ∨
          m.params = [.id, .container] ∧ container = some 1) ∨
        (∀ i, id ≠ some (.param i)) ∧ (m.params = [] ∧ container = none ∨
          m.params = [.container] ∧ container = some 0)) := by
  simp only [bindNewEntity, bind_eq_ok] at h
  obtain ⟨_, -, h⟩ := h
  split at h <;> next hparams =>
    obtain ⟨_, hcontainer, h⟩ := bind_eq_ok.mp h
    cases hcontainer <;> cases hid : m.id <;> rw [hid] at h
    all_goals
      obtain ⟨_, hsource, h⟩ := bind_eq_ok.mp h
      cases hsource <;> next =>
        split at h
        · next hvoid =>
          cases h
          exact ⟨_, _, none, rfl, hvoid, by simp [hparams]⟩
        · next type htype =>
          cases h
          exact ⟨_, _, some type, rfl, htype, by simp [hparams]⟩
        · cases h

theorem Sole.creator {id : Option RequestedId} {container : Option Nat} {type : Option TypeName}
    (h : m.Sole (.newEntity id container type)) : m.bindNewEntity = .ok (.newEntity id container type) := by
  cases h with
  | @directive d _ _ _ _ _ hbound =>
    have hkind := m.bindBy_yields d _ hbound
    cases d with
    | newEntity => exact hbound
    | _ => cases hkind

end Method

namespace Simulation

variable {p : Proxy} {args : List Arg}

theorem argsFit_nil (h : argsFit args [] = true) : args = [] := by
  cases args with
  | nil => rfl
  | cons => simp [argsFit] at h

theorem argsFit_cons {t : TypeRef} {ts : List TypeRef} (h : argsFit args (t :: ts) = true) :
    ∃ a rest, args = a :: rest ∧ a.fits t = true ∧ argsFit rest ts = true := by
  cases args with
  | nil => simp [argsFit] at h
  | cons a rest => exact ⟨a, rest, rfl, by simp_all [argsFit]⟩

theorem fits_id {a : Arg} (h : a.fits .id = true) : ∃ id, a = .id id := by
  cases a with
  | id id => exact ⟨id, rfl⟩
  | _ => simp [Arg.fits] at h

theorem fits_container {a : Arg} (h : a.fits .container = true) : ∃ holder, a = .container holder := by
  cases a with
  | container holder => exact ⟨holder, rfl⟩
  | _ => simp [Arg.fits] at h

/-- Arguments that fit have what the binding asks for. -/
theorem supplied_of_fits {m : Method β} {id : Option RequestedId} {container : Option Nat}
    {type : Option TypeName} (hm : m.bindNewEntity = .ok (.newEntity id container type))
    (hargs : argsFit args m.params = true) :
    ∃ given source, supplied p args id container = .ok (given, source) := by
  obtain ⟨_, _, _, hb, -, hshape⟩ := Method.bindNewEntity_eq hm
  cases hb
  rcases hshape with ⟨rfl, ⟨hparams, rfl⟩ | ⟨hparams, rfl⟩⟩ | ⟨hid, hshape⟩
  · rw [hparams] at hargs
    obtain ⟨a, rest, rfl, ha, -⟩ := argsFit_cons hargs
    obtain ⟨i, rfl⟩ := fits_id ha
    exact ⟨_, _, rfl⟩
  · rw [hparams] at hargs
    obtain ⟨a, rest, rfl, ha, hargs⟩ := argsFit_cons hargs
    obtain ⟨a', rest', rfl, ha', -⟩ := argsFit_cons hargs
    obtain ⟨i, rfl⟩ := fits_id ha
    obtain ⟨holder, rfl⟩ := fits_container ha'
    exact ⟨_, _, rfl⟩
  · have hgiven : ∃ given, id.mapM (suppliedId p args) = .ok given := by
      rcases id with _ | ⟨i⟩ | ⟨i⟩
      · exact ⟨_, rfl⟩
      · exact absurd rfl (hid i)
      · exact ⟨_, rfl⟩
    obtain ⟨given, hgiven⟩ := hgiven
    have hsource : ∃ source, container.mapM (suppliedContainer p args) = .ok source := by
      rcases hshape with ⟨-, rfl⟩ | ⟨hparams, rfl⟩
      · exact ⟨_, rfl⟩
      · rw [hparams] at hargs
        obtain ⟨a, rest, rfl, ha, -⟩ := argsFit_cons hargs
        obtain ⟨holder, rfl⟩ := fits_container ha
        exact ⟨_, rfl⟩
    obtain ⟨source, hsource⟩ := hsource
    exact ⟨given, source, by rw [supplied, hgiven, hsource]; rfl⟩

end Simulation

end

/-! ## Who is taken in -/

section

variable {β μ : Type}

namespace Forest

variable {f f' : Forest β} {p : EntityRef} {id : EntityId} {error : EntityError}

/-- Why a container does not take in a child with an identifier. -/
inductive Refuses (f : Forest β) (p : EntityRef) (id : EntityId) : EntityError → Prop
  | dead (h : f.isAlive p = false) : Refuses f p id (.detached (f.idOf p))
  | taken (h : f.isAlive p = true) (hid : id ∈ f.childIds p) : Refuses f p id (.duplicateId id)
  | full (h : f.isAlive p = true) (hid : id ∉ f.childIds p) {limit : Nat} (hlimit : f.limitOf p = some limit)
    (hfull : limit ≤ (f.children p).length) : Refuses f p id (.limitReached limit)

/-- The next entity that will be made. -/
def newcomer (f : Forest β) : EntityRef := ⟨f.size⟩

end Forest

namespace Simulation

variable {run : Run β μ} {s : Simulation β μ} {depth : Nat} {container : EntityRef} {p : Proxy}
  {values : List (AttributeKey × Value)} {given : Option EntityId} {source : Option Holder}
  {type : Option TypeName}

theorem Records.announce (h : s.Records run) (container : EntityRef) (event : EntityEvent) :
    ∃ m, Simulation.announce run container event s = .ok ((), s.remember m) := by
  apply (Echoes.announce container event s).heard h
  exact (bind_of_ok rfl).trans (bind_of_ok (tell_silent event _ s))

/-- The attributes that a child begins with. -/
def copied (source : Option Holder) (s : Simulation β μ) : List (AttributeKey × Value) :=
  match source with
  | some h => (s.attributesOf h).values
  | none => []

/-- What a call that creates gives: nothing, or the child seen as its type. -/
def handed (type : Option TypeName) (s : Simulation β μ) : Return :=
  type.elim .void fun T => .entity (some ⟨s.forest.newcomer, T⟩)

section

variable {T : TypeName} {t : MethodTable β} {s' : Simulation β μ} (ht : (s.types.resolve T).1 = .ok t)

include ht

end

section

variable {r : TypeRegistry β} (hrec : s.Records run)

theorem Lived.copied {μ : Type} {s : Simulation (Code μ) μ} (h : s.Lived) (source : Option Holder) :
    ∃ a : AttributeSet (Code μ), a.Keyed ∧ a.Typed ∧ s.copied source = a.values := by
  cases source with
  | none => exact ⟨⟨.drawn 0, [], []⟩, List.nodup_nil, List.forall_mem_nil _, rfl⟩
  | some holder => exact ⟨s.attributesOf holder, h.keyed holder, h.typed holder, rfl⟩

variable {a : AttributeSet β} (ha : a.Keyed) (hcopied : s.copied source = a.values)

include ha hcopied

include hrec

end

end Simulation

end

open Simulation TypeRegistry

/-- A village founds houses, which are places. -/
def village : TypeDecl (Code (List EntityEvent)) where
  name := "village"
  methods :=
    [{ name := "found", params := [.container], returns := .entity "house", directives := [.newEntity] }]

def cottage : TypeDecl (Code (List EntityEvent)) := { name := "house", parents := ["place"] }

def country : TypeRegistry (Code (List EntityEvent)) :=
  { decls := [("village", village), ("house", cottage), ("place", { name := "place" })] }

theorem country_reached : country.Reached :=
  .head (.register (d := village) rfl) (.head (.register (d := cottage) rfl)
    (.single (.register (d := { name := "place" }) rfl)))

/-- A listener that writes down what it is told. -/
def chronicler : Code (List EntityEvent) :=
  .ofEntityListener fun event => .memory (· ++ [event]) fun _ => .done ()

def wilderness : Simulation (Code (List EntityEvent)) (List EntityEvent) :=
  create { config := (EngineConfig.standard 1).withTicksPerSecond 10, meter := { ticksPerSecond := 10 } }
    false
    (some 1) []

/-- The root has two attributes and a chronicler. -/
def charter : Program (List EntityEvent) .task :=
  .request (.setAttribute (.entity Forest.root) ⟨"roof", .string⟩ (.string "thatch")) fun _ =>
    .request (.setAttribute (.entity Forest.root) ⟨"doors", .int⟩ (.int 2)) fun _ =>
      .subscribe Forest.root ⟨1⟩ chronicler fun _ => .done .completed

def settled : Simulation (Code (List EntityEvent)) (List EntityEvent) :=
  let s : Simulation (Code (List EntityEvent)) (List EntityEvent) :=
    { wilderness with types := country }.withAttributes (.entity Forest.root)
      ⟨.drawn 0, [(⟨"roof", .string⟩, .string "thatch"), (⟨"doors", .int⟩, .int 2)], []⟩
  { s with forest := (s.forest.subscribe Forest.root ⟨⟨1⟩, chronicler⟩).2 }

theorem settled_lived : settled.Lived := by
  have hnew : wilderness.New false :=
    ⟨(EngineConfig.standard 1).withTicksPerSecond 10, _, some 1, rfl, rfl, rfl⟩
  have hact : execute 2 charter { wilderness with types := country } = .ok (.completed, settled) := rfl
  exact .run (.declare (.new hnew rfl) country) hact

/-- The method table of villages. -/
def founding : MethodTable (Code (List EntityEvent)) :=
  ⟨"village", [], [(⟨"found", [.container]⟩, .newEntity none (some 0) (some "house"))]⟩

end Vivarium
