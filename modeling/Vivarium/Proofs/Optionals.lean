import Vivarium.Proofs.Dispatch

/-! # Optional parameters

An optional parameter takes the absent value and the values that it takes when it is not optional, however
often it is made optional. It takes no identifier and no container. So a call that was accepted goes on to
be accepted when parameters become optional, unless an identifier or a container is passed to one of them.
-/

namespace Vivarium

/-! ## Arguments -/

/-- The second type is the first, made optional any number of times. -/
inductive TypeRef.Wraps : TypeRef → TypeRef → Prop
  | same (t : TypeRef) : Wraps t t
  | optional {t t' : TypeRef} (h : Wraps t t') : Wraps t (.optional t')

namespace Arg

variable {a : Arg} {t t' : TypeRef}

/-- An attribute value, absent or not. -/
def isValue : Arg → Bool
  | .value _ => true
  | _ => false

theorem fits_optional : a.fits (.optional t) = true ↔
    a = .value none ∨ (∃ v, a = .value (some v)) ∧ a.fits t = true := by
  cases a with
  | value given => cases given <;> simp [fits]
  | id => simp [fits]
  | container => simp [fits]

theorem isValue_of_fits_optional (h : a.fits (.optional t) = true) : a.isValue = true := by
  rcases fits_optional.mp h with rfl | ⟨⟨v, rfl⟩, -⟩ <;> rfl

theorem fits_optional_of_isValue (h : a.isValue = true) (ha : a.fits t = true) :
    a.fits (.optional t) = true := by
  cases a with
  | value given => cases given <;> simp_all [fits]
  | _ => cases h

/-- What fits a type fits it in optionals as well if it is a value, and otherwise only if there are
none. -/
theorem fits_wrapped (h : t.Wraps t') (ha : a.fits t = true) :
    a.fits t' = true ↔ t' = t ∨ a.isValue = true := by
  induction h with
  | same => simp [ha]
  | @optional t' hwraps ih =>
    constructor
    · exact fun h => Or.inr (isValue_of_fits_optional h)
    · rintro (rfl | hvalue)
      · exact ha
      · exact fits_optional_of_isValue hvalue (ih.mpr (Or.inr hvalue))

end Arg

/-! ## Calls -/

namespace Simulation

variable {β : Type} {args : List Arg} {ps ps' : List TypeRef}

/-- Wherever the parameters differ the argument is a value. -/
def Spared : (args : List Arg) → (ps ps' : List TypeRef) → Prop
  | a :: args, t :: ps, t' :: ps' => (t' = t ∨ a.isValue = true) ∧ Spared args ps ps'
  | _, _, _ => True

theorem argsFit_cons_iff {a : Arg} {t : TypeRef} :
    argsFit (a :: args) (t :: ps) = true ↔ a.fits t = true ∧ argsFit args ps = true := by
  simp only [argsFit, List.length_cons, List.zip_cons_cons, List.all_cons, Bool.and_eq_true, beq_iff_eq,
    Nat.add_right_cancel_iff]
  tauto

theorem argsFit_wrapped (h : List.Forall₂ TypeRef.Wraps ps ps') (hargs : argsFit args ps = true) :
    argsFit args ps' = true ↔ Spared args ps ps' := by
  induction h generalizing args with
  | nil =>
    obtain rfl := argsFit_nil hargs
    exact iff_of_true hargs trivial
  | cons hwraps _ ih =>
    obtain ⟨a, rest, rfl, ha, hrest⟩ := argsFit_cons hargs
    rw [argsFit_cons_iff, Spared, Arg.fits_wrapped hwraps ha, ih hrest]

/-- The second entry is the first with parameters made optional. -/
structure Loosens (m m' : MethodKey × Binding β) : Prop where
  name : m'.1.name = m.1.name
  binding : m'.2 = m.2
  params : List.Forall₂ TypeRef.Wraps m.1.params m'.1.params

theorem loosened_of_mem {ms ms' : List (MethodKey × Binding β)} (h : List.Forall₂ Loosens ms ms')
    {m : MethodKey × Binding β} (hm : m ∈ ms) : ∃ m' ∈ ms', Loosens m m' := by
  induction h with
  | nil => cases hm
  | cons hloosens _ ih =>
    rcases List.mem_cons.mp hm with rfl | hm
    · exact ⟨_, List.mem_cons_self, hloosens⟩
    · obtain ⟨m', hm', hloosens⟩ := ih hm
      exact ⟨m', List.mem_cons_of_mem _ hm', hloosens⟩

theorem select_of_entry {t : MethodTable β} {name : String} {k : MethodKey} {b : Binding β}
    (hentry : (k, b) ∈ t.methods) (hname : k.name = name) (hargs : argsFit args k.params = true) :
    ∃ b', select t name args = .ok b' := by
  cases hselect : select t name args with
  | ok b' => exact ⟨b', rfl⟩
  | error error =>
    have hnone := (select_error_iff.mp hselect).1 (k, b) hentry hname
    rw [hargs] at hnone
    cases hnone

end Simulation

open Simulation

/-- What fits an optional type is the absent value and the values that fit the type. When parameters of
methods become optional, a method that took a call goes on to take it if and only if the arguments of
these parameters are values; otherwise the call fails, unless there are other methods of the name. -/
theorem optionals_widen_for_values {β : Type} :
    (∀ (a : Arg) (t : TypeRef), a.fits (.optional t) = true ↔
      a = .value none ∨ (∃ v, a = .value (some v)) ∧ a.fits t = true) ∧
    ∀ (t t' : MethodTable β) (name : String) (args : List Arg) (b : Binding β),
      List.Forall₂ Loosens t.methods t'.methods → select t name args = .ok b →
      ∃ k k', (k, b) ∈ t.methods ∧ (k', b) ∈ t'.methods ∧ Loosens (k, b) (k', b) ∧
        (argsFit args k'.params = true ↔ Spared args k.params k'.params) ∧
        (Spared args k.params k'.params → ∃ b', select t' name args = .ok b') ∧
        (¬Spared args k.params k'.params → (∀ m ∈ t'.methods, m.1.name = name → m.1 = k') →
          select t' name args = .error (.argumentMismatch t'.type name)) := by
  refine ⟨fun a t => Arg.fits_optional, fun t t' name args b hloosens hb => ?_⟩
  obtain ⟨k, hentry, rfl, hargs⟩ := entry_of_select hb
  obtain ⟨⟨k', b'⟩, hentry', hentries⟩ := loosened_of_mem hloosens hentry
  obtain rfl : b' = b := hentries.binding
  have hname : k'.name = k.name := hentries.name
  have hwrapped : argsFit args k'.params = true ↔ Spared args k.params k'.params :=
    argsFit_wrapped hentries.params hargs
  refine ⟨k, k', hentry, hentry', hentries, hwrapped, ?_, ?_⟩
  · exact fun hspared => select_of_entry hentry' hname (hwrapped.mpr hspared)
  · intro hlost hone
    refine select_argumentMismatch_iff.mpr ⟨⟨_, hentry', hname⟩, fun m hm hmname => ?_⟩
    rw [hone m hm hmname]
    exact Bool.eq_false_iff.mpr fun hfits => hlost (hwrapped.mp hfits)

/-- A door opens to a password or a key. -/
def door (opener : TypeRef) : TypeDecl Unit where
  name := "door"
  methods := [{ name := "open", params := [opener], body := some () }]

def doors (opener : TypeRef) : TypeRegistry Unit := { decls := [("door", door opener)] }

def opening (opener : TypeRef) : MethodTable Unit :=
  ⟨"door", [], [(⟨"open", [opener]⟩, .defaultMethod ())]⟩

theorem opening_loosens (opener : TypeRef) :
    List.Forall₂ Loosens (opening opener).methods (opening (.optional opener)).methods :=
  .cons ⟨rfl, rfl, .cons (.optional (.same opener)) .nil⟩ .nil

theorem door_goes_on_to_take_passwords :
    ∃ b, select (opening (.optional (.value .string))) "open" [.value (some (.string "sesame"))] = .ok b := by
  obtain ⟨k, k', hentry, hentry', -, -, hspared, -⟩ := optionals_widen_for_values.2
    (opening (.value .string)) (opening (.optional (.value .string))) "open"
    [.value (some (.string "sesame"))] (.defaultMethod ()) (opening_loosens _) rfl
  cases List.mem_singleton.mp hentry
  cases List.mem_singleton.mp hentry'
  exact hspared ⟨Or.inr rfl, trivial⟩

/-- An identifier and a container fit their types, and do not fit the optional ones. A door that opened
to a key does not open to it when the key has become optional. -/
theorem door_loses_its_key :
    let key : EntityId := .chosen (.ofNat 0x11111111222243338444555555555555)
    (Arg.id key).fits .id = true ∧ (Arg.id key).fits (.optional .id) = false ∧
    (Arg.container (.standalone 0)).fits .container = true ∧
    (Arg.container (.standalone 0)).fits (.optional .container) = false ∧
    (doors .id).Reached ∧ (doors (.optional .id)).Reached ∧
    ((doors .id).resolve "door").1 = .ok (opening .id) ∧
    ((doors (.optional .id)).resolve "door").1 = .ok (opening (.optional .id)) ∧
    select (opening .id) "open" [.id key] = .ok (.defaultMethod ()) ∧
    select (opening (.optional .id)) "open" [.id key] = .error (.argumentMismatch "door" "open") := by
  have hreached : ∀ opener, (doors opener).Reached := fun opener => .single (.register (d := door opener) rfl)
  exact ⟨rfl, rfl, rfl, rfl, hreached _, hreached _, rfl, rfl, rfl, rfl⟩

end Vivarium
