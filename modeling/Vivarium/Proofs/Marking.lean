import Vivarium.Proofs.Ancestry
import Vivarium.Proofs.Killing

/-! # What marking changes

A type is marked together with its ancestors, and unmarked together with the marked types that descend
from it. Nothing but the marks of the one entity changes, and nothing at all where it fails.
-/

namespace Vivarium

namespace Forest

variable {β : Type} {f : Forest β}

theorem modify_congr {e : EntityRef} {g h : Entity β → Entity β} (heq : g (f.entity e) = h (f.entity e)) :
    f.modify e g = f.modify e h := by
  have hentities : f.entities.modify e.index g = f.entities.modify e.index h := by
    apply Array.ext_getElem?
    intro i
    rw [Array.getElem?_modify, Array.getElem?_modify]
    split
    · next hi =>
      subst hi
      rw [entity, Array.getD_eq_getD_getElem?] at heq
      cases hx : f.entities[e.index]? with
      | none => rfl
      | some x =>
        rw [hx] at heq
        exact congrArg some heq
    · rfl
  rw [modify, hentities]
  rfl

end Forest

namespace Distinct

variable {α : Type} [DecidableEq α]

/-- Those that are not there yet come at the end, each once. -/
theorem addAll_eq_append (bs as : List α) : ∃ new, addAll bs as = as ++ new ∧ new.Nodup ∧
    ∀ a, a ∈ new ↔ a ∉ as ∧ a ∈ bs := by
  induction bs generalizing as with
  | nil => exact ⟨[], (List.append_nil as).symm, .nil, by simp⟩
  | cons b bs ih =>
    change ∃ new, addAll bs (add b as) = _ ∧ _
    by_cases hin : b ∈ as
    · obtain ⟨new, hnew, hnodup, hmem⟩ := ih as
      rw [add, if_pos hin]
      refine ⟨new, hnew, hnodup, fun a => ?_⟩
      rw [hmem, List.mem_cons]
      constructor
      · rintro ⟨hnot, ha⟩
        exact ⟨hnot, Or.inr ha⟩
      · rintro ⟨hnot, rfl | ha⟩
        · exact absurd hin hnot
        · exact ⟨hnot, ha⟩
    · obtain ⟨new, hnew, hnodup, hmem⟩ := ih (as ++ [b])
      rw [add, if_neg hin]
      refine ⟨b :: new, ?_, List.nodup_cons.mpr ⟨fun hb => ?_, hnodup⟩, fun a => ?_⟩
      · rw [hnew, List.append_assoc]
        rfl
      · exact ((hmem b).mp hb).1 (List.mem_append_right _ List.mem_cons_self)
      · rw [List.mem_cons, hmem, List.mem_append, List.mem_singleton, List.mem_cons]
        by_cases hab : a = b
        · simp [hab, hin]
        · simp [hab]

/-- Those of a list are removed for which `p` holds. -/
theorem foldl_remove (p : α → Bool) (bs as : List α) :
    bs.foldl (fun as b => if p b then remove b as else as) as =
      as.filter fun a => !(bs.contains a && p a) := by
  induction bs generalizing as with
  | nil => simp
  | cons b bs ih =>
    have hone : (if p b then remove b as else as) = as.filter fun a => !(a == b && p a) := by
      split
      · next hp =>
        apply List.filter_congr
        intro a _
        by_cases hab : a = b <;> simp_all
      · next hp =>
        symm
        apply List.filter_eq_self.mpr
        intro a _
        by_cases hab : a = b <;> simp_all
    rw [List.foldl_cons, ih, hone, List.filter_filter]
    apply List.filter_congr
    intro a _
    rw [List.contains_cons]
    cases p a <;> cases a == b <;> simp

theorem foldl_remove_remove (p : α → Bool) (b : α) (as : List α) :
    (remove b as).foldl (fun as a => if p a then remove a as else as) (remove b as) =
      as.filter fun a => a ≠ b ∧ p a = false := by
  rw [foldl_remove, remove, List.filter_filter]
  apply List.filter_congr
  intro a ha
  have hmem : (as.filter (· ≠ b)).contains a = decide (a ≠ b) := by
    rw [Bool.eq_iff_iff, List.contains_iff_mem, List.mem_filter]
    simp [ha]
  rw [hmem]
  by_cases hne : a = b
  · simp [hne]
  · simp [hne]

end Distinct

/-- Whether `type` is known to be an ancestor of `m`. -/
def TypeRegistry.descends {β : Type} (m type : TypeName) (r : TypeRegistry β) : Bool :=
  match r.ancestors m with
  | .ok as => as.contains type
  | .error _ => false

namespace Simulation

variable {β μ : Type} {s s' : Simulation β μ} {e : EntityRef} {type : TypeName}

def remark (e : EntityRef) (change : List TypeName → List TypeName) (s : Simulation β μ) :
    Simulation β μ :=
  { s with forest := s.forest.modify e fun x => { x with marks := change x.marks } }

def marksOf (e : EntityRef) (s : Simulation β μ) : List TypeName := (s.forest.entity e).marks

theorem remark_remark (e : EntityRef) (f g : List TypeName → List TypeName) (s : Simulation β μ) :
    (s.remark e f).remark e g = s.remark e fun ms => g (f ms) := by
  simp only [remark, Forest.modify_modify]

theorem remark_congr {f g : List TypeName → List TypeName} (h : f (s.marksOf e) = g (s.marksOf e)) :
    s.remark e f = s.remark e g := by
  have hforest : s.forest.modify e (fun x => { x with marks := f x.marks }) =
      s.forest.modify e fun x => { x with marks := g x.marks } := by
    apply Forest.modify_congr
    exact congrArg (fun ms => { s.forest.entity e with marks := ms }) h
  rw [remark, hforest]
  rfl

theorem remark_id (e : EntityRef) (s : Simulation β μ) : s.remark e id = s := by
  have hentities : s.forest.entities.modify e.index (fun x => { x with marks := id x.marks }) =
      s.forest.entities := by
    apply Array.ext_getElem?
    intro i
    rw [Array.getElem?_modify]
    split
    · cases s.forest.entities[i]? <;> rfl
    · rfl
  rw [remark, Forest.modify, hentities]

theorem marksOf_remark (he : e.index < s.forest.size) (change : List TypeName → List TypeName) :
    (s.remark e change).marksOf e = change (s.marksOf e) :=
  congrArg Entity.marks (Forest.entity_modify_self _ he)

theorem marksOf_remark_of_nil {change : List TypeName → List TypeName} (h : change [] = []) :
    (s.remark e change).marksOf e = change (s.marksOf e) := by
  by_cases he : e.index < s.forest.size
  · exact marksOf_remark he change
  · have hnone : ∀ s : Simulation β μ, s.forest.size ≤ e.index → s.marksOf e = [] := by
      intro s hs
      rw [marksOf, Forest.entity_of_size_le hs]
      rfl
    have hle := Nat.le_of_not_lt he
    rw [hnone s hle, h]
    exact hnone _ (by rwa [remark, Forest.size_modify])

theorem asked_of_eq {α : Type} {f : Simulation β μ → α} {a : α} (h : f s = a) :
    ask f s = .ok (a, s) := congrArg (fun a => Except.ok (a, s)) h

/-- A loop each turn of which changes the marks of one entity. -/
theorem remarkEach {r : TypeRegistry β} {body : TypeName → Act β μ (ForInStep PUnit)}
    (change : TypeName → List TypeName → List TypeName)
    (hbody : ∀ t (s : Simulation β μ), s.types = r → body t s = .ok (.yield ⟨⟩, s.remark e (change t)))
    (ts : List TypeName) (hs : s.types = r) : ForIn.forIn ts PUnit.unit (fun t _ => body t) s =
      .ok (⟨⟩, s.remark e fun ms => ts.foldl (fun ms t => change t ms) ms) := by
  induction ts generalizing s with
  | nil => exact congrArg (fun s => Except.ok (PUnit.unit, s)) (remark_id e s).symm
  | cons t ts ih =>
    rw [List.forIn_cons]
    refine (bind_of_ok (hbody t s hs)).trans ((ih (s := s.remark e (change t)) hs).trans ?_)
    rw [remark_remark]
    rfl

theorem markAsType_of_error {error : TypeError} (h : s.types.ancestors type = .error error) :
    markAsType e type s = .ok (.error error, s) := by
  unfold markAsType
  exact (bind_of_ok (asked_of_eq h)).trans rfl

theorem markAsType_of_ok {as : List TypeName} (h : s.types.ancestors type = .ok as) :
    markAsType e type s =
      .ok (.ok !s.forest.isMarked e type, s.remark e (Distinct.addAll (type :: as))) := by
  unfold markAsType
  refine (bind_of_ok (asked_of_eq h)).trans ((bind_of_ok rfl).trans ?_)
  refine (bind_of_ok (remarkEach Distinct.add (fun _ _ _ => rfl) as rfl)).trans ?_
  change Except.ok (_, (s.remark e (Distinct.add type)).remark e _) = _
  rw [remark_remark]
  rfl

theorem unmarkAsType_of_unknown (h : s.types.isRegistered type = false) :
    unmarkAsType e type s = .ok (.error (.unknownType type), s) := by
  unfold unmarkAsType
  exact (bind_of_ok (asked_of_eq (TypeRegistry.lookup_of_unknown h))).trans rfl

theorem unmarkAsType_of_known (h : s.types.isRegistered type = true) :
    unmarkAsType e type s = .ok (.ok (s.forest.isMarked e type),
      s.remark e (·.filter fun m => m ≠ type ∧ s.types.descends m type = false)) := by
  obtain ⟨d, hlookup, -⟩ := TypeRegistry.lookup_of_known h
  unfold unmarkAsType
  refine (bind_of_ok (asked_of_eq hlookup)).trans ?_
  refine (bind_of_ok rfl).trans ((bind_of_ok rfl).trans ?_)
  have hbody : ∀ m (s' : Simulation β μ), s'.types = s.types → (do
      let descends ← ask fun s => s.types.descends m type
      if descends then do
        let _ ← onForest (·.unmark e m)
        Pure.pure (ForInStep.yield PUnit.unit)
      else Pure.pure (ForInStep.yield PUnit.unit)) s' =
      .ok (.yield ⟨⟩, s'.remark e fun ms => if s.types.descends m type then Distinct.remove m ms else ms) := by
    intro m s' hs'
    refine (bind_of_ok (asked_of_eq (congrArg (TypeRegistry.descends m type) hs'))).trans ?_
    cases hd : s.types.descends m type with
    | true => rfl
    | false => exact congrArg (fun s => Except.ok (_, s)) (remark_id e s').symm
  have hloop := remarkEach _ hbody ((s.remark e (Distinct.remove type)).marksOf e)
    (rfl : (s.remark e (Distinct.remove type)).types = s.types)
  refine (bind_of_ok hloop).trans ?_
  change Except.ok (_, (s.remark e (Distinct.remove type)).remark e _) = _
  rw [remark_remark, marksOf_remark_of_nil rfl]
  refine congrArg (fun s => Except.ok (_, s)) (remark_congr ?_)
  exact Distinct.foldl_remove_remove (s.types.descends · type) type (s.marksOf e)

/-- Where marking ends, it has failed and changed nothing, or marked the type and its ancestors. -/
theorem markAsType_cases {a : Except TypeError Bool} (h : markAsType e type s = .ok (a, s')) :
    (∃ error, s.types.ancestors type = .error error ∧ a = .error error ∧ s' = s) ∨
      ∃ as, s.types.ancestors type = .ok as ∧ a = .ok !s.forest.isMarked e type ∧
        s' = s.remark e (Distinct.addAll (type :: as)) := by
  cases has : s.types.ancestors type with
  | error error =>
    rw [markAsType_of_error has] at h
    cases h
    exact Or.inl ⟨error, rfl, rfl, rfl⟩
  | ok as =>
    rw [markAsType_of_ok has] at h
    cases h
    exact Or.inr ⟨as, rfl, rfl, rfl⟩

theorem unmarkAsType_cases {a : Except TypeError Bool} (h : unmarkAsType e type s = .ok (a, s')) :
    (s.types.isRegistered type = false ∧ a = .error (.unknownType type) ∧ s' = s) ∨
      s.types.isRegistered type = true ∧ a = .ok (s.forest.isMarked e type) ∧
        s' = s.remark e (·.filter fun m => m ≠ type ∧ s.types.descends m type = false) := by
  cases hreg : s.types.isRegistered type with
  | false =>
    rw [unmarkAsType_of_unknown hreg] at h
    cases h
    exact Or.inl ⟨rfl, rfl, rfl⟩
  | true =>
    rw [unmarkAsType_of_known hreg] at h
    cases h
    exact Or.inr ⟨rfl, rfl, rfl⟩

theorem remarks_of_mark {a : Except TypeError Bool} (h : markAsType e type s = .ok (a, s')) :
    ∃ change, s' = s.remark e change := by
  rcases markAsType_cases h with ⟨_, -, -, rfl⟩ | ⟨_, -, -, hs'⟩
  · exact ⟨id, (remark_id e s').symm⟩
  · exact ⟨_, hs'⟩

theorem remarks_of_unmark {a : Except TypeError Bool} (h : unmarkAsType e type s = .ok (a, s')) :
    ∃ change, s' = s.remark e change := by
  rcases unmarkAsType_cases h with ⟨-, -, rfl⟩ | ⟨-, -, hs'⟩
  · exact ⟨id, (remark_id e s').symm⟩
  · exact ⟨_, hs'⟩

end Simulation

end Vivarium
