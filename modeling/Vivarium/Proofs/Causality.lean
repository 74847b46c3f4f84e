import Vivarium.Proofs.Delivery

/-! # In what order listeners are told

A listener is told of a creation while the entity is alive, and before it is told that the entity was
killed, unless the entity died in the turn of a listener who was told before. Between the programs of a
run listeners may be attached and detached.
-/

namespace Vivarium

namespace Simulation

variable {μ : Type} {nb : Notebook μ Report} {s s' : Simulation (Code μ) μ}

/-- Programs that create and kill, one after the other, and between them listeners that are attached
and detached. -/
inductive Course (nb : Notebook μ Report) (s : Simulation (Code μ) μ) : Simulation (Code μ) μ → Prop
  | start : Course nb s s
  | run {u u' : Simulation (Code μ) μ} {n : Nat} {r : Role} {p : Program μ r} {a : r.Answer}
    (h : Course nb s u) (hp : p.Keeps Request.lives nb) (hact : execute n p u = .ok (a, u')) :
    Course nb s u'
  | attach {u : Simulation (Code μ) μ} (h : Course nb s u) (p : EntityRef) {l : Listener (Code μ)}
    (hl : nb.Attends l) : Course nb s { u with forest := (u.forest.subscribe p l).2 }
  | detach {u : Simulation (Code μ) μ} (h : Course nb s u) (p : EntityRef) (id : ListenerId) :
    Course nb s { u with forest := (u.forest.unsubscribe p id).2 }

theorem Lived.ready (hs : s.Lived) (hattended : s.forest.Attended nb.Attends) : s.Ready nb :=
  ⟨hattended, hs.ascending⟩

theorem Ready.subscribe (h : s.Ready nb) (p : EntityRef) {l : Listener (Code μ)} (hl : nb.Attends l) :
    Ready nb { s with forest := (s.forest.subscribe p l).2 } := by
  have ht : s.Touch (fun _ => True) { s with forest := (s.forest.subscribe p l).2 } := .subscribe p l
  exact ⟨h.attended.subscribe p hl, ht.ascending h.ascending⟩

theorem Ready.unsubscribe (h : s.Ready nb) (p : EntityRef) (id : ListenerId) :
    Ready nb { s with forest := (s.forest.unsubscribe p id).2 } := by
  have ht : s.Touch (fun _ => True) { s with forest := (s.forest.unsubscribe p id).2 } := .unsubscribe p id
  exact ⟨h.attended.unsubscribe p id, ht.ascending h.ascending⟩

namespace Course

theorem lived (h : Course nb s s') (hs : s.Lived) : s'.Lived := by
  induction h with
  | start => exact hs
  | run _ _ hact ih => exact ih.run hact
  | @attach u _ p l _ ih =>
    exact ih.run (n := 0) (r := .listener) (p := .subscribe p l.id l.code fun _ => .done ()) rfl
  | @detach u _ p id ih =>
    exact ih.run (n := 0) (r := .listener) (p := .request (.unsubscribe p id) fun _ => .done ()) rfl

/-- What is told in the course of a run is true, and of creations only those of the run are told. -/
theorem told (h : Course nb s s') (hs : s.Ready nb) : s'.Ready nb ∧
    ∃ rs, nb.heard s'.memory = nb.heard s.memory ++ rs ∧ s.forest.Witnesses s'.forest rs ∧
      ∀ r ∈ rs, ∀ x, r.event = .created x → s.forest.size ≤ x.index := by
  induction h with
  | start => exact ⟨hs, [], (List.append_nil _).symm, .nothing (.refl _), by simp⟩
  | run _ hp hact ih =>
    obtain ⟨hu, rs, hheard, htruth, hfresh⟩ := ih
    obtain ⟨hu', rs', hheard', hrs'⟩ := execute_delivers hp _ hu _ _ hact
    refine ⟨hu', rs ++ rs', ?_, htruth.append hrs'.truth, ?_⟩
    · rw [hheard', hheard, List.append_assoc]
    · intro r hr x hx
      rcases List.mem_append.mp hr with hr | hr
      · exact hfresh r hr x hx
      · exact Nat.le_trans htruth.grows.size (hrs'.relays.fresh r hr x hx)
  | attach _ p hl ih =>
    obtain ⟨hu, rs, hheard, htruth, hfresh⟩ := ih
    refine ⟨hu.subscribe p hl, rs, hheard, ?_, hfresh⟩
    exact htruth.sameTree (Forest.SameWork.relisten p _ _).toSameTree
  | detach _ p id ih =>
    obtain ⟨hu, rs, hheard, htruth, hfresh⟩ := ih
    refine ⟨hu.unsubscribe p id, rs, hheard, ?_, hfresh⟩
    exact htruth.sameTree (Forest.SameWork.relisten p _ _).toSameTree

end Course

end Simulation

open Simulation

/-- Each listener who is attached to a container when an entity is created in it is told of the creation
exactly once, in the order in which they were attached: while the entity is alive and before anybody is
told that it was killed, unless it died in the turn of a listener who was told before. -/
theorem creation_is_told_before_killing {μ : Type} {nb : Notebook μ Report}
    {s u u' s' : Simulation (Code μ) μ} {n : Nat} {r : Role} {p : Program μ r} {a : r.Answer}
    (hs : s.Lived) (hattended : s.forest.Attended nb.Attends) (hbefore : Course nb s u)
    (hp : p.Keeps Request.lives nb) (hact : execute n p u = .ok (a, u')) (hafter : Course nb u' s') :
    ∃ rs, nb.heard s'.memory = nb.heard s.memory ++ rs ∧
      ∀ x, u.forest.size ≤ x.index → x.index < u'.forest.size →
        ∃ container, s'.forest.parent? x = some container ∧
          ((u.forest.entity container).listeners.map (·.id)).Nodup ∧
          Heralded x ((u.forest.entity container).listeners.map (·.id)) rs := by
  obtain ⟨hu, rs₁, hheard₁, htruth₁, -⟩ := hbefore.told (hs.ready hattended)
  obtain ⟨hu', rs₂, hheard₂, hrs₂⟩ := execute_delivers hp u hu a u' hact
  obtain ⟨-, rs₃, hheard₃, htruth₃, hfresh₃⟩ := hafter.told hu'
  refine ⟨rs₁ ++ (rs₂ ++ rs₃), ?_, ?_⟩
  · rw [hheard₃, hheard₂, hheard₁, List.append_assoc, List.append_assoc]
  · intro x hnew hmade
    obtain ⟨container, hparent, hrelay⟩ := hrs₂.relays.whole x hnew hmade
    refine ⟨container, (htruth₃.grows.parent x hmade).trans hparent,
      (hbefore.lived hs).apart.containers container, ?_⟩
    apply (htruth₁.append (hrs₂.truth.append htruth₃)).heralded
    -- Before it was made and after the program was run nobody is told of its creation.
    have hnone₁ : rs₁.filter (Report.heralds x) = [] := by
      apply List.filter_eq_nil_iff.mpr
      intro r hr htold
      have hlt := htruth₁.made r hr
      rw [Report.ref_of_heralds htold] at hlt
      omega
    have hnone₃ : rs₃.filter (Report.heralds x) = [] := by
      apply List.filter_eq_nil_iff.mpr
      intro r hr htold
      have hle := hfresh₃ r hr x (Report.heralds_iff.mp htold)
      omega
    rw [List.filter_append, List.filter_append, hnone₁, hnone₃, List.nil_append, List.append_nil,
      ← hrs₂.listeners]
    exact hrelay

/-! ## A listener who kills whoever comes -/

/-- Code of a listener that does as `p` says between its notes. -/
def attending (l : ListenerId) (p : EntityEvent → Program (List Report) .listener) :
    Listener (Code (List Report)) where
  id := l
  code := .ofEntityListener fun event => ((Notebook.plain Report).look .told l event).andThen fun _ =>
    (p event).andThen fun _ => (Notebook.plain Report).look .done l event

theorem attends_attending {p : EntityEvent → Program (List Report) .listener}
    (hp : ∀ event, (p event).Keeps Request.lives (.plain Report)) (l : ListenerId) :
    (Notebook.plain Report).Attends (attending l p) := fun event => ⟨p event, hp event, rfl⟩

def reaper : Listener (Code (List Report)) :=
  attending ⟨1⟩ fun
    | .created e => .request (.kill e) fun _ => .done ()
    | .killed _ => .done ()

def onlooker : Listener (Code (List Report)) := attending ⟨2⟩ fun _ => .done ()

/-- Both listen to the root, the reaper first. -/
def beset : Simulation (Code (List Report)) (List Report) :=
  { unheard Report with
    forest := (((unheard Report).forest.subscribe Forest.root reaper).2.subscribe Forest.root onlooker).2 }

def newcomer : Program (List Report) .listener :=
  .request (.create Forest.root none none) fun _ => .done ()

theorem beset_course : Course (.plain Report) (unheard Report) beset := by
  have hreaper : (Notebook.plain Report).Attends reaper := by
    apply attends_attending
    rintro (e | e)
    · exact ⟨rfl, fun _ => trivial⟩
    · trivial
  have honlooker : (Notebook.plain Report).Attends onlooker := by
    apply attends_attending
    intro _
    trivial
  exact (Course.attach .start Forest.root hreaper).attach Forest.root honlooker

theorem newcomer_lives : newcomer.Keeps Request.lives (.plain Report) := ⟨rfl, fun _ => trivial⟩

theorem beset_listeners : (beset.forest.entity Forest.root).listeners.map (·.id) = [⟨1⟩, ⟨2⟩] := rfl

theorem killing_may_be_told_before_creation : beset.Lived ∧ beset.forest.Listens ⟨2⟩ Forest.root ∧
    ∃ a s', execute 4 newcomer beset = .ok (a, s') ∧ s'.forest.parent? ⟨1⟩ = some Forest.root ∧
      s'.memory.filter (fun r => r.listener = ⟨2⟩ ∧ r.stage = .told) =
        [⟨.told, ⟨2⟩, .killed ⟨1⟩, false, []⟩, ⟨.told, ⟨2⟩, .created ⟨1⟩, false, []⟩] := by
  obtain ⟨a, s', hact, hholds⟩ := endsWith_iff.mp (show endsWith (execute 4 newcomer) beset
    (fun _ s => s.forest.parent? ⟨1⟩ == some Forest.root &&
      s.memory.filter (fun r => r.listener = ⟨2⟩ ∧ r.stage = .told) ==
        [⟨.told, ⟨2⟩, .killed ⟨1⟩, false, []⟩, ⟨.told, ⟨2⟩, .created ⟨1⟩, false, []⟩]) = true by
    decide +kernel)
  rw [Bool.and_eq_true, beq_iff_eq, beq_iff_eq] at hholds
  refine ⟨beset_course.lived (unheard_lived _), ?_, a, s', hact, hholds⟩
  rw [Forest.Listens, beset_listeners]
  decide

theorem arrival_is_heralded : ∃ s' : Simulation (Code (List Report)) (List Report),
    (∃ a, execute 4 newcomer beset = .ok (a, s')) ∧ Heralded ⟨1⟩ [⟨1⟩, ⟨2⟩] s'.memory := by
  obtain ⟨a, s', hact, hholds⟩ := endsWith_iff.mp (show endsWith (execute 4 newcomer) beset
    (fun _ s => s.forest.size == 2 && s.forest.parent? ⟨1⟩ == some Forest.root) = true by decide +kernel)
  rw [Bool.and_eq_true, beq_iff_eq, beq_iff_eq] at hholds
  obtain ⟨hsize, hparent⟩ := hholds
  obtain ⟨rs, hheard, htold⟩ := creation_is_told_before_killing (unheard_lived _)
    (.of_none (by decide +kernel)) beset_course newcomer_lives hact .start
  obtain ⟨container, hcontainer, -, hheralded⟩ := htold ⟨1⟩ (by decide) (by rw [hsize]; decide)
  obtain rfl := Option.some.inj (hparent.symm.trans hcontainer)
  rw [beset_listeners] at hheralded
  obtain rfl : s'.memory = rs := hheard
  exact ⟨s', ⟨a, hact⟩, hheralded⟩

end Vivarium
