import Vivarium.Proofs.Recording
import Vivarium.Proofs.Tree

/-! # Namesakes

An entity is killed by its identifier, in its parent. The one who is there under the identifier is the
entity itself while it lives; when it is dead it may be another one, who was made since.
-/

namespace Vivarium

namespace Forest

variable {β : Type} {f : Forest β} {e c : EntityRef}

/-- The child of its parent that has the identifier of an entity. -/
def namesake? (e : EntityRef) (f : Forest β) : Option EntityRef :=
  (f.parent? e).bind fun p => f.child? p (f.idOf e)

theorem namesake?_eq_some (h : f.namesake? e = some c) :
    ∃ p, f.parent? e = some p ∧ f.child? p (f.idOf e) = some c := Option.bind_eq_some_iff.mp h

namespace Rooted

theorem namesake?_root {cut : List EntityRef} (h : f.Rooted cut) : f.namesake? root = none := by
  rw [namesake?, h.parentless]
  rfl

theorem namesake?_of_alive (h : f.Rooted []) (ha : f.isAlive e = true) (hne : e ≠ root) :
    f.namesake? e = some e := by
  obtain ⟨p, hp, -⟩ := h.older e ⟨hne, index_lt_of_isAlive ha⟩
  rw [namesake?, hp]
  exact (h.child?_of_alive ha hp).1

theorem namesake?_eq_self_iff (h : f.Rooted []) (hc : f.namesake? e = some c) :
    c = e ↔ f.isAlive e = true := by
  obtain ⟨p, hp, hchild⟩ := namesake?_eq_some hc
  constructor
  · rintro rfl
    exact (h.child p c (mem_of_child? hchild).1).2.1
  · intro ha
    have hself := (h.child?_of_alive ha hp).1
    exact Option.some.inj (hchild.symm.trans hself)

end Rooted

end Forest

namespace Simulation

variable {β μ : Type} {run : Run β μ} {s : Simulation β μ} {depth : Nat} {e c : EntityRef}

theorem kill_of_no_namesake (h : s.forest.namesake? e = none) : kill run depth e s = .ok (false, s) := by
  cases hp : s.forest.parent? e with
  | none => exact kill_of_parentless hp
  | some p =>
    rw [Forest.namesake?, hp] at h
    exact (kill_of_parent hp).trans (killEntity_of_none h)

end Simulation

open Simulation

/-- A killing through an entity reaches the living child of its parent that has its identifier. While
the entity lives that is the entity itself; for a dead one and for the root nothing happens unless
another entity has the identifier of the dead one by then. -/
theorem kill_reaches_the_namesake {μ : Type} {s : Simulation (Code μ) μ} (hs : s.Settled)
    (e : EntityRef) :
    (s.forest.isAlive e = true → e ≠ Forest.root → s.forest.namesake? e = some e) ∧
      s.forest.namesake? Forest.root = none ∧
      (s.forest.namesake? e = none → ∀ (run : Run (Code μ) μ) depth, kill run depth e s = .ok (false, s)) ∧
      ∀ c, s.forest.namesake? e = some c →
        s.forest.isAlive c = true ∧ (c = e ↔ s.forest.isAlive e = true) ∧
          (∀ n depth b s', kill (runCode n) depth e s = .ok (b, s') →
            b = true ∧ ∀ x, s'.forest.Within c x → s'.forest.isAlive x = false) ∧
          (∀ n depth b s', kill (sparing (runCode n)) depth e s = .ok (b, s') →
            kill (runCode n) depth e s = .ok (b, s') ∧ s.forest.Slain c s'.forest) ∧
          (∀ n depth, s.Recorded → s.forest.size ≤ depth →
            ∃ s', kill (runCode (n + 1)) depth e s = .ok (true, s') ∧ s.forest.Slain c s'.forest) := by
  have hquiet := hs.quiet
  have hrooted := hquiet.rooted
  refine ⟨hrooted.namesake?_of_alive, hrooted.namesake?_root, fun hnone run depth => ?_, fun c hc => ?_⟩
  · exact kill_of_no_namesake hnone
  · obtain ⟨p, hp, hchild⟩ := Forest.namesake?_eq_some hc
    refine ⟨(hrooted.child p c (Forest.mem_of_child? hchild).1).2.1, hrooted.namesake?_eq_self_iff hc,
      fun n depth b s' hact => ?_, fun n depth b s' hact => ?_, fun n depth hrec hdepth => ?_⟩
    · rw [kill_of_parent hp] at hact
      exact hquiet.killsExactly.dead n depth p _ c b s' hchild hact
    · have hsame := (Follows.kill (sparing_follows n) trivial depth e s b s' hact).1
      rw [kill_of_parent hp] at hact
      exact ⟨hsame, (hquiet.killsExactly.child n depth p _ c b s' hchild hact).2⟩
    · rw [kill_of_parent hp]
      exact (hrec.records n).killEntity hquiet hchild hdepth

/-- Makes an entity, kills it and makes another one under its identifier. -/
def succession : Program Unit .listener :=
  .request (.create Forest.root (some default) none) fun
    | .error _ => .done ()
    | .ok e => .request (.kill e) fun _ =>
      .request (.create Forest.root (some default) none) fun _ => .done ()

theorem succession_reaches : ∃ s, execute 4 succession (blank false) = .ok ((), s) ∧
    s.forest.isAlive ⟨1⟩ = false ∧ s.forest.namesake? ⟨1⟩ = some ⟨2⟩ ∧
    ∃ s', kill (runCode 1) 3 ⟨1⟩ s = .ok (true, s') ∧ s.forest.Slain ⟨2⟩ s'.forest := by
  obtain ⟨_, s, hact, hholds⟩ := endsWith_iff.mp (show endsWith (execute 4 succession) (blank false)
    (fun _ s => !s.forest.isAlive ⟨1⟩ && s.forest.namesake? ⟨1⟩ == some ⟨2⟩ && s.forest.size == 3 &&
      s.forest.entities.all (·.listeners.isEmpty)) = true by decide +kernel)
  simp only [Bool.and_eq_true, Bool.not_eq_true', beq_iff_eq] at hholds
  obtain ⟨⟨⟨hdead, hsame⟩, hsize⟩, hnone⟩ := hholds
  obtain ⟨-, -, -, hreaches⟩ := kill_reaches_the_namesake ((blank_new false).settled.after hact) ⟨1⟩
  obtain ⟨-, -, -, -, hends⟩ := hreaches ⟨2⟩ hsame
  exact ⟨s, hact, hdead, hsame, hends 0 3 (.of_none hnone) (Nat.le_of_eq hsize)⟩

/-- The handle of a dead entity kills the one who has its identifier now. -/
theorem dead_handle_may_kill_another : ∃ s s' : Simulation (Code Unit) Unit,
    execute 4 succession (blank false) = .ok ((), s) ∧
      s.forest.isAlive ⟨1⟩ = false ∧ s.forest.isAlive ⟨2⟩ = true ∧
      kill (runCode 1) 3 ⟨1⟩ s = .ok (true, s') ∧ s'.forest.isAlive ⟨2⟩ = false := by
  obtain ⟨_, s, hact, hholds⟩ := endsWith_iff.mp (show endsWith (execute 4 succession) (blank false)
    (fun _ s => !s.forest.isAlive ⟨1⟩ && s.forest.isAlive ⟨2⟩ &&
      endsWith (kill (runCode 1) 3 ⟨1⟩) s fun b s' => b && !s'.forest.isAlive ⟨2⟩) = true by decide +kernel)
  simp only [Bool.and_eq_true, Bool.not_eq_true', endsWith_iff] at hholds
  obtain ⟨⟨hdead, hlive⟩, b, s', hkill, rfl, hdead'⟩ := hholds
  exact ⟨s, s', hact, hdead, hlive, hkill, hdead'⟩

end Vivarium
