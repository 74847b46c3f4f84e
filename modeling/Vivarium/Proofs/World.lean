import Mathlib.Logic.Relation
import Vivarium.Proofs.Fading
import Vivarium.Proofs.Rooted
import Vivarium.Simulation.State

/-! # The machine of an engine and a tree

An engine and a tree with what is under way in them: who is still to die, which turns are to come and
which bodies are running. Bodies and listeners are not interpreted: between any two steps any others
may come, so the runs of the machine are those for every choice of code. Whoever is to die is on a
stack, on which every killing begins anew.
-/

namespace Vivarium

namespace Forest

variable {β : Type}

/-- Gives an entity other tasks. -/
def retask (e : EntityRef) (tasks : TaskTracker) (f : Forest β) : Forest β :=
  f.modify e fun x => { x with tasks }

theorem SameTree.retask (e : EntityRef) (tasks : TaskTracker) (f : Forest β) :
    SameTree f (f.retask e tasks) :=
  ⟨size_modify e _ f, rfl, fun _ => field_modify (·.id) fun _ => rfl,
    fun _ => field_modify (·.parent) fun _ => rfl, fun _ => field_modify (·.alive) fun _ => rfl,
    fun _ => field_modify (·.children) fun _ => rfl⟩

theorem SameTree.rebind (bound : Bool) (f : Forest β) : SameTree f { f with bound } :=
  ⟨rfl, rfl, fun _ => rfl, fun _ => rfl, fun _ => rfl, fun _ => rfl⟩

end Forest

/-- What kind of step is taken: one of a killing, one that binds an engine or no engine to the root, or
another one. -/
inductive Deed
  | death
  | bind (bound : Bool)
  | other
  deriving DecidableEq

structure World (β : Type) where
  engine : Engine (Job β)
  forest : Forest β
  /-- Those who are to die, the next one first, each with whether its tasks are to be cancelled. -/
  doomed : List (EntityRef × Bool) := []
  /-- The launched tasks whose turns are to come. -/
  ahead : List (Task (Job β)) := []
  /-- The tasks whose bodies are running, the innermost first. -/
  bodies : List (Task (Job β)) := []
  /-- The bodies that were started, in order. -/
  begun : List TaskId := []
  /-- Through whom a task was scheduled. -/
  owners : List (TaskId × EntityRef) := []
  /-- The tasks that an entity has forgotten and not cancelled, as no engine was bound. -/
  released : List (TaskId × EntityRef) := []

namespace World

variable {β : Type}

def tracker (e : EntityRef) (w : World β) : TaskTracker := (w.forest.entity e).tasks

/-- The launched tasks whose turns have not ended. -/
def turns (w : World β) : List (Task (Job β)) := w.ahead ++ w.bodies

/-- No operation on entities is in progress. -/
def Calm (w : World β) : Prop := w.doomed = []

inductive Step (w : World β) : Deed → World β → Prop
  | engine {e : Engine (Job β)} (he : w.engine.Stays e) : Step w .other { w with engine := e }
  | schedule {job : Job β} {delay period : Nat} {id : TaskId} {e : Engine (Job β)}
    (he : w.engine.schedule job delay period = .ok (id, e)) : Step w .other { w with engine := e }
  | cancel (id : TaskId) : Step w .other { w with engine := (w.engine.cancel id).2 }
  | stop : Step w .other { w with engine := w.engine.stop.2 }
  | launch (bound : Nat) : Step w .other { w with
      engine := (w.engine.launch bound).2, ahead := (w.engine.launch bound).1 ++ w.ahead }
  | start {t : Task (Job β)} {rest : List (Task (Job β))} (ht : w.ahead = t :: rest)
    (hf : w.engine.isFlagged t.id = false) : Step w .other { w with
      ahead := rest, bodies := t :: w.bodies, begun := w.begun ++ [t.id] }
  | skip {t : Task (Job β)} {rest : List (Task (Job β))} (ht : w.ahead = t :: rest)
    (hf : w.engine.isFlagged t.id = true) : Step w .other { w with
      engine := w.engine.complete t, ahead := rest }
  | finish {t : Task (Job β)} {rest : List (Task (Job β))} (ht : w.bodies = t :: rest) :
    Step w .other { w with engine := w.engine.complete t, bodies := rest }
  | dress {f : Forest β} (hf : w.forest.SameWork f) : Step w .other { w with forest := f }
  | create {p : EntityRef} {x : Entity β} (hp : w.forest.isAlive p = true)
    (hfresh : w.forest.child? p x.id = none)
    (hroom : ∀ limit, w.forest.limitOf p = some limit → (w.forest.children p).length < limit)
    (halive : x.alive = true) (hbare : x.children = []) (hidle : x.tasks = {}) :
    Step w .other { w with forest := (w.forest.insertChild p x).2 }
  | cut {p c : EntityRef} (hc : c ∈ w.forest.children p) : Step w .death { w with
      forest := w.forest.removeChild p c, doomed := (c, w.forest.bound) :: w.doomed }
  | uproot : Step w .death { w with
      doomed := (Forest.root, w.forest.bound) :: w.doomed }
  | fall {e : EntityRef} {bound : Bool} {rest : List (EntityRef × Bool)}
    (hd : w.doomed = (e, bound) :: rest) (he : w.forest.isAlive e = true) : Step w .death { w with
      engine := if bound then (w.engine.cancelAll (w.tracker e).ids).2 else w.engine
      forest := w.forest.fell e bound
      doomed := (w.forest.children e).map (·, bound) ++ rest
      released := if bound then w.released else w.released ++ (w.tracker e).ids.map (·, e) }
  | spare {e : EntityRef} {bound : Bool} {rest : List (EntityRef × Bool)}
    (hd : w.doomed = (e, bound) :: rest) (he : w.forest.isAlive e = false) :
    Step w .death { w with doomed := rest }
  | bind (bound : Bool) : Step w (.bind bound) { w with forest := { w.forest with bound } }
  | entrust {e : EntityRef} {job : Job β} {delay period : Nat} {id : TaskId} {engine : Engine (Job β)}
    (hlive : w.forest.isAlive e = true) (hb : w.forest.bound = true)
    (he : w.engine.schedule job delay period = .ok (id, engine)) : Step w .other { w with
      engine
      forest := w.forest.retask e ((w.tracker e).trackPruned (engine.isActive ·) id)
      owners := w.owners ++ [(id, e)] }
  | withdraw {e : EntityRef} {id : TaskId} (ht : id ∈ (w.tracker e).ids) : Step w .other { w with
      engine := if w.forest.bound then (w.engine.cancel id).2 else w.engine
      forest := w.forest.retask e ((w.tracker e).untrack id)
      released := if w.forest.bound then w.released else w.released ++ [(id, e)] }
  | withdrawAll (e : EntityRef) (hb : w.forest.bound = true) : Step w .other { w with
      engine := (w.engine.cancelAll (w.tracker e).ids).2, forest := w.forest.retask e {} }

/-- Goes on by steps of these kinds. -/
def Reaches (ok : Deed → Prop) : World β → World β → Prop :=
  Relation.ReflTransGen fun w w' => ∃ d, ok d ∧ w.Step d w'

/-- A new engine and a lone root. -/
def Begins (bound : Bool) (w : World β) : Prop :=
  ∃ config e limit, Engine.create config = .ok e ∧
    w = { engine := e, forest := Forest.create bound limit }

def Reachable (w : World β) : Prop :=
  ∃ (bound : Bool) (w₀ : World β), w₀.Begins bound ∧ w₀.Reaches (fun _ => True) w

/-- As `Reachable`, where an engine is bound to the root all the time. -/
def ReachableBound (w : World β) : Prop :=
  ∃ w₀ : World β, w₀.Begins true ∧ w₀.Reaches (· ≠ .bind false) w

variable {w w' w'' : World β} {d : Deed} {ok : Deed → Prop}

theorem Reaches.single (hok : ok d) (hs : w.Step d w') : w.Reaches ok w' :=
  Relation.ReflTransGen.single ⟨d, hok, hs⟩

theorem Step.then {P : World β → Prop} (hs : w.Step d w') (hok : ok d)
    (h : ∃ w'', w'.Reaches ok w'' ∧ P w'') : ∃ w'', w.Reaches ok w'' ∧ P w'' := by
  obtain ⟨w'', hr, hp⟩ := h
  exact ⟨w'', .head ⟨d, hok, hs⟩ hr, hp⟩

theorem Reaches.then {P Q : World β → Prop} (h : ∃ w', w.Reaches ok w' ∧ P w')
    (hn : ∀ w', P w' → ∃ w'', w'.Reaches ok w'' ∧ Q w'') : ∃ w'', w.Reaches ok w'' ∧ Q w'' := by
  obtain ⟨w', hr, hp⟩ := h
  obtain ⟨w'', hr', hq⟩ := hn w' hp
  exact ⟨w'', hr.trans hr', hq⟩

theorem Reaches.mono {ok' : Deed → Prop} (h : w.Reaches ok w') (hok : ∀ d, ok d → ok' d) :
    w.Reaches ok' w' := by
  refine Relation.ReflTransGen.mono ?_ _ _ h
  rintro _ _ ⟨d, hd, hs⟩
  exact ⟨d, hok d hd, hs⟩

theorem Reachable.reaches (h : w.Reachable) (hr : w.Reaches ok w') : w'.Reachable := by
  obtain ⟨bound, w₀, hw₀, hr₀⟩ := h
  exact ⟨bound, w₀, hw₀, hr₀.trans (hr.mono fun _ _ => trivial)⟩

theorem ReachableBound.reaches (h : w.ReachableBound) (hr : w.Reaches ok w')
    (hok : ∀ d, ok d → d ≠ .bind false) : w'.ReachableBound := by
  obtain ⟨w₀, hw₀, hr₀⟩ := h
  exact ⟨w₀, hw₀, hr₀.trans (hr.mono hok)⟩

theorem ReachableBound.reachable (h : w.ReachableBound) : w.Reachable := by
  obtain ⟨w₀, hw₀, hr₀⟩ := h
  exact ⟨true, w₀, hw₀, hr₀.mono fun _ _ => trivial⟩

/-! ## What no step breaks -/

/-- The books of the engine are in order, the tree is one but for the doomed, and every turn that has
not ended is that of a task in flight, or of one that a stop has flagged. -/
structure Sound (w : World β) : Prop where
  tidy : w.engine.Tidy
  rooted : w.forest.Rooted (w.doomed.map (·.1))
  apart : (w.turns.map (·.id)).Nodup
  flight : ∀ t ∈ w.turns, t.id ∈ Entries.keys w.engine.inFlight ∨
    w.engine.isFlagged t.id = true ∧ w.engine.state = .stopped

namespace Sound

theorem initial {bound : Bool} (h : w.Begins bound) : w.Sound := by
  obtain ⟨config, e, limit, he, rfl⟩ := h
  exact ⟨.create he, .create bound limit, List.nodup_nil, by rintro _ ⟨⟩⟩

theorem tree (h : w.Sound) {f : Forest β} (hf : f.Rooted (w.doomed.map (·.1))) :
    Sound { w with forest := f } := ⟨h.tidy, hf, h.apart, h.flight⟩

/-- A change of the engine that leaves the flight alone. -/
theorem calls (h : w.Sound) {e : Engine (Job β)} (htidy : e.Tidy)
    (hfly : e.inFlight = w.engine.inFlight)
    (hflag : ∀ id, w.engine.isFlagged id = true → e.isFlagged id = true)
    (hstop : w.engine.state = .stopped → e.state = .stopped) : Sound { w with engine := e } := by
  refine ⟨htidy, h.rooted, h.apart, fun t ht => ?_⟩
  change t.id ∈ Entries.keys e.inFlight ∨ _
  rw [hfly]
  exact (h.flight t ht).imp_right fun hs => ⟨hflag t.id hs.1, hstop hs.2⟩

theorem control (h : w.Sound) {e : Engine (Job β)} (htidy : e.Tidy) (hc : w.engine.SameControl e) :
    Sound { w with engine := e } :=
  h.calls htidy hc.inFlight hc.flagged fun hs => hc.state.trans hs

theorem schedule (h : w.Sound) {job : Job β} {delay period : Nat} {id : TaskId} {e : Engine (Job β)}
    (he : w.engine.schedule job delay period = .ok (id, e)) : Sound { w with engine := e } := by
  obtain ⟨-, -, htidy, -, -⟩ := h.tidy.schedule he
  have hc := Engine.SameControl.effect (a := .schedule job delay period) rfl w.engine
  simp only [EngineCall.effect, he] at hc
  exact h.control htidy hc

theorem stop (h : w.Sound) : Sound { w with engine := w.engine.stop.2 } := by
  obtain ⟨htidy, -⟩ := h.tidy.stop
  by_cases hs : w.engine.state = .stopped
  · rw [Engine.stop_of_stopped hs] at htidy ⊢
    exact h.calls htidy rfl (fun _ hf => hf) fun hs => hs
  · refine ⟨htidy, h.rooted, h.apart, fun t ht => Or.inr ?_⟩
    rw [(Engine.stop_of_live hs).2]
    refine ⟨Engine.isFlagged_iff.mpr (Distinct.mem_addAll.mpr ?_), rfl⟩
    exact (h.flight t ht).elim Or.inr fun hf => absurd hf.2 hs

theorem launch (h : w.Sound) (bound : Nat) : Sound { w with
    engine := (w.engine.launch bound).2, ahead := (w.engine.launch bound).1 ++ w.ahead } := by
  obtain ⟨hdue, heq⟩ := Engine.launch_eq h.tidy.queue h.tidy.nodup bound
  obtain ⟨htidy, -⟩ := h.tidy.launch bound
  have hqueued : ∀ t ∈ (w.engine.launch bound).1, t.id ∈ w.engine.queue.ids := by
    intro t ht
    rw [hdue] at ht
    exact List.mem_map.mpr ⟨t, (List.mem_filter.mp ht).1, rfl⟩
  refine ⟨htidy, h.rooted, ?_, fun t ht => ?_⟩
  · rw [turns, List.append_assoc, List.map_append]
    refine List.nodup_append.mpr ⟨?_, h.apart, ?_⟩
    · rw [hdue]
      exact (List.filter_sublist.map _).nodup h.tidy.queue.ids_nodup
    -- Whatever is launched was queued, so it is neither in flight nor left over from before a stop.
    · intro id hid _ hid' hsame
      obtain ⟨t, ht, rfl⟩ := List.mem_map.mp hid
      obtain ⟨u, hu, rfl⟩ := List.mem_map.mp hid'
      have hq := hqueued t ht
      rcases h.flight u hu with hfly | ⟨-, hs⟩
      · exact h.tidy.not_flying_of_queued hq (hsame ▸ hfly)
      · exact h.tidy.live_of_held (List.mem_append_left _ hq) hs
  · rw [turns, List.append_assoc] at ht
    rw [heq, Entries.keys, List.map_append]
    rcases List.mem_append.mp ht with ht | ht
    · rw [hdue] at ht
      exact Or.inl (List.mem_append_right _
        (List.mem_map.mpr ⟨(t.id, t), List.mem_map.mpr ⟨t, ht, rfl⟩, rfl⟩))
    · exact (h.flight t ht).imp_left (List.mem_append_left _)

theorem complete (h : w.Sound) {t : Task (Job β)} {ahead bodies : List (Task (Job β))}
    (hsplit : w.turns.Perm (t :: (ahead ++ bodies))) :
    Sound { w with engine := w.engine.complete t, ahead, bodies } := by
  obtain ⟨htidy, -⟩ := h.tidy.complete t
  have hapart := (hsplit.map (·.id)).nodup_iff.mp h.apart
  obtain ⟨hnot, hrest⟩ := List.nodup_cons.mp hapart
  refine ⟨htidy, h.rooted, hrest, fun u hu => ?_⟩
  have hne : u.id ≠ t.id := fun he => hnot (List.mem_map.mpr ⟨u, hu, he⟩)
  rw [Engine.complete_eq]
  refine (h.flight u (hsplit.mem_iff.mpr (List.mem_cons_of_mem _ hu))).imp_left fun hfly => ?_
  rw [Entries.keys_erase]
  exact List.mem_filter.mpr ⟨hfly, decide_eq_true hne⟩

theorem cancelAll (h : w.Sound) (ids : List TaskId) :
    Sound { w with engine := (w.engine.cancelAll ids).2 } := by
  induction ids generalizing w with
  | nil => exact h
  | cons id ids ih =>
    rw [Engine.cancelAll_cons]
    exact ih (h.control (h.tidy.cancel id).1 (.cancel id w.engine))

theorem step (h : w.Sound) (hs : w.Step d w') : w'.Sound := by
  cases hs with
  | engine he =>
    exact h.calls (h.tidy.stays he.toSameTasks) he.inFlight he.flagged he.stopped.mpr
  | schedule he => exact h.schedule he
  | cancel id => exact h.control (h.tidy.cancel id).1 (.cancel id w.engine)
  | stop => exact h.stop
  | launch bound => exact h.launch bound
  | @start t rest ht hf =>
    have hperm : w.turns.Perm (rest ++ t :: w.bodies) := by
      rw [turns, ht]
      exact List.perm_middle.symm
    refine ⟨h.tidy, h.rooted, (hperm.map _).nodup_iff.mp h.apart, fun u hu => ?_⟩
    exact h.flight u (hperm.mem_iff.mpr hu)
  | skip ht hf =>
    refine h.complete ?_
    rw [turns, ht]
    exact List.Perm.refl _
  | finish ht =>
    refine h.complete ?_
    rw [turns, ht]
    exact List.perm_middle
  | dress hf => exact h.tree (h.rooted.sameTree hf.toSameTree)
  | create hp hfresh hroom halive hbare _ => exact h.tree (h.rooted.insertChild hp hfresh hroom halive hbare)
  | cut hc => exact ⟨h.tidy, h.rooted.removeChild hc, h.apart, h.flight⟩
  | uproot => exact ⟨h.tidy, h.rooted.uproot, h.apart, h.flight⟩
  | @fall e bound rest hd he =>
    have hrooted := h.rooted
    rw [hd] at hrooted
    have hfell : (w.forest.fell e bound).Rooted
        (((w.forest.children e).map (·, bound) ++ rest).map (·.1)) := by
      rw [List.map_append, List.map_map, Function.comp_def, List.map_id']
      exact hrooted.fell bound
    cases bound with
    | false => exact ⟨h.tidy, hfell, h.apart, h.flight⟩
    | true =>
      obtain ⟨htidy, -, hapart, hflight⟩ := h.cancelAll (w.tracker e).ids
      exact ⟨htidy, hfell, hapart, hflight⟩
  | spare hd he =>
    have hrooted := h.rooted
    rw [hd] at hrooted
    exact ⟨h.tidy, hrooted.spare he, h.apart, h.flight⟩
  | bind bound => exact h.tree (h.rooted.sameTree (.rebind bound w.forest))
  | entrust hlive hb he =>
    obtain ⟨htidy, -, hapart, hflight⟩ := h.schedule he
    exact ⟨htidy, h.rooted.sameTree (.retask _ _ _), hapart, hflight⟩
  | withdraw ht =>
    split
    · obtain ⟨htidy, -, hapart, hflight⟩ := h.control (h.tidy.cancel _).1 (.cancel _ w.engine)
      exact ⟨htidy, h.rooted.sameTree (.retask _ _ _), hapart, hflight⟩
    · exact ⟨h.tidy, h.rooted.sameTree (.retask _ _ _), h.apart, h.flight⟩
  | withdrawAll e hb =>
    obtain ⟨htidy, -, hapart, hflight⟩ := h.cancelAll (w.tracker e).ids
    exact ⟨htidy, h.rooted.sameTree (.retask _ _ _), hapart, hflight⟩

theorem reaches (h : w.Sound) (hr : w.Reaches ok w') : w'.Sound := by
  induction hr with
  | refl => exact h
  | tail _ hs ih =>
    obtain ⟨d, -, hs⟩ := hs
    exact ih.step hs

end Sound

theorem Reachable.sound (h : w.Reachable) : w.Sound := by
  obtain ⟨_, _, hw₀, hr⟩ := h
  exact (Sound.initial hw₀).reaches hr

/-! ## What no step takes back -/

theorem Step.grows (hs : w.Step d w') : w.forest.Grows w'.forest := by
  cases hs with
  | dress hf => exact hf.toSameTree.grows
  | create hp => exact Forest.grows_insertChild (Forest.index_lt_of_isAlive hp) _
  | cut => exact Forest.grows_removeChild _ _ _
  | fall => exact Forest.grows_fell _ _ _
  | bind bound => exact (Forest.SameTree.rebind bound w.forest).grows
  | entrust | withdraw | withdrawAll => exact (Forest.SameTree.retask _ _ _).grows
  | _ => exact .refl _

theorem Reaches.grows (hr : w.Reaches ok w') : w.forest.Grows w'.forest := by
  induction hr with
  | refl => exact .refl _
  | tail _ hs ih =>
    obtain ⟨d, -, hs⟩ := hs
    exact ih.trans hs.grows

theorem Sound.fades_step (h : w.Sound) (hs : w.Step d w') : w.engine.Fades w'.engine := by
  cases hs with
  | engine he => exact he.fades
  | schedule he | entrust _ _ he => exact (h.tidy.schedule he).2.2.2.1
  | cancel id => exact (h.tidy.cancel id).2.1
  | stop => exact h.tidy.stop.2
  | launch bound => exact (h.tidy.launch bound).2
  | skip | finish => exact (h.tidy.complete _).2
  | withdrawAll => exact (h.tidy.cancelAll _).2.1
  | fall =>
    split
    · exact (h.tidy.cancelAll _).2.1
    · exact .refl _
  | withdraw =>
    split
    · exact (h.tidy.cancel _).2.1
    · exact .refl _
  | _ => exact .refl _

theorem Sound.fades (h : w.Sound) (hr : w.Reaches ok w') : w.engine.Fades w'.engine := by
  induction hr with
  | refl => exact .refl _
  | tail hr hs ih =>
    obtain ⟨d, -, hs⟩ := hs
    exact ih.trans ((h.reaches hr).fades_step hs)

/-- The body of a task begins only if the task is active. -/
theorem Sound.begins_active (h : w.Sound) (hs : w.Step d w') {id : TaskId}
    (hno : w.engine.isActive id = false) : w'.begun.count id = w.begun.count id := by
  cases hs with
  | @start t rest ht hf =>
    have hne : t.id ≠ id := by
      rintro rfl
      have hturn : t ∈ w.turns := by
        rw [turns, ht]
        exact List.mem_cons_self
      rcases h.flight t hturn with hfly | ⟨hflag, -⟩
      · rw [(Engine.isActive_iff h.tidy.queue).mpr (Or.inr ⟨hfly, hf⟩)] at hno
        cases hno
      · rw [hf] at hflag
        cases hflag
    rw [List.count_append, List.count_eq_zero.mpr fun hmem => hne (List.mem_singleton.mp hmem).symm,
      Nat.add_zero]
  | _ => rfl

/-- A task that is not active stays so, and its body never begins again. -/
theorem Sound.inactive_run (h : w.Sound) (hr : w.Reaches ok w') {id : TaskId}
    (hid : id.number < w.engine.nextTask) (hno : w.engine.isActive id = false) :
    w'.engine.isActive id = false ∧ w'.begun.count id = w.begun.count id := by
  refine ⟨(h.fades hr).inactive hid hno, ?_⟩
  induction hr with
  | refl => rfl
  | tail hr hs ih =>
    obtain ⟨d, -, hs⟩ := hs
    exact ((h.reaches hr).begins_active hs ((h.fades hr).inactive hid hno)).trans ih

end World

end Vivarium
