import Vivarium.Proofs.Recording
import Vivarium.Proofs.Tree

/-! # Tasks and their owners

A world that is bound to its engine throughout keeps every task with the entity through which it was
scheduled: while the task is active the entity lives and remembers it. So the tasks of the dead are
over, and a killing leaves the tasks of the others where they are.
-/

namespace Vivarium

namespace World

variable {β : Type} {w w' : World β} {d : Deed} {ok : Deed → Prop} {id : TaskId} {e : EntityRef}

/-- Through whom a task was scheduled is never forgotten. -/
theorem Step.owners (hs : w.Step d w') : ∀ p ∈ w.owners, p ∈ w'.owners := by
  intro p hp
  cases hs with
  | entrust => exact List.mem_append_left _ hp
  | _ => exact hp

theorem Reaches.owners (hr : w.Reaches ok w') : ∀ p ∈ w.owners, p ∈ w'.owners := by
  induction hr with
  | refl => exact fun _ hp => hp
  | tail _ hs ih =>
    obtain ⟨d, -, hs⟩ := hs
    exact fun p hp => hs.owners p (ih p hp)

/-- The task of one who is dead, or below one who is dead, is over: its body never begins again. -/
theorem ReachableBound.over (h : w.ReachableBound) (hid : (id, e) ∈ w.owners)
    (hdead : w.forest.isAlive e = false) (hr : w.Reaches ok w') :
    w'.engine.isActive id = false ∧ w'.begun.count id = w.begun.count id := by
  have hestate := h.reachable.estate
  refine h.reachable.sound.inactive_run hr (hestate.fresh _ hid) (Bool.eq_false_iff.mpr fun ha => ?_)
  rcases hestate.kept id e hid ha with hstays | hgone
  · rw [hstays.1] at hdead
    cases hdead
  · rw [h.bound.released] at hgone
    cases hgone

theorem Step.of_death (hs : w.Step .death w') :
    w'.owners = w.owners ∧ w'.forest.size = w.forest.size := by
  cases hs with
  | cut => exact ⟨rfl, Forest.size_removeChild _ _ _⟩
  | fall => exact ⟨rfl, Forest.size_modify _ _ _⟩
  | uproot | spare => exact ⟨rfl, rfl⟩

theorem Reaches.of_death (hr : w.Reaches (· = .death) w') :
    w'.owners = w.owners ∧ w'.forest.size = w.forest.size := by
  induction hr with
  | refl => exact ⟨rfl, rfl⟩
  | tail _ hs ih =>
    obtain ⟨_, rfl, hs⟩ := hs
    exact ⟨hs.of_death.1.trans ih.1, hs.of_death.2.trans ih.2⟩

def Survives (w w' : World β) (id : TaskId) : Prop :=
  ∀ e, (id, e) ∈ w.owners → w.forest.isAlive e = true → w'.forest.isAlive e = true

/-- Killings leave the tasks of the survivors alone. -/
theorem Sound.deaths_leave (hsound : w.Sound) (hestate : w.Estate) (hr : w.Reaches (· = .death) w')
    {kept : TaskId → Prop} (hkept : ∀ id, kept id → w.Survives w' id) :
    w.engine.Leaves kept w'.engine := by
  induction hr with
  | refl => exact .refl _
  | @tail w₁ w₂ hr hs ih =>
    obtain ⟨_, rfl, hs⟩ := hs
    obtain ⟨howners, hsize⟩ := Reaches.of_death hr
    have hgrows := Reaches.grows hr
    have hlives : ∀ id, kept id → w.Survives w₁ id := fun id hid e he ha =>
      hs.grows.alive e (Nat.lt_of_lt_of_le (Forest.index_lt_of_isAlive ha) hgrows.size)
        (hkept id hid e he ha)
    refine (ih hlives).trans ?_
    -- Only a fall touches the engine, and what it cancels belongs to the one who falls.
    cases hs with
    | @fall e bound rest hd he =>
      split
      · refine Engine.cancelAll_leaves (hsound.reaches hr).tidy _ fun id hid hkeep => ?_
        have howner : (id, e) ∈ w.owners := howners ▸ (hestate.reaches hsound hr).tracked e id hid
        have ha := hgrows.alive e (hsize ▸ Forest.index_lt_of_isAlive he) he
        exact ((Forest.isAlive_fell e bound e w₁.forest).mp (hkept id hkeep e howner ha)).1 rfl
      · exact .refl _
    | _ => exact .refl _

end World

/-- The operations that kill. -/
def Request.Kills : Request → Prop
  | .killEntity _ _ | .killEntities _ | .kill _ | .shutdown => True
  | _ => False

/-- An engine stays bound. -/
def Request.staysBound : Request → Bool
  | .bind bound => bound
  | _ => true

namespace Simulation

section

variable {β μ α : Type} {run : Run β μ} {s s' : Simulation β μ} {w : World β} {e : EntityRef} {id : TaskId}

/-- Nothing is scheduled through the dead. -/
theorem schedule_of_dead (hdead : s.forest.isAlive e = false) (job : Job β) (delay period : Nat) :
    schedule (.entity e) job delay period s = .ok (.error .detached, s) := by
  refine schedule_of_refused ?_
  rw [maySchedule, hdead]
  rfl

theorem perform_of_dead {p : Proxy} (hdead : s.forest.isAlive p.entity = false) (depth : Nat)
    (args : List Arg) (action : β) (delay period : Nat) (returnsTask : Bool) :
    perform run depth p args (.scheduleForActor action delay period returnsTask) s =
      .ok (.error (.engine .detached), s) :=
  bind_of_ok (schedule_of_dead hdead _ _ _)

/-- What is scheduled through an entity is the entity's. -/
theorem schedule_entrusts (hw : w.Rests s) {job : Job β} {delay period : Nat}
    (hact : schedule (.entity e) job delay period s = .ok (.ok id, s')) :
    ∃ w', w.Step .other w' ∧ w'.Rests s' ∧ (id, e) ∈ w'.owners := by
  cases hmay : s.maySchedule (.entity e) with
  | false =>
    rw [schedule_of_refused hmay] at hact
    cases hact
  | true =>
    cases he : s.engine.schedule job delay period with
    | error error =>
      rw [schedule_of_error hmay he] at hact
      cases hact
    | ok p =>
      obtain ⟨id', engine⟩ := p
      rw [schedule_of_ok hmay he] at hact
      cases hact
      obtain ⟨engine, forest, doomed, ahead, bodies, begun, owners, released⟩ := w
      obtain ⟨⟨rfl, rfl⟩, hcalm⟩ := hw
      obtain ⟨hlive, hb⟩ := (Bool.and_eq_true _ _).mp hmay
      exact ⟨_, .entrust hlive hb he, ⟨⟨rfl, rfl⟩, hcalm⟩, List.mem_append_right _ List.mem_cons_self⟩

/-- Where the listeners only remember, a killing goes by steps of killings only. -/
theorem Echoes.deaths {act act' : Act β μ α} {a : α} (h : Echoes run act act' s)
    (hfollows : Follows (· = .death) act' act') (hrec : s.Records run) (hw : w.Rests s)
    (hact : act s = .ok (a, s')) : ∃ w', w.Reaches (· = .death) w' ∧ w'.Rests s' := by
  obtain ⟨s₁, hact', hengine, hforest⟩ := h.unheard hrec hact
  obtain ⟨w', hr, hw'⟩ := hfollows.rests hw hact'
  exact ⟨w', hr, ⟨hengine.symm.trans hw'.engine, hforest.symm.trans hw'.forest⟩, hw'.calm⟩

end

variable {μ : Type} {s s' : Simulation (Code μ) μ} {w : World (Code μ)}

theorem answer_deaths {q : Request} {n depth : Nat} {a : q.Answer} (hq : q.Kills) (hrec : s.Recorded)
    (hw : w.Rests s) (hact : answer (runCode (n + 1)) depth q s = .ok (a, s')) :
    ∃ w', w.Reaches (· = .death) w' ∧ w'.Rests s' := by
  have hrecords := hrec.records n
  have hsilent : ListenersFollow (· = .death) (silent : Run (Code μ) μ) silent := silent_follows
  cases q with
  | killEntity container id =>
    exact (Echoes.killEntity depth container id s).deaths (.killEntity hsilent rfl depth container id)
      hrecords hw hact
  | killEntities container =>
    exact (Echoes.killEntities depth container s).deaths (.killEntities hsilent rfl depth container)
      hrecords hw hact
  | kill e => exact (Echoes.kill depth e s).deaths (.kill hsilent rfl depth e) hrecords hw hact
  | shutdown => exact (Echoes.shutdown depth s).deaths (.shutdown hsilent rfl depth) hrecords hw hact
  | _ => exact hq.elim

end Simulation

open Simulation

/-- Where an engine is bound throughout, an active task that was scheduled through an entity is
remembered by it, and the entity lives. The tasks of the dead are over and they get no new ones; where
the listeners only remember, the tasks of the survivors stay where they are. -/
theorem owned_tasks_end_with_their_entity {μ : Type} {w : World (Code μ)} {s : Simulation (Code μ) μ}
    (hw : w.ReachableBound) (hs : w.Rests s) :
    (∀ id e, (id, e) ∈ w.owners → s.engine.isActive id = true →
      s.forest.isAlive e = true ∧ id ∈ (s.forest.entity e).tasks.ids) ∧
      (∀ top e id, s.forest.isAlive top = false → s.forest.Within top e → (id, e) ∈ w.owners →
        ∀ w', w.Reaches (fun _ => True) w' →
          w'.engine.isActive id = false ∧ w'.begun.count id = w.begun.count id) ∧
      (∀ e, s.forest.isAlive e = false →
        (∀ job delay period, schedule (.entity e) job delay period s = .ok (.error .detached, s)) ∧
          ∀ (run : Run (Code μ) μ) depth type args action delay period returnsTask,
            perform run depth ⟨e, type⟩ args (.scheduleForActor action delay period returnsTask) s =
              .ok (.error (.engine .detached), s)) ∧
      (∀ e job delay period id s', schedule (.entity e) job delay period s = .ok (.ok id, s') →
        ∃ w', w.Reaches (· ≠ .bind false) w' ∧ w'.Rests s' ∧
          ∀ w'', w'.Reaches (fun _ => True) w'' → (id, e) ∈ w''.owners) ∧
      (∀ q n depth a s', q.Kills → s.Recorded → answer (runCode (n + 1)) depth q s = .ok (a, s') →
        s.engine.Leaves (fun id => ∀ e, (id, e) ∈ w.owners → s.forest.isAlive e = true →
          s'.forest.isAlive e = true) s'.engine) ∧
      (∀ container id c n depth b s', s.forest.child? container id = some c → s.Recorded →
        killEntity (runCode (n + 1)) depth container id s = .ok (b, s') →
          s.forest.Slain c s'.forest) ∧
      (∀ (r : Role) (p : Program μ r) n a s', executeWithin Request.staysBound n p s = .ok (a, s') →
        execute n p s = .ok (a, s') ∧ ∃ w', w.Reaches (· ≠ .bind false) w' ∧ w'.Rests s') ∧
      ∀ s₀ : Simulation (Code μ) μ, s₀.New true → ∃ w₀ : World (Code μ), w₀.ReachableBound ∧ w₀.Rests s₀ := by
  have hreach := hw.reachable
  have hquiet : s.Quiet := ⟨w, hreach.sound, hs⟩
  refine ⟨fun id e hid ha => ?_, fun top e id hdead hin hid w' hr => ?_, fun e hdead => ⟨?_, ?_⟩,
    fun e job delay period id s' hact => ?_, fun q n depth a s' hq hrec hact => ?_,
    fun container id c n depth b s' hc hrec hact => ?_, fun r p n a s' hact => ?_, fun s₀ hnew => ?_⟩
  · rw [hs.engine] at ha
    rw [hs.forest]
    refine (hreach.estate.kept id e hid ha).resolve_right fun hgone => ?_
    rw [hw.bound.released] at hgone
    cases hgone
  · exact hw.over hid (hs.forest ▸ hquiet.rooted.dead_of_within hin hdead) hr
  · exact schedule_of_dead hdead
  · exact fun run depth type args action delay period returnsTask =>
      perform_of_dead hdead depth args action delay period returnsTask
  · obtain ⟨w', hstep, hs', hid⟩ := schedule_entrusts hs hact
    exact ⟨w', .single (by rintro ⟨⟩) hstep, hs', fun w'' hr => hr.owners _ hid⟩
  · obtain ⟨w', hr, hs'⟩ := answer_deaths hq hrec hs hact
    have hleaves := hreach.sound.deaths_leave hreach.estate hr fun id hid => hid
    rw [hs.engine, hs.forest, hs'.engine, hs'.forest]
    exact hleaves
  · have hfollows : ListenersFollow (fun _ => True) (silent : Run (Code μ) μ) silent := silent_follows
    obtain ⟨s₁, hact', -, hforest⟩ := (Echoes.killEntity depth container id s).unheard (hrec.records n) hact
    exact hforest ▸ killEntity_slays hfollows trivial silent_spares hquiet hc hact'
  · have hfollows : Follows (· ≠ .bind false) (executeWithin Request.staysBound n p) (execute n p) :=
      executeWithin_follows (by rintro ⟨⟩) (by rintro ⟨⟩) (fun b hb heq => by cases heq; cases hb) n p
    exact ⟨(hfollows s a s' hact).1, hfollows.rests hs hact⟩
  · obtain ⟨w₀, hbegins, hs₀⟩ := hnew.begins
    exact ⟨w₀, ⟨w₀, hbegins, .refl⟩, hs₀⟩

def arrival : Program Unit .listener := .request (.create Forest.root none none) fun _ => .done ()

def stay : Job (Code Unit) := ⟨Code.ofTask fun _ => .done .completed, .entity ⟨1⟩⟩

def departure : Program Unit .listener := .request (.kill ⟨1⟩) fun _ => .done ()

theorem arrival_stays : ∃ s₁ s₂ : Simulation (Code Unit) Unit,
    executeWithin Request.staysBound 2 arrival (blank true) = .ok ((), s₁) ∧
      schedule (.entity ⟨1⟩) stay 0 1 s₁ = .ok (.ok ⟨0⟩, s₂) ∧ s₂.engine.isActive ⟨0⟩ = true ∧
      ∃ s₃, executeWithin Request.staysBound 2 departure s₂ = .ok ((), s₃) ∧
        s₃.forest.isAlive ⟨1⟩ = false := by
  obtain ⟨_, s₁, harrive, hholds⟩ := endsWith_iff.mp (show endsWith
    (executeWithin Request.staysBound 2 arrival) (blank true) (fun _ s =>
      endsWith (schedule (.entity ⟨1⟩) stay 0 1) s fun a s => a.toOption == some ⟨0⟩ &&
        s.engine.isActive ⟨0⟩ && endsWith (executeWithin Request.staysBound 2 departure) s fun _ s =>
          !s.forest.isAlive ⟨1⟩) = true by decide +kernel)
  obtain ⟨a, s₂, hschedule, hholds⟩ := endsWith_iff.mp hholds
  simp only [Bool.and_eq_true, Bool.not_eq_true', beq_iff_eq, endsWith_iff] at hholds
  obtain ⟨⟨ha, hactive⟩, _, s₃, hdepart, hdead⟩ := hholds
  cases a with
  | error => cases ha
  | ok id =>
    cases ha
    exact ⟨s₁, s₂, harrive, hschedule, hactive, s₃, hdepart, hdead⟩

theorem departed_task_is_over : ∃ (w : World (Code Unit)) (s : Simulation (Code Unit) Unit),
    w.ReachableBound ∧ w.Rests s ∧ (⟨0⟩, ⟨1⟩) ∈ w.owners ∧ s.forest.isAlive ⟨1⟩ = false ∧
      ∀ w', w.Reaches (fun _ => True) w' →
        w'.engine.isActive ⟨0⟩ = false ∧ w'.begun.count ⟨0⟩ = w.begun.count ⟨0⟩ := by
  obtain ⟨s₁, s₂, harrive, hschedule, -, s₃, hdepart, hdead⟩ := arrival_stays
  have hbound : ∀ d : Deed, d ≠ .bind false → d ≠ .bind false := fun _ hd => hd
  obtain ⟨w₀, hbegins, hs₀⟩ := (blank_new true).begins
  have hw₀ : w₀.ReachableBound := ⟨w₀, hbegins, .refl⟩
  obtain ⟨-, -, -, -, -, -, hgoes, -⟩ := owned_tasks_end_with_their_entity hw₀ hs₀
  obtain ⟨-, w₁, hr₁, hs₁⟩ := hgoes _ _ _ _ _ harrive
  have hw₁ := hw₀.reaches hr₁ hbound
  obtain ⟨-, -, -, hentrust, -⟩ := owned_tasks_end_with_their_entity hw₁ hs₁
  obtain ⟨w₂, hr₂, hs₂, howned⟩ := hentrust _ _ _ _ _ _ hschedule
  have hw₂ := hw₁.reaches hr₂ hbound
  obtain ⟨-, -, -, -, -, -, hgoes, -⟩ := owned_tasks_end_with_their_entity hw₂ hs₂
  obtain ⟨-, w₃, hr₃, hs₃⟩ := hgoes _ _ _ _ _ hdepart
  have howner := howned w₃ (hr₃.mono fun _ _ => trivial)
  obtain ⟨-, hover, -⟩ := owned_tasks_end_with_their_entity (hw₂.reaches hr₃ hbound) hs₃
  exact ⟨w₃, s₃, hw₂.reaches hr₃ hbound, hs₃, howner, hdead, hover ⟨1⟩ ⟨1⟩ ⟨0⟩ hdead (Or.inl rfl) howner⟩

end Vivarium
