import Vivarium.Proofs.Killing
import Vivarium.Simulation.Program

/-! # Ticks, calls and programs follow the world

All that a program may ask for follows the world, if the code that it runs does; so every program
does, however deep its runs are nested.
-/

namespace Vivarium

namespace Simulation

variable {β μ α : Type} {ok : Deed → Prop} {run run' : Run β μ} {s s' : Simulation β μ}

theorem Follows.changeEngine (hother : ok .other) {f : Engine (Job β) → Engine (Job β)}
    (h : ∀ e : Engine (Job β), e.Stays (f e)) :
    Follows ok (Simulation.changeEngine f : Act β μ Unit) (Simulation.changeEngine f) :=
  .onEngine hother h

theorem Follows.moveClock (hother : ok .other) (f : Clock → Clock) :
    Follows ok (Simulation.moveClock f : Act β μ Nat) (Simulation.moveClock f) := by
  refine .onEngine hother ?_
  exact fun e => .clock (f e.clock) e

section

variable (hother : ok .other) (hrun : RunFollows ok run run')

include hrun

/-! ## Ticks -/

theorem Follows.runTask (t : Task (Job β)) :
    Follows ok (Simulation.runTask run t) (Simulation.runTask run' t) := by
  intro s
  cases hf : s.engine.isFlagged t.id with
  | true =>
    intro a s' hact
    rw [runTask_of_flagged hf] at hact ⊢
    exact (Follows.pure ()) s a s' hact
  | false =>
    intro a s' hact
    rw [runTask_of_unflagged hf] at hact ⊢
    exact (Follows.bind (hrun _ _) fun _ => .pure ()) s a s' hact

include hother

theorem Follows.runBoundary (which : Boundary) :
    Follows ok (Simulation.runBoundary run which) (Simulation.runBoundary run' which) := by
  refine .bind (.ask _) fun found => ?_
  cases found with
  | none => exact .pure _
  | some t => exact .bind (.runTask hrun t) fun _ => .changeEngine hother fun e => .settleBoundary which t e

/-- The turns of the launched tasks, which the world has ahead. -/
theorem runDue_follows (ts : List (Task (Job β))) (s s' : Simulation β μ)
    (hact : runDue run ts s = .ok ((), s')) :
    runDue run' ts s = .ok ((), s') ∧ ∀ (w : World β) (later : List (Task (Job β))), w.Shows s →
      w.ahead = ts ++ later →
        ∃ w', w.Reaches ok w' ∧ w'.Shows s' ∧ w'.doomed = w.doomed ∧ w'.ahead = later ∧
          w'.bodies = w.bodies := by
  induction ts generalizing s with
  | nil =>
    cases hact
    exact ⟨rfl, fun w later hw ha => ⟨w, .refl, hw, rfl, ha, rfl⟩⟩
  | cons t rest ih =>
    rw [runDue] at hact ⊢
    obtain ⟨_, s₁, hregister, hact⟩ := bind_ok hact
    obtain ⟨_, s₂, htask, hact⟩ := bind_ok hact
    obtain ⟨_, s₃, hcomplete, hact⟩ := bind_ok hact
    obtain ⟨_, s₄, harrive, hact⟩ := bind_ok hact
    obtain ⟨htask', hgoes⟩ := Follows.runTask hrun t s₁ _ s₂ htask
    obtain ⟨hrest, hlater⟩ := ih s₄ hact
    refine ⟨(bind_of_ok hregister).trans ((bind_of_ok htask').trans ((bind_of_ok hcomplete).trans
      ((bind_of_ok harrive).trans hrest))), fun w later hw ha => ?_⟩
    obtain rfl : s₁ = { s with engine := s.engine.register } := by
      cases hregister
      rfl
    cases hcomplete
    cases harrive
    obtain ⟨engine, forest, doomed, ahead, bodies, begun, owners, released⟩ := w
    obtain ⟨rfl, rfl⟩ := hw
    cases ha
    refine (World.Step.engine (Engine.Stays.barrier s.engine.barrier.register.2 s.engine)).then hother ?_
    cases hf : s.engine.register.isFlagged t.id with
    | true =>
      rw [runTask_of_flagged (s := { s with engine := s.engine.register }) hf] at htask
      cases htask
      refine (World.Step.skip rfl hf).then hother ?_
      exact (World.Step.engine (Engine.Stays.barrier (s.engine.register.complete t).barrier.arrive _)).then hother
        (hlater _ later ⟨rfl, rfl⟩ rfl)
    | false =>
      refine (World.Step.start rfl hf).then hother ?_
      refine World.Reaches.then (hgoes _ doomed ⟨rfl, rfl⟩ rfl) fun w' hw' => ?_
      obtain ⟨engine', forest', doomed', ahead', bodies', begun', owners', released'⟩ := w'
      obtain ⟨⟨rfl, rfl⟩, hd', hahead, hbodies⟩ := hw'
      obtain rfl : doomed' = doomed := hd'
      obtain rfl : ahead' = rest ++ later := hahead
      obtain rfl : bodies' = t :: bodies := hbodies
      refine (World.Step.finish rfl).then hother ?_
      exact (World.Step.engine (Engine.Stays.barrier (s₂.engine.complete t).barrier.arrive _)).then hother
        (hlater _ later ⟨rfl, rfl⟩ rfl)

/-- What is due is launched and has its turns. -/
theorem Follows.launchDue (deadline : Nat) {next next' : Unit → Act β μ α}
    (hn : ∀ a, Follows ok (next a) (next' a)) :
    Follows ok (Simulation.onEngine (·.launch deadline) >>= fun due => runDue run due >>= next)
      (Simulation.onEngine (·.launch deadline) >>= fun due => runDue run' due >>= next') := by
  have hdue : Follows ok (Simulation.onEngine (·.launch deadline) >>= fun due => runDue run due)
      (Simulation.onEngine (·.launch deadline) >>= fun due => runDue run' due) := by
    intro s a s' hact
    obtain ⟨due, s₁, hlaunch, hdue⟩ := bind_ok hact
    obtain ⟨hdue', hgoes⟩ := runDue_follows hother hrun due s₁ s' hdue
    refine ⟨(bind_of_ok hlaunch).trans hdue', fun w rest hw hd => ?_⟩
    cases hlaunch
    obtain ⟨engine, forest, doomed, ahead, bodies, begun, owners, released⟩ := w
    obtain ⟨rfl, rfl⟩ := hw
    cases hd
    exact (World.Step.launch deadline).then hother (hgoes _ ahead ⟨rfl, rfl⟩ rfl)
  have hall := hdue.bind hn
  rwa [bind_assoc, bind_assoc] at hall

omit hrun in
theorem Follows.passBarrier :
    Follows ok (Simulation.passBarrier : Act β μ Bool) Simulation.passBarrier := by
  refine .bind (.aside fun s a s' hact => ?_) fun s => ?_
  · cases hact
    exact ⟨rfl, rfl⟩
  · cases s.engine.barrier.await? with
    | none => exact .halt _ _
    | some p => exact .bind (.changeEngine hother fun e => .barrier _ e) fun _ => .pure _

theorem Follows.runTick : Follows ok (Simulation.runTick run) (Simulation.runTick run') := by
  refine .bind (.ask _) fun start => .bind (.ask _) fun deadline => ?_
  refine .bind (.changeEngine hother fun e => .meter _ e) fun _ => ?_
  refine .bind (.runBoundary hother hrun .first) fun _ => ?_
  refine .launchDue hother hrun deadline fun _ => .bind (.passBarrier hother) fun passed => ?_
  refine .ite (fun _ => ?_) fun _ => .pure _
  refine .bind (.runBoundary hother hrun .last) fun _ => ?_
  refine .bind (.changeEngine hother fun e => .meter _ e) fun _ => ?_
  exact .changeEngine hother fun e => .park deadline e

theorem Follows.step : Follows ok (Simulation.step run) (Simulation.step run') := by
  refine .bind (.ask _) fun running => .ite (fun _ => .pure _) fun _ => ?_
  refine .bind (.tryEngine hother fun e _ e' he => ?_) fun entered => ?_
  · cases henter : e.enter .ticking with
    | error error =>
      rw [henter] at he
      cases he
    | ok e₁ =>
      rw [henter] at he
      cases he
      exact .enter (by rintro ⟨⟩) henter
  · cases entered with
    | error error => exact .pure _
    | ok _ => exact .bind (.runTick hother hrun) fun _ => .pure _

theorem Follows.stepMany (n : Nat) : Follows ok (Simulation.stepMany run n) (Simulation.stepMany run' n) := by
  induction n with
  | zero => exact .pure _
  | succ n ih =>
    refine .bind (.ask _) fun state => .ite (fun _ => .pure _) fun _ => ?_
    refine .bind (.step hother hrun) fun stepped => ?_
    cases stepped with
    | error error => exact .pure _
    | ok _ => exact ih

theorem Follows.stepWhileActive (id : TaskId) (bound : Nat) :
    Follows ok (Simulation.stepWhileActive run id bound) (Simulation.stepWhileActive run' id bound) := by
  induction bound with
  | zero => exact .halt _ _
  | succ bound ih =>
    refine .bind (.ask _) fun active => .ite (fun _ => ?_) fun _ => .pure _
    exact .bind (.step hother hrun) fun _ => ih

theorem Follows.loop (bound : Nat) :
    Follows ok (Simulation.loop run bound) (Simulation.loop run' bound) := by
  induction bound with
  | zero => exact .halt _ _
  | succ bound ih =>
    refine .bind (.onEngine hother fun e => .continues rfl) fun goes => .ite (fun _ => ?_) fun _ => .pure _
    exact .bind (.runTick hother hrun) fun _ => ih

theorem Follows.tick (bound : Nat) :
    Follows ok (Simulation.tick run bound) (Simulation.tick run' bound) := by
  refine .bind (.tryEngine hother fun e _ e' he => .start he) fun started => ?_
  cases started with
  | error error => exact .pure _
  | ok drives =>
    refine .ite (fun _ => ?_) fun _ => .pure _
    exact .bind (.loop hother hrun bound) fun _ => .pure _

/-! ## Calls -/

omit hrun hother in
theorem Follows.resolveType (type : TypeName) :
    Follows ok (Simulation.resolveType type : Act β μ _) (Simulation.resolveType type) := .onTypes _

theorem Follows.callSetAttribute (p : Proxy) (k : AttributeKey) (returnsPrevious : Bool)
    (args : List Arg) :
    Follows ok (Simulation.callSetAttribute run p k returnsPrevious args)
      (Simulation.callSetAttribute run' p k returnsPrevious args) := by
  unfold Simulation.callSetAttribute
  simp only
  split
  · refine .bind (.setAttribute hother hrun _ _ _) fun previous => ?_
    cases previous <;> exact .pure _
  · exact .bind (.removeAttribute hother hrun _ _) fun _ => .pure _
  · exact .pure _

omit hrun hother in
theorem Follows.callGetEntity (p : Proxy) (type : TypeName) (ofType : Bool) (id : EntityId) :
    Follows ok (Simulation.callGetEntity p type ofType id : Act β μ _)
      (Simulation.callGetEntity p type ofType id) := by
  refine .bind (.ask _) fun found => ?_
  cases found with
  | none => exact .pure _
  | some e =>
    refine .bind (.viewAs e type) fun seen => ?_
    cases seen <;> exact .pure _

omit hrun hother in
theorem Follows.callGetEntities (p : Proxy) (type : TypeName) (ofType : Bool) :
    Follows ok (Simulation.callGetEntities p type ofType : Act β μ _)
      (Simulation.callGetEntities p type ofType) := by
  refine .bind (.ask _) fun es => .bind (.viewAllAs type es) fun seen => ?_
  cases seen <;> exact .pure _

variable (hdeath : ok .death)

include hdeath

theorem Follows.finishCreation (depth : Nat) (p : Proxy) (e : EntityRef) (type : TypeName) :
    Follows ok (Simulation.finishCreation run depth p e type)
      (Simulation.finishCreation run' depth p e type) := by
  have hfails : ∀ answer : Except CallError Return, Follows ok
      (Simulation.ask (·.forest.idOf e) >>= fun id =>
        Simulation.killEntity run depth p.entity id >>= fun _ => Pure.pure answer)
      (Simulation.ask (·.forest.idOf e) >>= fun id =>
        Simulation.killEntity run' depth p.entity id >>= fun _ => Pure.pure answer) := fun answer =>
    .bind (.ask _) fun id => .bind (.killEntity hrun.listeners hdeath depth p.entity id) fun _ => .pure _
  unfold Simulation.finishCreation
  refine .bind (.markAsType hother e type) fun marked => ?_
  cases marked with
  | error error => exact hfails _
  | ok _ =>
    refine .bind (.viewAs e type) fun typed => ?_
    cases typed with
    | ok q => exact .pure _
    | error error => exact hfails _

theorem Follows.callNewEntity (depth : Nat) (p : Proxy) (id : Option EntityId)
    (container : Option Holder) (type : Option TypeName) :
    Follows ok (Simulation.callNewEntity run depth p id container type)
      (Simulation.callNewEntity run' depth p id container type) := by
  cases type with
  | none =>
    refine .bind (.bind (.ask _) fun values => .createEntity hrun.listeners hother _ _ values)
      fun created => ?_
    cases created <;> exact .pure _
  | some type =>
    refine .bind (.resolveType type) fun resolved => ?_
    cases resolved with
    | error error => exact .pure _
    | ok _ =>
      refine .bind (.bind (.ask _) fun values => .createEntity hrun.listeners hother _ _ values)
        fun created => ?_
      cases created with
      | error error => exact .pure _
      | ok e => exact .finishCreation hother hrun hdeath depth p e type

theorem Follows.perform (depth : Nat) (p : Proxy) (args : List Arg) (b : Binding β) :
    Follows ok (Simulation.perform run depth p args b) (Simulation.perform run' depth p args b) := by
  cases b with
  | getAttribute => exact .bind (.ask _) fun _ => .pure _
  | setAttribute => exact .callSetAttribute hother hrun p _ _ args
  | getEntity type _ ofType id =>
    simp only [Simulation.perform]
    split
    · exact .pure _
    · exact .callGetEntity p type ofType _
  | getEntities type ofType => exact .callGetEntities p type ofType
  | newEntity id container type =>
    simp only [Simulation.perform]
    split
    · exact .pure _
    · exact .callNewEntity hother hrun hdeath depth p _ _ type
  | killEntity id returnsFlag =>
    simp only [Simulation.perform]
    split
    · exact .pure _
    · exact .bind (.killEntity hrun.listeners hdeath depth _ _) fun _ => .pure _
  | killEntities => exact .bind (.killEntities hrun.listeners hdeath depth _) fun _ => .pure _
  | markAsType type => exact .bind (.markAsType hother _ type) fun _ => .pure _
  | unmarkAsType type => exact .bind (.unmarkAsType hother _ type) fun _ => .pure _
  | scheduleForActor action delay period =>
    refine .bind (.schedule hother _ _ delay period) fun scheduled => ?_
    cases scheduled <;> exact .pure _
  | defaultMethod body => exact hrun (.method p args) body

theorem Follows.invoke (depth : Nat) (p : Proxy) (name : String) (args : List Arg) :
    Follows ok (Simulation.invoke run depth p name args) (Simulation.invoke run' depth p name args) := by
  refine .bind (.resolveType p.type) fun resolved => ?_
  cases resolved with
  | error error => exact .pure _
  | ok t =>
    simp only
    split
    · exact .pure _
    · exact .perform hother hrun hdeath depth p args _

theorem Follows.invokeKey (depth : Nat) (p : Proxy) (k : MethodKey) (args : List Arg) :
    Follows ok (Simulation.invokeKey run depth p k args) (Simulation.invokeKey run' depth p k args) := by
  refine .bind (.ask _) fun table => ?_
  split
  · exact .pure _
  · exact .bind (.perform hother hrun hdeath depth p args _) fun _ => .pure _

/-! ## Requests -/

/-- A request is followed, unless it binds an engine where that is not ok. -/
theorem Follows.answer {bound : Nat} (q : Request) (hbind : ∀ b, q = .bind b → ok (.bind b)) :
    Follows ok (Simulation.answer run bound q) (Simulation.answer run' bound q) := by
  cases q with
  | advance span => exact .moveClock hother _
  | advanceTo time => exact .moveClock hother _
  | pause =>
    refine .tryEngine hother fun e _ e' he => ?_
    have hpause := Engine.Stays.pause e
    cases hp : e.pause with
    | error error =>
      rw [hp] at he
      cases he
    | ok e₁ =>
      rw [hp] at he
      cases he
      simp only [EngineCall.effect, hp] at hpause
      exact hpause
  | step => exact .step hother hrun
  | stepMany n => exact .stepMany hother hrun n
  | stepWhileActive id => exact .stepWhileActive hother hrun id bound
  | tick => exact .tick hother hrun bound
  | stop => exact .stop hother
  | clearBoundary which => exact .changeEngine hother fun e => .setBoundary which none e
  | flag id => exact .changeEngine hother fun e => .flag id e
  | cancel id => exact .cancel hother id
  | dropScheduler ref => exact .dropScheduler hother ref
  | cancelOwned owner id => exact .cancelOwned hother owner id
  | cancelAllOwned owner => exact .cancelAllOwned hother owner
  | create container id source =>
    exact .bind (.ask _) fun values => .createEntity hrun.listeners hother _ _ values
  | killEntity container id => exact .killEntity hrun.listeners hdeath bound container id
  | killEntities container => exact .killEntities hrun.listeners hdeath bound container
  | kill ref => exact .kill hrun.listeners hdeath bound ref
  | shutdown => exact .shutdown hrun.listeners hdeath bound
  | bind b =>
    refine fun s => .step (hbind b rfl) fun a s' hact => ⟨hact, fun w hw => ?_⟩
    cases hact
    exact ⟨_, .bind b, ⟨hw.engine, by rw [← hw.forest]⟩, rfl, rfl, rfl⟩
  | unsubscribe container listener => exact .unsubscribe hother container listener
  | mark ref type => exact .mark hother ref type
  | unmark ref type => exact .unmark hother ref type
  | newAttributes owner =>
    refine .aside fun s a s' hact => ?_
    cases hact
    exact ⟨rfl, rfl⟩
  | newScheduler =>
    refine .aside fun s a s' hact => ?_
    cases hact
    exact ⟨rfl, rfl⟩
  | setAttribute holder key value => exact .setAttribute hother hrun holder key value
  | removeAttribute holder key => exact .removeAttribute hother hrun holder key
  | fireAttribute holder key => exact .fireAttribute hrun holder key
  | clearAttributes holder => exact .onAttributes hother holder fun a => ((), a.clear)
  | unsubscribeFrom holder key listener => exact .onAttributes hother holder fun a => a.unsubscribe key listener
  | validateTree type => exact .onTypes fun types => types.validateTree type
  | markAsType ref type => exact .markAsType hother ref type
  | unmarkAsType ref type => exact .unmarkAsType hother ref type
  | viewAs ref type => exact .viewAs ref type
  | childAs container id type => exact .childAs container id type
  | childrenAs container type => exact .childrenAs container type
  | invoke proxy method args => exact .invoke hother hrun hdeath bound proxy method args
  | invokeKey proxy key args => exact .invokeKey hother hrun hdeath bound proxy key args
  | _ => exact .ask _

end

end Simulation

end Vivarium
