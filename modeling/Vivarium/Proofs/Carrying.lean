import Vivarium.Proofs.Killing
import Vivarium.Proofs.Sessions

/-! # What operations keep

What every call keeps true of an engine, every operation keeps that begins no tick, as far as the code
that it runs does. An operation that neither moves the clock nor pauses or stops the engine keeps what the
calls about tasks keep. An operation that does not end has a reason for it.
-/

namespace Vivarium

/-- The call is about tasks: it moves no clock, and neither pauses nor stops. -/
def EngineCall.isWork {β : Type} : EngineCall β → Bool
  | .schedule _ _ _ | .cancel _ | .flag _ | .setBoundary _ _ => true
  | .pause | .stop | .setClock _ => false

namespace Engine

variable {β : Type} {P : Engine β → Prop}

/-- No call makes it false. -/
def Lasting (P : Engine β → Prop) : Prop := ∀ (e : Engine β) (c : EngineCall β), P e → P (c.effect e)

/-- No call about tasks makes it false. -/
def Enduring (P : Engine β → Prop) : Prop :=
  ∀ (e : Engine β) (c : EngineCall β), c.isWork = true → P e → P (c.effect e)

theorem Lasting.enduring (h : Lasting P) : Enduring P := fun e c _ => h e c

theorem Enduring.cancelAll (hP : Enduring P) (ids : List TaskId) {e : Engine β} (h : P e) :
    P (e.cancelAll ids).2 := by
  induction ids generalizing e with
  | nil => exact h
  | cons id ids ih =>
    rw [cancelAll_cons]
    exact ih (hP e (.cancel id) rfl h)

end Engine

namespace Simulation

variable {β μ α γ ι : Type} {P Q R : Engine (Job β) → Prop} {fails : Halt → Prop} {s s' : Simulation β μ}

/-- Where the operation has ended `Q` holds of the engine; where it does not end, that has one of certain
reasons. -/
def Lands (Q : Engine (Job β) → Prop) (fails : Halt → Prop) : Except Halt (α × Simulation β μ) → Prop
  | .error why => fails why
  | .ok (_, s') => Q s'.engine

/-- From where `P` holds of the engine the operation lands where `Q` does. -/
def Carries (P Q : Engine (Job β) → Prop) (fails : Halt → Prop) (act : Act β μ α) : Prop :=
  ∀ s, P s.engine → Lands Q fails (act s)

def RunCarries (P : Engine (Job β) → Prop) (fails : Halt → Prop) (run : Run β μ) : Prop :=
  ∀ o code, Carries P P fails (run o code)

theorem Lands.bind {act : Act β μ α} {next : α → Act β μ γ} (h : Lands Q fails (act s))
    (hn : ∀ a, Carries Q R fails (next a)) : Lands R fails ((act >>= next) s) := by
  cases hact : act s with
  | error why =>
    rw [bind_of_error hact]
    rwa [hact] at h
  | ok p =>
    rw [bind_of_ok hact]
    rw [hact] at h
    exact hn p.1 p.2 h

namespace Carries

variable {act : Act β μ α}

theorem bind {next : α → Act β μ γ} (h : Carries P Q fails act) (hn : ∀ a, Carries Q R fails (next a)) :
    Carries P R fails (act >>= next) := fun s hs => (h s hs).bind hn

theorem of_ok (h : Carries P Q fails act) (hs : P s.engine) {a : α} (hact : act s = .ok (a, s')) :
    Q s'.engine := by
  have hlands := h s hs
  rwa [hact] at hlands

theorem of_error (h : Carries P Q fails act) (hs : P s.engine) {why : Halt} (hact : act s = .error why) :
    fails why := by
  have hlands := h s hs
  rwa [hact] at hlands

theorem halt {why : Halt} (h : fails why) : Carries P Q fails (Simulation.halt why : Act β μ α) :=
  fun _ _ => h

/-- An operation that always ends. -/
theorem change (h : ∀ s, P s.engine → ∃ p, act s = .ok p ∧ Q p.2.engine) : Carries P Q fails act := by
  intro s hs
  obtain ⟨p, hact, hp⟩ := h s hs
  rw [hact]
  exact hp

/-- An operation that leaves the engine alone. -/
theorem aside (h : ∀ s, ∃ p, act s = .ok p ∧ p.2.engine = s.engine) : Carries P P fails act := by
  refine .change fun s hs => ?_
  obtain ⟨p, hact, hp⟩ := h s
  exact ⟨p, hact, hp ▸ hs⟩

theorem pure (a : α) : Carries P P fails (Pure.pure a : Act β μ α) := .aside fun _ => ⟨_, rfl, rfl⟩

theorem ask (f : Simulation β μ → α) : Carries P P fails (Simulation.ask f) := .aside fun _ => ⟨_, rfl, rfl⟩

theorem onForest (f : Forest β → α × Forest β) : Carries P P fails (Simulation.onForest f : Act β μ α) :=
  .aside fun _ => ⟨_, rfl, rfl⟩

theorem onTypes (f : TypeRegistry β → α × TypeRegistry β) :
    Carries P P fails (Simulation.onTypes f : Act β μ α) := .aside fun _ => ⟨_, rfl, rfl⟩

theorem onAttributes (h : Holder) (f : AttributeSet β → α × AttributeSet β) :
    Carries P P fails (Simulation.onAttributes h f : Act β μ α) := by
  cases h <;> exact .aside fun _ => ⟨_, rfl, rfl⟩

theorem changeTracker (o : Owner) (f : TaskTracker → TaskTracker) :
    Carries P P fails (Simulation.changeTracker o f : Act β μ Unit) :=
  .aside fun _ => ⟨_, rfl, by cases o <;> rfl⟩

theorem ite {p : Prop} [Decidable p] {act' : Act β μ α} (h : Carries P Q fails act)
    (h' : Carries P Q fails act') : Carries P Q fails (if p then act else act') := by
  split
  · exact h
  · exact h'

theorem forIn {f : ι → PUnit → Act β μ (ForInStep PUnit)} (xs : List ι)
    (h : ∀ x, Carries P P fails (f x ⟨⟩)) : Carries P P fails (ForIn.forIn xs ⟨⟩ f) := by
  induction xs with
  | nil => exact .pure _
  | cons x xs ih =>
    rw [List.forIn_cons]
    refine .bind (h x) fun step => ?_
    cases step with
    | done => exact .pure _
    | yield => exact ih

/-! ## Types and marks -/

theorem markAsType (e : EntityRef) (type : TypeName) :
    Carries P P fails (Simulation.markAsType e type : Act β μ _) := by
  refine .bind (.ask _) fun ancestors => ?_
  cases ancestors with
  | error error => exact .pure _
  | ok ancestors =>
    refine .bind (.onForest _) fun added => .bind (.forIn _ fun a => ?_) fun _ => .pure _
    exact .bind (.onForest _) fun _ => .pure _

theorem unmarkAsType (e : EntityRef) (type : TypeName) :
    Carries P P fails (Simulation.unmarkAsType e type : Act β μ _) := by
  refine .bind (.ask _) fun found => ?_
  cases found with
  | error error => exact .pure _
  | ok d =>
    refine .bind (.onForest _) fun removed => .bind (.ask _) fun marks => ?_
    refine .bind (.forIn _ fun m => .bind (.ask _) fun descends => ?_) fun _ => .pure _
    exact .ite (.bind (.onForest _) fun _ => .pure _) (.pure _)

theorem viewAs (e : EntityRef) (type : TypeName) : Carries P P fails (Simulation.viewAs e type : Act β μ _) :=
  .bind (.onTypes _) fun _ => .pure _

theorem viewAllAs (type : TypeName) (es : List EntityRef) :
    Carries P P fails (Simulation.viewAllAs type es : Act β μ _) := by
  induction es with
  | nil => exact .pure _
  | cons e es ih =>
    refine .bind (.viewAs e type) fun p => ?_
    cases p with
    | error error => exact .pure _
    | ok p => exact .bind ih fun _ => .pure _

theorem childAs (container : EntityRef) (id : EntityId) (type : TypeName) :
    Carries P P fails (Simulation.childAs container id type : Act β μ _) := by
  refine .bind (.ask _) fun found => ?_
  cases found with
  | none => exact .pure _
  | some e => exact .bind (.viewAs e type) fun _ => .pure _

theorem childrenAs (container : EntityRef) (type : TypeName) :
    Carries P P fails (Simulation.childrenAs container type : Act β μ _) :=
  .bind (.ask _) fun es => .viewAllAs type es

theorem callGetEntity (p : Proxy) (type : TypeName) (ofType : Bool) (id : EntityId) :
    Carries P P fails (Simulation.callGetEntity p type ofType id : Act β μ _) := by
  refine .bind (.ask _) fun found => ?_
  cases found with
  | none => exact .pure _
  | some e =>
    refine .bind (.viewAs e type) fun seen => ?_
    cases seen <;> exact .pure _

theorem callGetEntities (p : Proxy) (type : TypeName) (ofType : Bool) :
    Carries P P fails (Simulation.callGetEntities p type ofType : Act β μ _) := by
  refine .bind (.ask _) fun es => .bind (.viewAllAs type es) fun seen => ?_
  cases seen <;> exact .pure _

/-! ## Calls of the engine -/

theorem onEngine {f : Engine (Job β) → α × Engine (Job β)} (h : ∀ e, P e → Q (f e).2) :
    Carries P Q fails (Simulation.onEngine f : Act β μ α) := .change fun s hs => ⟨_, rfl, h s.engine hs⟩

theorem changeEngine {f : Engine (Job β) → Engine (Job β)} (h : ∀ e, P e → Q (f e)) :
    Carries P Q fails (Simulation.changeEngine f : Act β μ Unit) := .onEngine h

theorem tryEngine {f : Engine (Job β) → Except EngineError (α × Engine (Job β))}
    (h : ∀ e a e', f e = .ok (a, e') → P e → P e') :
    Carries P P fails (Simulation.tryEngine f : Act β μ (Except EngineError α)) := by
  refine .onEngine fun e he => ?_
  cases hf : f e with
  | error error => exact he
  | ok p => exact h e p.1 p.2 hf he

section

variable (hP : Engine.Enduring P)

include hP

theorem cancel (id : TaskId) : Carries P P fails (Simulation.onEngine (·.cancel id) : Act β μ Bool) :=
  .onEngine fun e => hP e (.cancel id) rfl

theorem cancelAll (ids : List TaskId) :
    Carries P P fails (Simulation.onEngine (·.cancelAll ids) : Act β μ Nat) :=
  .onEngine fun _ => hP.cancelAll ids

theorem queue (job : Job β) (delay period : Nat) : Carries P P fails
    (Simulation.tryEngine (·.schedule job delay period) : Act β μ (Except EngineError TaskId)) := by
  refine .tryEngine fun e id e' he => ?_
  have hcall := hP e (.schedule job delay period) rfl
  rwa [EngineCall.effect, he] at hcall

/-! ## Owned tasks -/

theorem schedule (o : Owner) (job : Job β) (delay period : Nat) :
    Carries P P fails (Simulation.schedule o job delay period : Act β μ _) := by
  refine .bind (.ask _) fun may => .ite (.pure _) (.bind (.queue hP job delay period) ?_)
  intro scheduled
  cases scheduled with
  | error error => exact .pure _
  | ok id => exact .bind (.ask _) fun e => .bind (.changeTracker o _) fun _ => .pure _

theorem cancelOwned (o : Owner) (id : TaskId) :
    Carries P P fails (Simulation.cancelOwned o id : Act β μ _) := by
  refine .bind (.ask _) fun tracker =>
    .ite (.bind (.changeTracker o _) fun _ => ?_) (.pure _)
  exact .bind (.ask _) fun engine => .ite (.cancel hP id) (.pure _)

theorem cancelAllOwned (o : Owner) : Carries P P fails (Simulation.cancelAllOwned o : Act β μ _) := by
  refine .bind (.ask _) fun engine => .ite (.bind (.ask _) fun tracker => ?_) (.pure _)
  exact .bind (.changeTracker o _) fun _ => .cancelAll hP _

theorem dropScheduler (r : SchedulerRef) : Carries P P fails (Simulation.dropScheduler r : Act β μ _) := by
  refine .bind (.ask _) fun there =>
    .ite (.bind (.cancelAllOwned hP _) fun _ => ?_) (.pure _)
  exact .bind (.aside fun _ => ⟨_, rfl, rfl⟩) fun _ => .pure _

end

variable {run : Run β μ} {depth : Nat}

section

variable (hrun : RunCarries P fails run)

include hrun

/-- Code that is run for one after the other. -/
theorem runEach (o : ι → Occasion) (code : ι → β) (xs : List ι) : Carries P P fails
    (ForIn.forIn xs PUnit.unit fun x _ => run (o x) (code x) >>= fun _ => Pure.pure (.yield PUnit.unit)) :=
  .forIn xs fun _ => .bind (hrun _ _) fun _ => .pure _

/-! ## Attributes -/

theorem notify (h : Holder) (k : AttributeKey) (v previous : Option Value) :
    Carries P P fails (Simulation.notify run h k v previous) :=
  .bind (.ask _) fun _ => .bind (.runEach hrun _ _ _) fun _ => .pure _

theorem setAttribute (h : Holder) (k : AttributeKey) (v : Value) :
    Carries P P fails (Simulation.setAttribute run h k v) := by
  refine .ite (.pure _) (.bind (.onAttributes h _) fun previous => ?_)
  exact .bind (.notify hrun h k _ _) fun _ => .pure _

theorem removeAttribute (h : Holder) (k : AttributeKey) :
    Carries P P fails (Simulation.removeAttribute run h k) :=
  .bind (.onAttributes h _) fun _ => .ite
    (.bind (.notify hrun h k _ _) fun _ => .pure _) (.pure _)

theorem fireAttribute (h : Holder) (k : AttributeKey) :
    Carries P P fails (Simulation.fireAttribute run h k) := by
  refine .bind (.ask _) fun attributes => ?_
  cases attributes.get? k with
  | some v => exact .notify hrun h k _ _
  | none => exact .pure _

/-! ## Creation and death -/

theorem announce (container : EntityRef) (event : EntityEvent) :
    Carries P P fails (Simulation.announce run container event) :=
  .bind (.ask _) fun _ => .bind (.runEach hrun _ _ _) fun _ => .pure _

theorem insert (container : EntityRef) (id : EntityId) (values : List (AttributeKey × Value)) :
    Carries P P fails (Simulation.createEntity.insert run container values id) :=
  .bind (.onForest _) fun _ => .bind (.announce hrun container _) fun _ => .pure _

theorem enter (container : EntityRef) (values : List (AttributeKey × Value)) (f : Forest β) (id : EntityId) :
    Carries P P fails (Simulation.enter run container values f id) := by
  unfold Simulation.enter
  cases mismatch? values with
  | some error => exact .pure _
  | none =>
  refine .ite (.pure _) ?_
  cases f.limitOf container with
  | none => exact .insert hrun container id values
  | some limit => exact .ite (.pure _) (.insert hrun container id values)

theorem createEntity (container : EntityRef) (id : Option EntityId) (values : List (AttributeKey × Value)) :
    Carries P P fails (Simulation.createEntity run container id values) := by
  refine .bind (.ask _) fun f => .ite (.pure _) ?_
  cases id with
  | some id => exact .bind (.pure id) (.enter hrun container values f)
  | none => exact .bind (.onForest _) (.enter hrun container values f)

theorem bury (bound : Bool) (e : EntityRef) (children : List EntityRef)
    (hdie : ∀ c, Carries P P fails (Simulation.die run bound depth c)) :
    Carries P P fails (Simulation.bury run bound depth e children) := by
  refine .bind (.forIn _ fun c => .bind (hdie c) fun _ => .pure _) fun _ => ?_
  refine .bind (.ask _) fun listeners => .bind (.forIn _ fun c => ?_) fun _ => .pure _
  exact .bind (.runEach hrun _ _ _) fun _ => .pure _

theorem callSetAttribute (p : Proxy) (k : AttributeKey) (returnsPrevious : Bool) (args : List Arg) :
    Carries P P fails (Simulation.callSetAttribute run p k returnsPrevious args) := by
  unfold Simulation.callSetAttribute
  simp only
  split
  · refine .bind (.setAttribute hrun _ _ _) fun previous => ?_
    cases previous <;> exact .pure _
  · exact .bind (.removeAttribute hrun _ _) fun _ => .pure _
  · exact .pure _

variable (hP : Engine.Enduring P) (hdeep : fails .exhausted)

include hP hdeep

/-- Whoever dies cancels its tasks. -/
theorem die (bound : Bool) (depth : Nat) (e : EntityRef) :
    Carries P P fails (Simulation.die run bound depth e) := by
  induction depth generalizing e with
  | zero => exact .halt hdeep
  | succ depth ih =>
    intro s hs
    cases hlive : s.forest.isAlive e with
    | false =>
      rw [die_of_dead hlive]
      exact hs
    | true =>
      rw [die_of_alive hlive]
      -- The fall touches the engine by the tasks that it cancels, and only if one is bound.
      refine Carries.bury hrun bound e (s.forest.children e) ih (s.slay e bound) ?_
      cases bound with
      | true => exact hP.cancelAll _ hs
      | false => exact hs

theorem killEntity (container : EntityRef) (id : EntityId) :
    Carries P P fails (Simulation.killEntity run depth container id) := by
  refine .bind (.ask _) fun found => ?_
  cases found with
  | none => exact .pure _
  | some e =>
    refine .bind (.onForest _) fun _ => .bind (.ask _) fun bound => ?_
    refine .bind (.die hrun hP hdeep bound depth e) fun _ => ?_
    exact .bind (.announce hrun container _) fun _ => .pure _

theorem killEntities (container : EntityRef) :
    Carries P P fails (Simulation.killEntities run depth container) := by
  refine .bind (.ask _) fun ids => .bind (.forIn _ fun id => ?_) fun _ => .pure _
  exact .bind (.killEntity hrun hP hdeep container id) fun _ => .pure _

theorem kill (e : EntityRef) : Carries P P fails (Simulation.kill run depth e) := by
  refine .bind (.ask _) fun parent => ?_
  cases parent with
  | none => exact .pure _
  | some p => exact .bind (.ask _) fun id => .killEntity hrun hP hdeep p id

theorem shutdown : Carries P P fails (Simulation.shutdown run depth) :=
  .bind (.ask _) fun bound => .die hrun hP hdeep bound depth Forest.root

/-! ## Calls of methods -/

theorem finishCreation (p : Proxy) (e : EntityRef) (type : TypeName) :
    Carries P P fails (Simulation.finishCreation run depth p e type) := by
  have hundone : ∀ answer : Except CallError Return, Carries P P fails (Simulation.ask (·.forest.idOf e) >>=
      fun id => Simulation.killEntity run depth p.entity id >>= fun _ => Pure.pure answer) := fun answer =>
    .bind (.ask _) fun id => .bind (.killEntity hrun hP hdeep p.entity id) fun _ => .pure _
  refine .bind (.markAsType e type) fun marked => ?_
  cases marked with
  | error error => exact hundone _
  | ok _ =>
    refine .bind (.viewAs e type) fun typed => ?_
    cases typed with
    | ok q => exact .pure _
    | error error => exact hundone _

theorem callNewEntity (p : Proxy) (id : Option EntityId) (container : Option Holder)
    (type : Option TypeName) : Carries P P fails (Simulation.callNewEntity run depth p id container type) := by
  cases type with
  | none =>
    refine .bind (.bind (.ask _) fun values => .createEntity hrun _ _ values) fun created => ?_
    cases created <;> exact .pure _
  | some type =>
    refine .bind (.onTypes _) fun resolved => ?_
    cases resolved with
    | error error => exact .pure _
    | ok _ =>
      refine .bind (.bind (.ask _) fun values => .createEntity hrun _ _ values)
        fun created => ?_
      cases created with
      | error error => exact .pure _
      | ok e => exact .finishCreation hrun hP hdeep p e type

theorem perform (p : Proxy) (args : List Arg) (b : Binding β) :
    Carries P P fails (Simulation.perform run depth p args b) := by
  cases b with
  | getAttribute => exact .bind (.ask _) fun _ => .pure _
  | setAttribute => exact .callSetAttribute hrun p _ _ args
  | getEntity type _ ofType id =>
    simp only [Simulation.perform]
    split
    · exact .pure _
    · exact .callGetEntity p type ofType _
  | getEntities type ofType => exact .callGetEntities p type ofType
  | newEntity id container type =>
    simp only [Simulation.perform]
    split
    · exact .pure _
    · exact .callNewEntity hrun hP hdeep p _ _ type
  | killEntity id returnsFlag =>
    simp only [Simulation.perform]
    split
    · exact .pure _
    · exact .bind (.killEntity hrun hP hdeep _ _) fun _ => .pure _
  | killEntities => exact .bind (.killEntities hrun hP hdeep _) fun _ => .pure _
  | markAsType type => exact .bind (.markAsType _ type) fun _ => .pure _
  | unmarkAsType type => exact .bind (.unmarkAsType _ type) fun _ => .pure _
  | scheduleForActor action delay period =>
    refine .bind (.schedule hP _ _ delay period) fun scheduled => ?_
    cases scheduled <;> exact .pure _
  | defaultMethod body => exact hrun (.method p args) body

theorem invoke (p : Proxy) (name : String) (args : List Arg) :
    Carries P P fails (Simulation.invoke run depth p name args) := by
  refine .bind (.onTypes _) fun resolved => ?_
  cases resolved with
  | error error => exact .pure _
  | ok t =>
    simp only
    split
    · exact .pure _
    · exact .perform hrun hP hdeep p args _

theorem invokeKey (p : Proxy) (k : MethodKey) (args : List Arg) :
    Carries P P fails (Simulation.invokeKey run depth p k args) := by
  refine .bind (.ask _) fun table => ?_
  split
  · exact .pure _
  · exact .bind (.perform hrun hP hdeep p args _) fun _ => .pure _

/-! ## Requests -/

/-- A request that begins no tick and makes no call of the engine. -/
theorem uncalled (bound : Nat) {q : Request} (hq : ¬q.IsTick) {e : Engine (Job β)} (hcall : q.call? e = none) :
    Carries P P fails (Simulation.answer run bound q) := by
  cases q with
  | step | stepMany | stepWhileActive | tick => exact absurd trivial hq
  | advance | advanceTo | pause | stop | clearBoundary | flag | cancel => cases hcall
  | dropScheduler ref => exact .dropScheduler hP ref
  | cancelOwned owner id => exact .cancelOwned hP owner id
  | cancelAllOwned owner => exact .cancelAllOwned hP owner
  | create container id source => exact .bind (.ask _) fun values => .createEntity hrun _ _ values
  | killEntity container id => exact .killEntity hrun hP hdeep container id
  | killEntities container => exact .killEntities hrun hP hdeep container
  | kill ref => exact .kill hrun hP hdeep ref
  | shutdown => exact .shutdown hrun hP hdeep
  | bind | unsubscribe | mark | unmark | newScheduler | newAttributes | validateTree =>
    exact .aside fun _ => ⟨_, rfl, rfl⟩
  | setAttribute holder key value => exact .setAttribute hrun holder key value
  | removeAttribute holder key => exact .removeAttribute hrun holder key
  | fireAttribute holder key => exact .fireAttribute hrun holder key
  | clearAttributes holder => exact .onAttributes holder fun a => ((), a.clear)
  | unsubscribeFrom holder key listener => exact .onAttributes holder fun a => a.unsubscribe key listener
  | markAsType ref type => exact .markAsType ref type
  | unmarkAsType ref type => exact .unmarkAsType ref type
  | viewAs ref type => exact .viewAs ref type
  | childAs container id type => exact .childAs container id type
  | childrenAs container type => exact .childrenAs container type
  | invoke proxy method args => exact .invoke hrun hP hdeep proxy method args
  | invokeKey proxy key args => exact .invokeKey hrun hP hdeep proxy key args
  | _ => exact .ask _

end

end Carries

/-- A request that makes a call of the engine does to it what the call does. -/
theorem answer_called {run : Run β μ} {bound : Nat} {q : Request} {c : EngineCall (Job β)}
    (hcall : q.call? s.engine = some c) (h : P (c.effect s.engine)) : Lands P fails (answer run bound q s) := by
  cases q with
  | pause =>
    cases hcall
    rw [EngineCall.effect] at h
    cases hp : s.engine.pause with
    | error error =>
      rw [answer, tryEngine_error (by rw [hp]; rfl)]
      rwa [hp] at h
    | ok e =>
      rw [answer, tryEngine_ok (a := ()) (by rw [hp]; rfl)]
      rwa [hp] at h
  | advance | advanceTo | stop | clearBoundary | flag | cancel =>
    cases hcall
    exact h
  | _ => cases hcall

/-- A request that begins no tick keeps what the call keeps that it makes of the engine, if any. -/
theorem answer_keeps {run : Run β μ} (hrun : RunCarries P fails run) (hP : Engine.Enduring P)
    (hdeep : fails .exhausted) (bound : Nat) {q : Request} (hq : ¬q.IsTick) (hs : P s.engine)
    (hcall : ∀ c, q.call? s.engine = some c → P (c.effect s.engine)) :
    Lands P fails (answer run bound q s) := by
  cases hc : q.call? s.engine with
  | some c => exact answer_called hc (hcall c hc)
  | none => exact Carries.uncalled hrun hP hdeep bound hq hc s hs

end Simulation

end Vivarium
