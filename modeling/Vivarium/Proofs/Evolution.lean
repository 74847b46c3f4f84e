import Vivarium.Proofs.Marking
import Vivarium.Proofs.Tree

/-! # How a simulation evolves

Whatever is asked for changes a simulation by a few kinds of touches, one after the other. What every
touch keeps holds of all simulations that programs lead to.
-/

namespace Vivarium

/-- One change of a set of attributes or of who listens to it. -/
inductive AttributeSet.Edit {β : Type} (a : AttributeSet β) : AttributeSet β → Prop
  | put {k : AttributeKey} {v : Value} (hv : v.type = k.type) : Edit a (a.put k v)
  | erase (k : AttributeKey) : Edit a (a.erase k)
  | clear : Edit a a.clear
  | subscribe (k : AttributeKey) (l : Listener β) : Edit a (a.subscribe k l).2
  | unsubscribe (k : AttributeKey) (id : ListenerId) : Edit a (a.unsubscribe k id).2

/-- It marks and unmarks none by hand but the entities of `raw`. -/
def Request.MarksOnly (raw : EntityRef → Prop) : Request → Prop
  | .mark e _ => raw e
  | .unmark e _ => raw e
  | _ => True

theorem Request.marksOnly_all (q : Request) : q.MarksOnly fun _ => True := by
  cases q <;> trivial

namespace Simulation

variable {β μ α γ ι : Type} {raw : EntityRef → Prop} {s s' : Simulation β μ}

def withAttributes (h : Holder) (attributes : AttributeSet β) (s : Simulation β μ) : Simulation β μ :=
  match h with
  | .entity e => { s with forest := s.forest.modify e fun x => { x with attributes } }
  | .standalone i => { s with standalone := s.standalone.modify i fun _ => attributes }

theorem onAttributes_eq (h : Holder) (f : AttributeSet β → α × AttributeSet β) (s : Simulation β μ) :
    onAttributes h f s =
      .ok ((f (s.attributesOf h)).1, s.withAttributes h (f (s.attributesOf h)).2) := by
  cases h <;> rfl

/-- One change of a simulation. Only the entities of `raw` are marked and unmarked by hand. -/
inductive Touch (raw : EntityRef → Prop) (s : Simulation β μ) : Simulation β μ → Prop
  | engine (engine : Engine (Job β)) : Touch raw s { s with engine }
  | memory (memory : μ) : Touch raw s { s with memory }
  | register {d : TypeDecl β} {types : TypeRegistry β} (h : s.types.register d = .ok types) :
    Touch raw s { s with types }
  | resolve (type : TypeName) : Touch raw s { s with types := (s.types.resolve type).2 }
  | validate (type : TypeName) : Touch raw s { s with types := (s.types.validateTree type).2 }
  | schedulers (schedulers : List (SchedulerRef × TaskTracker)) (nextScheduler : Nat) :
    Touch raw s { s with schedulers, nextScheduler }
  | retask (e : EntityRef) (tasks : TaskTracker) : Touch raw s { s with forest := s.forest.retask e tasks }
  | newAttributes (owner : EntityId) : Touch raw s { s with standalone := s.standalone.push ⟨owner, [], []⟩ }
  | edit (h : Holder) {a : AttributeSet β} (ha : (s.attributesOf h).Edit a) :
    Touch raw s (s.withAttributes h a)
  | mark {e : EntityRef} (he : raw e) (type : TypeName) :
    Touch raw s { s with forest := (s.forest.mark e type).2 }
  | unmark {e : EntityRef} (he : raw e) (type : TypeName) :
    Touch raw s { s with forest := (s.forest.unmark e type).2 }
  | markAs {e : EntityRef} {type : TypeName} {a : Except TypeError Bool} {s' : Simulation β μ}
    (h : markAsType e type s = .ok (a, s')) : Touch raw s s'
  | unmarkAs {e : EntityRef} {type : TypeName} {a : Except TypeError Bool} {s' : Simulation β μ}
    (h : unmarkAsType e type s = .ok (a, s')) : Touch raw s s'
  | subscribe (e : EntityRef) (l : Listener β) :
    Touch raw s { s with forest := (s.forest.subscribe e l).2 }
  | unsubscribe (e : EntityRef) (id : ListenerId) :
    Touch raw s { s with forest := (s.forest.unsubscribe e id).2 }
  | drawId : Touch raw s { s with forest := s.forest.drawId.2 }
  | bind (bound : Bool) : Touch raw s { s with forest := { s.forest with bound } }
  | create {p : EntityRef} (hp : s.forest.isAlive p = true) (id : EntityId)
    {values : List (AttributeKey × Value)} (hvalues : ∀ v ∈ values, v.2.type = v.1.type) : Touch raw s { s with
      forest := (s.forest.insertChild p { id, attributes := AttributeSet.putAll values ⟨id, [], []⟩ }).2 }
  | cut (p c : EntityRef) : Touch raw s { s with forest := s.forest.removeChild p c }
  | fall (e : EntityRef) (bound : Bool) : Touch raw s { s with forest := s.forest.fell e bound }

def Touches (raw : EntityRef → Prop) : Simulation β μ → Simulation β μ → Prop :=
  Relation.ReflTransGen (Touch raw)

/-- What the operation does, wherever it ends, is a number of touches. -/
def Evolves (raw : EntityRef → Prop) (act : Act β μ α) : Prop :=
  ∀ s a s', act s = .ok (a, s') → s.Touches raw s'

def RunEvolves (raw : EntityRef → Prop) (run : Run β μ) : Prop := ∀ o code, Evolves raw (run o code)

namespace Evolves

variable {act : Act β μ α}

theorem bind {next : α → Act β μ γ} (h : Evolves raw act) (hn : ∀ a, Evolves raw (next a)) :
    Evolves raw (act >>= next) := by
  intro s c s'' hact
  obtain ⟨a, s', hact, hnext⟩ := bind_ok hact
  exact (h s a s' hact).trans (hn a s' c s'' hnext)

theorem still (h : ∀ s a s', act s = .ok (a, s') → s' = s) : Evolves raw act := by
  intro s a s' hact
  rw [h s a s' hact]
  exact .refl

theorem touch (h : ∀ s a s', act s = .ok (a, s') → s.Touch raw s') : Evolves raw act :=
  fun s a s' hact => .single (h s a s' hact)

theorem pure (a : α) : Evolves raw (Pure.pure a : Act β μ α) := by
  refine .still fun s _ s' hact => ?_
  cases hact
  rfl

theorem halt (why : Halt) : Evolves raw (Simulation.halt why : Act β μ α) := by
  rintro _ _ _ ⟨⟩

theorem ask (f : Simulation β μ → α) : Evolves raw (Simulation.ask f) := by
  refine .still fun s _ s' hact => ?_
  cases hact
  rfl

theorem forIn {f : ι → PUnit → Act β μ (ForInStep PUnit)} (xs : List ι) (h : ∀ x, Evolves raw (f x ⟨⟩)) :
    Evolves raw (ForIn.forIn xs ⟨⟩ f) := by
  induction xs with
  | nil => exact .pure _
  | cons x xs ih =>
    rw [List.forIn_cons]
    refine .bind (h x) fun step => ?_
    cases step with
    | done => exact .pure _
    | yield => exact ih

theorem ite {p : Prop} [Decidable p] {act' : Act β μ α} (h : Evolves raw act) (h' : Evolves raw act') :
    Evolves raw (if p then act else act') := by
  split
  · exact h
  · exact h'

theorem onEngine (f : Engine (Job β) → α × Engine (Job β)) :
    Evolves raw (Simulation.onEngine f : Act β μ α) := by
  refine .touch fun s a s' hact => ?_
  cases hact
  exact .engine _

theorem onForest {f : Forest β → α × Forest β}
    (h : ∀ s : Simulation β μ, s.Touch raw { s with forest := (f s.forest).2 }) :
    Evolves raw (Simulation.onForest f : Act β μ α) := by
  refine .touch fun s a s' hact => ?_
  cases hact
  exact h s

theorem onTypes {f : TypeRegistry β → α × TypeRegistry β}
    (h : ∀ s : Simulation β μ, s.Touch raw { s with types := (f s.types).2 }) :
    Evolves raw (Simulation.onTypes f : Act β μ α) := by
  refine .touch fun s a s' hact => ?_
  cases hact
  exact h s

theorem onAttributes (h : Holder) {f : AttributeSet β → α × AttributeSet β}
    (hf : ∀ a : AttributeSet β, a.Edit (f a).2) : Evolves raw (Simulation.onAttributes h f : Act β μ α) := by
  refine .touch fun s a s' hact => ?_
  rw [onAttributes_eq] at hact
  cases hact
  exact .edit h (hf _)

/-! ## Types and marks -/

theorem mark {e : EntityRef} (he : raw e) (type : TypeName) :
    Evolves raw (Simulation.onForest (·.mark e type) : Act β μ Bool) := .onForest fun _ => .mark he type

theorem unmark {e : EntityRef} (he : raw e) (type : TypeName) :
    Evolves raw (Simulation.onForest (·.unmark e type) : Act β μ Bool) :=
  .onForest fun _ => .unmark he type

theorem markAsType (e : EntityRef) (type : TypeName) :
    Evolves raw (Simulation.markAsType e type : Act β μ _) := .touch fun _ _ _ hact => .markAs hact

theorem unmarkAsType (e : EntityRef) (type : TypeName) :
    Evolves raw (Simulation.unmarkAsType e type : Act β μ _) := .touch fun _ _ _ hact => .unmarkAs hact

theorem resolveType (type : TypeName) : Evolves raw (Simulation.resolveType type : Act β μ _) :=
  .onTypes fun _ => .resolve type

theorem viewAs (e : EntityRef) (type : TypeName) : Evolves raw (Simulation.viewAs e type : Act β μ _) :=
  .bind (.resolveType type) fun _ => .pure _

theorem viewAllAs (type : TypeName) (es : List EntityRef) :
    Evolves raw (Simulation.viewAllAs type es : Act β μ _) := by
  induction es with
  | nil => exact .pure _
  | cons e es ih =>
    refine .bind (.viewAs e type) fun p => ?_
    cases p with
    | error error => exact .pure _
    | ok p => exact .bind ih fun _ => .pure _

theorem childAs (container : EntityRef) (id : EntityId) (type : TypeName) :
    Evolves raw (Simulation.childAs container id type : Act β μ _) := by
  refine .bind (.ask _) fun found => ?_
  cases found with
  | none => exact .pure _
  | some e => exact .bind (.viewAs e type) fun _ => .pure _

theorem childrenAs (container : EntityRef) (type : TypeName) :
    Evolves raw (Simulation.childrenAs container type : Act β μ _) :=
  .bind (.ask _) fun es => .viewAllAs type es

/-! ## Owned tasks -/

theorem putTracker (o : Owner) (t : TaskTracker) (s : Simulation β μ) : s.Touches raw (s.putTracker o t) := by
  cases o with
  | nobody => exact .refl
  | entity e => exact .single (.retask e t)
  | scheduler r => exact .single (.schedulers _ _)

theorem changeTracker (o : Owner) (f : TaskTracker → TaskTracker) :
    Evolves raw (Simulation.changeTracker o f : Act β μ Unit) := by
  intro s a s' hact
  cases hact
  exact putTracker o _ s

theorem schedule (o : Owner) (job : Job β) (delay period : Nat) :
    Evolves raw (Simulation.schedule o job delay period : Act β μ _) := by
  refine .bind (.ask _) fun may => .ite (.pure _) (.bind (.onEngine _) fun scheduled => ?_)
  cases scheduled with
  | error error => exact .pure _
  | ok id => exact .bind (.ask _) fun e => .bind (.changeTracker o _) fun _ => .pure _

theorem cancelOwned (o : Owner) (id : TaskId) : Evolves raw (Simulation.cancelOwned o id : Act β μ _) := by
  refine .bind (.ask _) fun tracker => .ite (.bind (.changeTracker o _) fun _ => ?_) (.pure _)
  exact .bind (.ask _) fun engine => .ite (.onEngine _) (.pure _)

theorem cancelAllOwned (o : Owner) : Evolves raw (Simulation.cancelAllOwned o : Act β μ _) :=
  .bind (.ask _) fun _ => .ite
    (.bind (.ask _) fun _ => .bind (.changeTracker o _) fun _ => .onEngine _) (.pure _)

theorem newScheduler : Evolves raw (Simulation.newScheduler : Act β μ _) := by
  refine .touch fun s a s' hact => ?_
  cases hact
  exact .schedulers _ _

theorem dropScheduler (r : SchedulerRef) : Evolves raw (Simulation.dropScheduler r : Act β μ _) := by
  refine .bind (.ask _) fun there => .ite (.bind (.cancelAllOwned _) fun _ => ?_) (.pure _)
  refine .bind (.touch fun s a s' hact => ?_) fun _ => .pure _
  cases hact
  exact .schedulers _ _

variable {run : Run β μ} {depth : Nat}

section

variable (hrun : RunEvolves raw run)

include hrun

/-! ## Attributes -/

theorem notify (h : Holder) (k : AttributeKey) (v previous : Option Value) :
    Evolves raw (Simulation.notify run h k v previous) :=
  .bind (.ask _) fun _ => .bind (.forIn _ fun _ => .bind (hrun _ _) fun _ => .pure _) fun _ => .pure _

theorem setAttribute (h : Holder) (k : AttributeKey) (v : Value) :
    Evolves raw (Simulation.setAttribute run h k v) := by
  unfold Simulation.setAttribute
  split
  · exact .pure _
  · next hv =>
    refine .bind (.onAttributes h fun a => .put (Decidable.of_not_not hv)) fun previous => ?_
    exact .bind (.notify hrun h k _ _) fun _ => .pure _

theorem removeAttribute (h : Holder) (k : AttributeKey) : Evolves raw (Simulation.removeAttribute run h k) :=
  .bind (.onAttributes h fun _ => .erase k) fun _ => .ite
    (.bind (.notify hrun h k _ _) fun _ => .pure _) (.pure _)

theorem fireAttribute (h : Holder) (k : AttributeKey) : Evolves raw (Simulation.fireAttribute run h k) := by
  refine .bind (.ask _) fun attributes => ?_
  cases attributes.get? k with
  | some v => exact .notify hrun h k _ _
  | none => exact .pure _

/-! ## Creation and death -/

theorem announce (container : EntityRef) (event : EntityEvent) :
    Evolves raw (Simulation.announce run container event) :=
  .bind (.ask _) fun _ => .bind (.forIn _ fun _ => .bind (hrun _ _) fun _ => .pure _) fun _ => .pure _

theorem insert {container : EntityRef} {id : EntityId} {values : List (AttributeKey × Value)}
    (hp : s.forest.isAlive container = true) (hvalues : ∀ v ∈ values, v.2.type = v.1.type)
    {a : Except EntityError EntityRef}
    (hact : createEntity.insert run container values id s = .ok (a, s')) : s.Touches raw s' := by
  obtain ⟨e, s₁, hinsert, hact⟩ := bind_ok hact
  cases hinsert
  refine .head (.create hp id hvalues) ?_
  have hrest : Evolves raw (Simulation.announce run container (.created ⟨s.forest.size⟩) >>= fun _ =>
      (Pure.pure (.ok ⟨s.forest.size⟩) : Act β μ (Except EntityError EntityRef))) :=
    .bind (.announce hrun container _) fun _ => .pure _
  exact hrest _ a s' hact

theorem enter {container : EntityRef} {id : EntityId} {values : List (AttributeKey × Value)} {f : Forest β}
    (hp : s.forest.isAlive container = true) {a : Except EntityError EntityRef}
    (hact : Simulation.enter run container values f id s = .ok (a, s')) : s.Touches raw s' := by
  cases hmismatch : mismatch? values with
  | some error =>
    rw [enter_of_mismatch hmismatch] at hact
    cases hact
    exact .refl
  | none =>
  have hvalues := mismatch?_eq_none.mp hmismatch
  rw [enter_of_typed hmismatch] at hact
  split at hact
  · exact (Evolves.pure _) s a s' hact
  · cases hlimit : f.limitOf container with
    | none =>
      simp only [hlimit] at hact
      exact insert hrun hp hvalues hact
    | some limit =>
      simp only [hlimit] at hact
      split at hact
      · exact (Evolves.pure _) s a s' hact
      · exact insert hrun hp hvalues hact

theorem createEntity (container : EntityRef) (id : Option EntityId) (values : List (AttributeKey × Value)) :
    Evolves raw (Simulation.createEntity run container id values) := by
  intro s a s' hact
  cases hlive : s.forest.isAlive container with
  | false =>
    rw [createEntity_of_dead hlive] at hact
    cases hact
    exact .refl
  | true =>
    rw [createEntity_of_alive hlive] at hact
    cases id with
    | some id => exact enter hrun hlive hact
    | none => exact .head .drawId (enter hrun (s := { s with forest := s.forest.drawId.2 }) hlive hact)

theorem die (bound : Bool) (depth : Nat) (e : EntityRef) : Evolves raw (Simulation.die run bound depth e) := by
  induction depth generalizing e with
  | zero => exact .halt _
  | succ depth ih =>
    intro s a s' hact
    cases hlive : s.forest.isAlive e with
    | false =>
      rw [die_of_dead hlive] at hact
      cases hact
      exact .refl
    | true =>
      rw [die_of_alive hlive] at hact
      have hbury : Evolves raw (bury run bound depth e (s.forest.children e)) := by
        refine .bind (.forIn _ fun c => .bind (ih c) fun _ => .pure _) fun _ => .bind (.ask _) fun ls => ?_
        refine .bind (.forIn _ fun c => .bind ?_ fun _ => .pure _) fun _ => .pure _
        exact .forIn _ fun _ => .bind (hrun _ _) fun _ => .pure _
      exact .head (.engine _) (.head (.fall e bound) (hbury _ a s' hact))

theorem killEntity (container : EntityRef) (id : EntityId) :
    Evolves raw (Simulation.killEntity run depth container id) := by
  intro s a s' hact
  cases hc : s.forest.child? container id with
  | none =>
    rw [killEntity_of_none hc] at hact
    cases hact
    exact .refl
  | some e =>
    rw [killEntity_of_some hc] at hact
    have hrest : Evolves raw (do
        Simulation.die run s.forest.bound depth e
        Simulation.announce run container (.killed e)
        return true) :=
      .bind (.die hrun _ _ _) fun _ => .bind (.announce hrun _ _) fun _ => .pure _
    exact .head (.cut container e) (hrest _ a s' hact)

theorem killEntities (container : EntityRef) : Evolves raw (Simulation.killEntities run depth container) :=
  .bind (.ask _) fun _ => .bind
    (.forIn _ fun id => .bind (.killEntity hrun container id) fun _ => .pure _) fun _ => .pure _

theorem kill (e : EntityRef) : Evolves raw (Simulation.kill run depth e) := by
  refine .bind (.ask _) fun parent => ?_
  cases parent with
  | none => exact .pure _
  | some p => exact .bind (.ask _) fun id => .killEntity hrun p id

theorem shutdown : Evolves raw (Simulation.shutdown run depth) :=
  .bind (.ask _) fun bound => .die hrun bound depth Forest.root

/-! ## Ticks -/

theorem runTask (t : Task (Job β)) : Evolves raw (Simulation.runTask run t) := by
  refine .bind (.still fun s a s' hact => ?_) fun s => .ite (.pure _) (.bind (hrun _ _) fun _ => .pure _)
  cases hact
  rfl

theorem runBoundary (which : Boundary) : Evolves raw (Simulation.runBoundary run which) := by
  refine .bind (.ask _) fun found => ?_
  cases found with
  | none => exact .pure _
  | some t => exact .bind (.runTask hrun t) fun _ => .onEngine _

theorem runDue (ts : List (Task (Job β))) : Evolves raw (Simulation.runDue run ts) := by
  induction ts with
  | nil => exact .pure _
  | cons t ts ih =>
    exact .bind (.onEngine _) fun _ => .bind (.runTask hrun t) fun _ => .bind (.onEngine _) fun _ =>
      .bind (.onEngine _) fun _ => ih

omit hrun in
theorem passBarrier : Evolves raw (Simulation.passBarrier : Act β μ Bool) := by
  refine .bind (.still fun s a s' hact => ?_) fun s => ?_
  · cases hact
    rfl
  · cases s.engine.barrier.await? with
    | none => exact .halt _
    | some p => exact .bind (.onEngine _) fun _ => .pure _

theorem runTick : Evolves raw (Simulation.runTick run) := by
  refine .bind (.ask _) fun start => .bind (.ask _) fun deadline => .bind (.onEngine _) fun _ => ?_
  refine .bind (.runBoundary hrun .first) fun _ => .bind (.onEngine _) fun due => ?_
  refine .bind (.runDue hrun due) fun _ => .bind .passBarrier fun passed => .ite ?_ (.pure _)
  exact .bind (.runBoundary hrun .last) fun _ => .bind (.onEngine _) fun _ => .onEngine _

theorem step : Evolves raw (Simulation.step run) := by
  refine .bind (.ask _) fun running => .ite (.pure _) (.bind (.onEngine _) fun entered => ?_)
  cases entered with
  | error error => exact .pure _
  | ok _ => exact .bind (.runTick hrun) fun _ => .pure _

theorem stepMany (n : Nat) : Evolves raw (Simulation.stepMany run n) := by
  induction n with
  | zero => exact .pure _
  | succ n ih =>
    refine .bind (.ask _) fun state => .ite (.pure _) (.bind (.step hrun) fun stepped => ?_)
    cases stepped with
    | error error => exact .pure _
    | ok _ => exact ih

theorem stepWhileActive (id : TaskId) (bound : Nat) :
    Evolves raw (Simulation.stepWhileActive run id bound) := by
  induction bound with
  | zero => exact .halt _
  | succ bound ih =>
    exact .bind (.ask _) fun active => .ite (.bind (.step hrun) fun _ => ih) (.pure _)

theorem loop (bound : Nat) : Evolves raw (Simulation.loop run bound) := by
  induction bound with
  | zero => exact .halt _
  | succ bound ih => exact .bind (.onEngine _) fun goes => .ite (.bind (.runTick hrun) fun _ => ih) (.pure _)

theorem tick (bound : Nat) : Evolves raw (Simulation.tick run bound) := by
  refine .bind (.onEngine _) fun started => ?_
  cases started with
  | error error => exact .pure _
  | ok drives => exact .ite (.bind (.loop hrun bound) fun _ => .pure _) (.pure _)

/-! ## Calls -/

theorem callSetAttribute (p : Proxy) (k : AttributeKey) (returnsPrevious : Bool) (args : List Arg) :
    Evolves raw (Simulation.callSetAttribute run p k returnsPrevious args) := by
  unfold Simulation.callSetAttribute
  simp only
  split
  · refine .bind (.setAttribute hrun _ _ _) fun previous => ?_
    cases previous <;> exact .pure _
  · exact .bind (.removeAttribute hrun _ _) fun _ => .pure _
  · exact .pure _

omit hrun in
theorem callGetEntity (p : Proxy) (type : TypeName) (ofType : Bool) (id : EntityId) :
    Evolves raw (Simulation.callGetEntity p type ofType id : Act β μ _) := by
  refine .bind (.ask _) fun found => ?_
  cases found with
  | none => exact .pure _
  | some e =>
    refine .bind (.viewAs e type) fun seen => ?_
    cases seen <;> exact .pure _

omit hrun in
theorem callGetEntities (p : Proxy) (type : TypeName) (ofType : Bool) :
    Evolves raw (Simulation.callGetEntities p type ofType : Act β μ _) := by
  refine .bind (.ask _) fun es => .bind (.viewAllAs type es) fun seen => ?_
  cases seen <;> exact .pure _

theorem finishCreation (p : Proxy) (e : EntityRef) (type : TypeName) :
    Evolves raw (Simulation.finishCreation run depth p e type) := by
  have hfails : ∀ answer : Except CallError Return, Evolves raw (Simulation.ask (·.forest.idOf e) >>= fun id =>
      Simulation.killEntity run depth p.entity id >>= fun _ => Pure.pure answer) := fun answer =>
    .bind (.ask _) fun id => .bind (.killEntity hrun p.entity id) fun _ => .pure _
  unfold Simulation.finishCreation
  refine .bind (.markAsType e type) fun marked => ?_
  cases marked with
  | error error => exact hfails _
  | ok _ =>
    refine .bind (.viewAs e type) fun typed => ?_
    cases typed with
    | ok q => exact .pure _
    | error error => exact hfails _

theorem callNewEntity (p : Proxy) (id : Option EntityId) (container : Option Holder)
    (type : Option TypeName) : Evolves raw (Simulation.callNewEntity run depth p id container type) := by
  cases type with
  | none =>
    refine .bind (.bind (.ask _) fun values => .createEntity hrun _ _ values) fun created => ?_
    cases created <;> exact .pure _
  | some type =>
    refine .bind (.resolveType type) fun resolved => ?_
    cases resolved with
    | error error => exact .pure _
    | ok _ =>
      refine .bind (.bind (.ask _) fun values => .createEntity hrun _ _ values) fun created => ?_
      cases created with
      | error error => exact .pure _
      | ok e => exact .finishCreation hrun p e type

theorem perform (p : Proxy) (args : List Arg) (b : Binding β) :
    Evolves raw (Simulation.perform run depth p args b) := by
  cases b with
  | getAttribute => exact .bind (.ask _) fun _ => .pure _
  | setAttribute => exact .callSetAttribute hrun p _ _ args
  | getEntity type _ ofType id =>
    simp only [Simulation.perform]
    split
    · exact .pure _
    · exact .callGetEntity p type ofType _
  | getEntities type ofType => exact .callGetEntities p type ofType
  | newEntity id container type =>
    simp only [Simulation.perform]
    split
    · exact .pure _
    · exact .callNewEntity hrun p _ _ type
  | killEntity id returnsFlag =>
    simp only [Simulation.perform]
    split
    · exact .pure _
    · exact .bind (.killEntity hrun _ _) fun _ => .pure _
  | killEntities => exact .bind (.killEntities hrun _) fun _ => .pure _
  | markAsType type => exact .bind (.markAsType _ type) fun _ => .pure _
  | unmarkAsType type => exact .bind (.unmarkAsType _ type) fun _ => .pure _
  | scheduleForActor action delay period =>
    refine .bind (.schedule _ _ delay period) fun scheduled => ?_
    cases scheduled <;> exact .pure _
  | defaultMethod body => exact hrun (.method p args) body

theorem invoke (p : Proxy) (name : String) (args : List Arg) :
    Evolves raw (Simulation.invoke run depth p name args) := by
  refine .bind (.resolveType p.type) fun resolved => ?_
  cases resolved with
  | error error => exact .pure _
  | ok t =>
    simp only
    split
    · exact .pure _
    · exact .perform hrun p args _

theorem invokeKey (p : Proxy) (k : MethodKey) (args : List Arg) :
    Evolves raw (Simulation.invokeKey run depth p k args) := by
  refine .bind (.ask _) fun table => ?_
  split
  · exact .pure _
  · exact .bind (.perform hrun p args _) fun _ => .pure _

/-! ## Requests and programs -/

theorem answer (bound : Nat) {q : Request} (hq : q.MarksOnly raw) :
    Evolves raw (Simulation.answer run bound q) := by
  cases q with
  | advance | advanceTo | pause | stop | clearBoundary | flag | cancel =>
    refine .touch fun s a s' hact => ?_
    cases hact
    exact .engine _
  | step => exact .step hrun
  | stepMany n => exact .stepMany hrun n
  | stepWhileActive id => exact .stepWhileActive hrun id bound
  | tick => exact .tick hrun bound
  | newScheduler => exact .newScheduler
  | dropScheduler ref => exact .dropScheduler ref
  | cancelOwned owner id => exact .cancelOwned owner id
  | cancelAllOwned owner => exact .cancelAllOwned owner
  | create container id source => exact .bind (.ask _) fun values => .createEntity hrun _ _ values
  | killEntity container id => exact .killEntity hrun container id
  | killEntities container => exact .killEntities hrun container
  | kill ref => exact .kill hrun ref
  | shutdown => exact .shutdown hrun
  | bind bound =>
    refine .touch fun s a s' hact => ?_
    cases hact
    exact .bind bound
  | unsubscribe container listener => exact .onForest fun _ => .unsubscribe container listener
  | mark ref type => exact .mark hq type
  | unmark ref type => exact .unmark hq type
  | newAttributes owner =>
    refine .touch fun s a s' hact => ?_
    cases hact
    exact .newAttributes owner
  | setAttribute holder key value => exact .setAttribute hrun holder key value
  | removeAttribute holder key => exact .removeAttribute hrun holder key
  | fireAttribute holder key => exact .fireAttribute hrun holder key
  | clearAttributes holder => exact onAttributes holder (f := fun a => ((), a.clear)) fun _ => .clear
  | unsubscribeFrom holder key listener => exact .onAttributes holder fun _ => .unsubscribe key listener
  | validateTree type => exact .onTypes fun _ => .validate type
  | markAsType ref type => exact .markAsType ref type
  | unmarkAsType ref type => exact .unmarkAsType ref type
  | viewAs ref type => exact .viewAs ref type
  | childAs container id type => exact .childAs container id type
  | childrenAs container type => exact .childrenAs container type
  | invoke proxy method args => exact .invoke hrun proxy method args
  | invokeKey proxy key args => exact .invokeKey hrun proxy key args
  | _ => exact .ask _

end

section

variable {may : Request → Bool} (hmay : ∀ q, may q = true → q.MarksOnly raw)

include hmay

theorem execWithin {run : Run (Code μ) μ} (hrun : RunEvolves raw run) (bound : Nat) {r : Role}
    (p : Program μ r) : Evolves raw (p.execWithin may run bound) := by
  induction p with
  | done answer => exact .pure answer
  | request q next ih =>
    rw [Program.execWithin]
    split
    · next hq => exact .bind (.answer hrun bound (hmay q hq)) ih
    · exact .halt _
  | memory change next ih =>
    refine .bind (.touch fun s a s' hact => ?_) ih
    cases hact
    exact .memory _
  | schedule owner actor code delay period next _ ih => exact .bind (.schedule _ _ _ _) ih
  | setBoundary which code next _ ih => exact .bind (.onEngine _) fun _ => ih
  | subscribe container listener code next _ ih =>
    exact .bind (.onForest fun _ => .subscribe container _) ih
  | subscribeTo holder key listener code next _ ih =>
    exact .bind (.onAttributes holder fun _ => .subscribe key _) ih

theorem runWithin (n : Nat) : RunEvolves raw (Simulation.runWithin (μ := μ) may n) := by
  induction n with
  | zero => exact fun _ _ => .halt _
  | succ n ih => exact fun o code => execWithin hmay ih n (code o)

theorem executeWithin (n : Nat) {r : Role} (p : Program μ r) :
    Evolves raw (Simulation.executeWithin may n p) := execWithin hmay (.runWithin hmay n) n p

end

theorem runCode (n : Nat) : RunEvolves (fun _ => True) (Simulation.runCode (μ := μ) n) := by
  rw [← runWithin_all]
  exact runWithin (fun q _ => Request.marksOnly_all q) n

theorem execute (n : Nat) {r : Role} (p : Program μ r) :
    Evolves (fun _ => True) (Simulation.execute n p) := by
  rw [← executeWithin_all]
  exact executeWithin (fun q _ => Request.marksOnly_all q) n p

end Evolves

/-! ## What programs lead to -/

variable {s s' : Simulation (Code μ) μ}

/-- A new engine and a lone root, after programs were run and types were declared. -/
inductive Lived : Simulation (Code μ) μ → Prop
  | new {bound : Bool} {s : Simulation (Code μ) μ} (h : s.New bound) (hs : s.standalone = #[]) : Lived s
  | declare {s : Simulation (Code μ) μ} (h : Lived s) (types : TypeRegistry (Code μ)) :
    Lived { s with types }
  | run {s s' : Simulation (Code μ) μ} {n : Nat} {r : Role} {p : Program μ r} {a : r.Answer}
    (h : Lived s) (hact : execute n p s = .ok (a, s')) : Lived s'

theorem Lived.settled (h : s.Lived) : s.Settled := by
  induction h with
  | new h => exact h.settled
  | declare _ types ih =>
    obtain ⟨w, hw, hs⟩ := ih
    exact ⟨w, hw, ⟨hs.engine, hs.forest⟩, hs.calm⟩
  | run _ hact ih => exact ih.after hact

/-- What holds at the beginning and is kept by every touch holds for good. -/
theorem Lived.always {P : Simulation (Code μ) μ → Prop} (h : s.Lived)
    (hnew : ∀ s : Simulation (Code μ) μ, (∃ bound, s.New bound) → s.standalone = #[] → P s)
    (hdeclare : ∀ (s : Simulation (Code μ) μ) types, P s → P { s with types })
    (htouch : ∀ s s' : Simulation (Code μ) μ, s.Touch (fun _ => True) s' → P s → P s') : P s := by
  induction h with
  | new h hs => exact hnew _ ⟨_, h⟩ hs
  | declare _ types ih => exact hdeclare _ types ih
  | run _ hact ih =>
    have hgoes := Evolves.execute _ _ _ _ _ hact
    clear hact
    induction hgoes with
    | refl => exact ih
    | tail _ ht ih' => exact htouch _ _ ht ih'

end Simulation

end Vivarium
