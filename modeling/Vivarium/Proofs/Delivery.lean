import Vivarium.Proofs.Announcing
import Vivarium.Proofs.Arrivals

/-! # Listeners that act

Listeners of containers may create and kill. Whatever is created or killed then, what they are told is
true, and every creation is told in full.
-/

namespace Vivarium

/-- The request creates, kills or changes nothing. -/
def Request.lives : Request → Bool
  | .create _ _ _ => true
  | q => q.kills || q.looks

/-- The listener notes every event, creates, kills and looks around, and notes that it is done. -/
def Notebook.Attends {μ : Type} (nb : Notebook μ Report) (l : Listener (Code μ)) : Prop :=
  ∀ event, ∃ p : Program μ .listener, p.Keeps Request.lives nb ∧
    l.code (.entityEvent event) = (nb.look .told l.id event).andThen fun _ => p.andThen fun _ =>
      nb.look .done l.id event

namespace Simulation

variable {μ : Type} {nb : Notebook μ Report} {s s' s'' : Simulation (Code μ) μ} {n depth : Nat}
  {bound : Bool} {e c p container : EntityRef} {event : EntityEvent} {rs rs' : List Report}

/-- All listeners attend, and children stand in the order of their making. -/
structure Ready (nb : Notebook μ Report) (s : Simulation (Code μ) μ) : Prop where
  attended : s.forest.Attended nb.Attends
  ascending : s.forest.Ascending

/-- What is told from `s` to `s'`: the truth, and every creation in full. Nobody is attached or
detached. -/
structure Delivers (s : Simulation (Code μ) μ) (rs : List Report) (s' : Simulation (Code μ) μ) : Prop where
  truth : s.forest.Witnesses s'.forest rs
  relays : s.forest.Relays s'.forest rs
  listeners : ∀ x, (s'.forest.entity x).listeners = (s.forest.entity x).listeners

instance Ready.composes (nb : Notebook μ Report) : Composes (Ready nb) Delivers where
  still h _ := ⟨⟨h.attended, h.ascending⟩, .nothing (.refl _), .nothing rfl, fun _ => rfl⟩
  append h h' := ⟨h.truth.append h'.truth, .append h.truth h.relays h'.truth.grows h'.listeners h'.relays,
    fun x => (h'.listeners x).trans (h.listeners x)⟩

theorem Delivers.nothing (hgrows : s.forest.Grows s'.forest) (hsize : s'.forest.size = s.forest.size)
    (hlisteners : ∀ x, (s'.forest.entity x).listeners = (s.forest.entity x).listeners) :
    s.Delivers [] s' := ⟨.nothing hgrows, .nothing hsize, hlisteners⟩

theorem Ready.after (h : s.Ready nb) (ht : s.Touches (fun _ => True) s')
    (hlisteners : ∀ x, (s'.forest.entity x).listeners = (s.forest.entity x).listeners) : s'.Ready nb :=
  ⟨h.attended.of_listeners hlisteners, ht.ascending h.ascending⟩

theorem slay_delivers (e : EntityRef) (bound : Bool) (s : Simulation (Code μ) μ) :
    s.Delivers [] (s.slay e bound) :=
  .nothing (Forest.grows_fell e bound s.forest) (Forest.size_modify _ _ _) fun _ =>
    Forest.field_modify (·.listeners) fun _ => rfl

theorem Ready.slay (h : s.Ready nb) (e : EntityRef) (bound : Bool) : (s.slay e bound).Ready nb :=
  h.after (.head (.engine _) (.single (.fall e bound))) (slay_delivers e bound s).listeners

theorem cut_delivers (container c : EntityRef) (s : Simulation (Code μ) μ) :
    s.Delivers [] { s with forest := s.forest.removeChild container c } :=
  .nothing (Forest.grows_removeChild container c _) (Forest.size_removeChild _ _ _) fun _ =>
    Forest.field_modify (·.listeners) fun _ => rfl

theorem Ready.cut (h : s.Ready nb) (container c : EntityRef) :
    Ready nb { s with forest := s.forest.removeChild container c } :=
  h.after (.single (.cut container c)) (cut_delivers container c s).listeners

/-! ## One listener -/

theorem report_witnessed (stage : TurnStage) (l : ListenerId) (hmade : event.ref.index < s.forest.size)
    (hkilled : ∀ x, event = .killed x → s.forest.isAlive x = false) :
    s.forest.Witnesses s.forest [s.report stage l event] where
  grows := .refl _
  made := by simpa [report] using hmade
  alive := by simp [report]
  dead := by simp [report]
  fading := List.pairwise_singleton _ _
  killed := by
    simp only [List.mem_singleton, forall_eq]
    intro x hx
    obtain rfl : event = .killed x := hx
    exact hkilled x rfl

theorem heralds_report (stage : TurnStage) (l : ListenerId) (e : EntityRef) (s : Simulation (Code μ) μ) :
    (s.report stage l (.created e)).heralds e = true := Report.heralds_iff.mpr rfl

theorem turn_witnessed {l : ListenerId} (hmade : event.ref.index < s.forest.size)
    (hkilled : ∀ x, event = .killed x → s.forest.isAlive x = false)
    (h : s.forest.Witnesses s'.forest rs) :
    s.forest.Witnesses s'.forest (s.report .told l event :: rs ++ [s'.report .done l event]) := by
  have hmade' : event.ref.index < s'.forest.size := Nat.lt_of_lt_of_le hmade h.grows.size
  refine ((report_witnessed .told l hmade hkilled).append h).append
    (report_witnessed .done l hmade' fun x hx => ?_)
  subst hx
  exact h.grows.dead hmade (hkilled x rfl)

/-- A listener who is told of an event notes it, and when it is done it notes what it has left. -/
def TurnsDeliver (nb : Notebook μ Report) (run : Run (Code μ) μ) : Prop :=
  ∀ (l : Listener (Code μ)) (event : EntityEvent) (s s' : Simulation (Code μ) μ), nb.Attends l →
    s.Ready nb → run (.entityEvent event) l.code s = .ok ((), s') → s'.Ready nb ∧
      ∃ rs, nb.heard s'.memory =
          nb.heard s.memory ++ (s.report .told l.id event :: rs ++ [s'.report .done l.id event]) ∧
        s.Delivers rs s'

theorem turn_delivers
    (hn : ∀ p : Program μ .listener, p.Keeps Request.lives nb →
      Logs nb (Ready nb) Delivers (p.exec (runCode n) n)) :
    TurnsDeliver nb (runCode (n + 1)) := by
  intro l event s s' hl hs hact
  obtain ⟨p, hp, hcode⟩ := hl event
  have hexec : runCode (n + 1) (.entityEvent event) l.code s = Program.exec (r := .listener) (runCode n) n
      ((nb.look .told l.id event).andThen fun _ => p.andThen fun _ => nb.look .done l.id event) s := by
    change (l.code (.entityEvent event)).exec (runCode n) n s = _
    rw [hcode]
    rfl
  rw [hexec] at hact
  exact Logs.between (·.report .told l.id event) (·.report .done l.id event)
    (exec_look .told l.id event) (exec_look .done l.id event) (fun _ _ => rfl) (hn p hp) hs hact

section

variable (hturn : TurnsDeliver nb (runCode n))

include hturn

/-! ## Death -/

theorem tell_killed (ls : List (Listener (Code μ))) (hls : ∀ l ∈ ls, nb.Attends l) (hs : s.Ready nb)
    (hmade : c.index < s.forest.size) (hdead : s.forest.isAlive c = false) :
    LogsAt nb (Ready nb) Delivers (ForIn.forIn ls PUnit.unit fun l _ =>
      runCode n (.entityEvent (.killed c)) l.code >>= fun _ => Pure.pure (.yield PUnit.unit)) s := by
  apply LogsAt.forIn (C := fun s => c.index < s.forest.size ∧ s.forest.isAlive c = false)
    ls _ _ hs ⟨hmade, hdead⟩
  · rintro s rs s' ⟨hmade, hdead⟩ hrs
    exact ⟨Nat.lt_of_lt_of_le hmade hrs.truth.grows.size, hrs.truth.grows.dead hmade hdead⟩
  · rintro l hl s hs ⟨hmade, hdead⟩
    apply LogsAt.answers
    intro _ s' hact
    obtain ⟨hs', rs, hheard, hrs⟩ := hturn l (.killed c) s s' (hls l hl) hs hact
    refine ⟨hs', _, hheard, turn_witnessed hmade ?_ hrs.truth, ?_, hrs.listeners⟩
    · rintro x hx
      obtain rfl := EntityEvent.killed.inj hx
      exact hdead
    · constructor
      · intro r hr x hx
        simp only [List.cons_append, List.mem_cons, List.mem_append, List.not_mem_nil, or_false] at hr
        rcases hr with rfl | hr | rfl
        · cases hx
        · exact hrs.relays.fresh r hr x hx
        · cases hx
      · intro x hnew hx
        obtain ⟨p, hp, hrelay⟩ := hrs.relays.whole x hnew hx
        refine ⟨p, hp, ?_⟩
        simpa [report, Report.heralds] using hrelay

theorem tellEach_killed (cs : List EntityRef) (ls : List (Listener (Code μ)))
    (hls : ∀ l ∈ ls, nb.Attends l) (hs : s.Ready nb)
    (hcs : ∀ c ∈ cs, c.index < s.forest.size ∧ s.forest.isAlive c = false) :
    LogsAt nb (Ready nb) Delivers (ForIn.forIn cs PUnit.unit fun c _ =>
      (ForIn.forIn ls PUnit.unit fun l _ => runCode n (.entityEvent (.killed c)) l.code >>= fun _ =>
        Pure.pure (.yield PUnit.unit)) >>= fun _ => Pure.pure (.yield PUnit.unit)) s := by
  apply LogsAt.forIn
    (C := fun s => ∀ c ∈ cs, c.index < s.forest.size ∧ s.forest.isAlive c = false) cs _ _ hs hcs
  · intro s rs s' hcs hrs c hc
    obtain ⟨hmade, hdead⟩ := hcs c hc
    exact ⟨Nat.lt_of_lt_of_le hmade hrs.truth.grows.size, hrs.truth.grows.dead hmade hdead⟩
  · intro c hc s hs hcs
    exact (tell_killed hturn ls hls hs (hcs c hc).1 (hcs c hc).2).answers _

theorem announce_killed (hs : s.Ready nb) (hmade : c.index < s.forest.size)
    (hdead : s.forest.isAlive c = false) :
    LogsAt nb (Ready nb) Delivers (announce (runCode n) container (.killed c)) s :=
  .asked ((tell_killed hturn _ (hs.attended container) hs hmade hdead).answers _)

omit hturn in
theorem dies_dead (cs : List EntityRef) (hcs : ∀ c ∈ cs, c.index < s.forest.size) {u : PUnit}
    (hact : (ForIn.forIn cs PUnit.unit fun c _ => die (runCode n) bound depth c >>= fun _ =>
      Pure.pure (.yield PUnit.unit)) s = .ok (u, s')) : ∀ c ∈ cs, s'.forest.isAlive c = false := by
  induction cs generalizing s with
  | nil => simp
  | cons c cs ih =>
    -- What the listeners do in the turns of the others brings nobody back.
    rw [List.forIn_cons, bind_assoc] at hact
    obtain ⟨_, s₁, hdie, hrest⟩ := bind_ok hact
    obtain ⟨hc, hcs⟩ := List.forall_mem_cons.mp hcs
    have hrun := (runCode_follows (μ := μ) n).listeners
    have hgrows := (FollowsAt.die hrun trivial bound depth c s).grows hdie
    have hgrows' : s₁.forest.Grows s'.forest :=
      (FollowsAt.forEach cs (fun c _ => FollowsAt.die hrun trivial bound depth c) s₁).grows hrest
    refine List.forall_mem_cons.mpr ⟨?_, ih (fun d hd => Nat.lt_of_lt_of_le (hcs d hd) hgrows.size) hrest⟩
    exact hgrows'.dead (Nat.lt_of_lt_of_le hc hgrows.size) (die_dead hrun trivial hdie hc)

theorem die_delivers (bound : Bool) (depth : Nat) (e : EntityRef) :
    Logs nb (Ready nb) Delivers (die (runCode n) bound depth e) := by
  induction depth generalizing e with
  | zero => rintro s - _ _ ⟨⟩
  | succ depth ih =>
    intro s hs
    cases hlive : s.forest.isAlive e with
    | false =>
      apply LogsAt.still hs
      intro _ s' hact
      rw [die_of_dead hlive] at hact
      cases hact
      rfl
    | true =>
      apply LogsAt.from_later (slay_delivers e bound s) rfl (die_of_alive hlive)
      have hs₀ := hs.slay e bound
      have hmade : ∀ c ∈ s.forest.children e, c.index < (s.slay e bound).forest.size := by
        intro c hc
        rw [(show (s.slay e bound).forest.size = s.forest.size from Forest.size_modify _ _ _)]
        exact hs.ascending.made e c hc
      apply LogsAt.bind (Logs.forIn _ (fun c _ => (ih c).answers _) _ hs₀)
      intro _ s₁ rs hdies hs₁ hrs
      have hdead := dies_dead _ hmade hdies
      apply LogsAt.asked
      apply LogsAt.answers
      apply tellEach_killed hturn _ _ (hs₁.attended e) hs₁
      intro c hc
      exact ⟨Nat.lt_of_lt_of_le (hmade c hc) hrs.truth.grows.size, hdead c hc⟩

theorem killEntity_delivers (depth : Nat) (container : EntityRef) (id : EntityId) :
    Logs nb (Ready nb) Delivers (killEntity (runCode n) depth container id) := by
  intro s hs
  cases hc : s.forest.child? container id with
  | none =>
    apply LogsAt.still hs
    intro _ s' hact
    rw [killEntity_of_none hc] at hact
    cases hact
    rfl
  | some c =>
    apply LogsAt.from_later (cut_delivers container c s) rfl (killEntity_of_some hc)
    have hs₀ := hs.cut container c
    have hmade : c.index < (s.forest.removeChild container c).size := by
      rw [Forest.size_removeChild]
      exact hs.ascending.made container c (Forest.mem_of_child? hc).1
    apply (die_delivers hturn _ depth c _ hs₀).bind
    intro _ s₁ rs hdie hs₁ hrs
    have hdead := die_dead (runCode_follows n).listeners trivial hdie hmade
    exact (announce_killed hturn hs₁ (Nat.lt_of_lt_of_le hmade hrs.truth.grows.size) hdead).answers _

theorem killEntities_delivers (depth : Nat) (container : EntityRef) :
    Logs nb (Ready nb) Delivers (killEntities (runCode n) depth container) := by
  apply Logs.asked
  intro ids
  apply Logs.answers
  apply Logs.forIn
  intro id _
  exact (killEntity_delivers hturn depth container id).answers _

theorem kill_delivers (depth : Nat) (e : EntityRef) :
    Logs nb (Ready nb) Delivers (kill (runCode n) depth e) := by
  apply Logs.asked
  intro parent
  cases parent with
  | none => exact .pure _
  | some p => exact .asked fun id => killEntity_delivers hturn depth p id

theorem shutdown_delivers (depth : Nat) : Logs nb (Ready nb) Delivers (shutdown (runCode n) depth) :=
  .asked fun bound => die_delivers hturn bound depth _

/-! ## Creation -/

theorem tell_created (ls : List (Listener (Code μ))) (hls : ∀ l ∈ ls, nb.Attends l) (hs : s.Ready nb)
    (hmade : e.index < s.forest.size) {u : PUnit}
    (hact : (ForIn.forIn ls PUnit.unit fun l _ => runCode n (.entityEvent (.created e)) l.code >>= fun _ =>
      Pure.pure (.yield PUnit.unit)) s = .ok (u, s')) :
    s'.Ready nb ∧ ∃ rs, nb.heard s'.memory = nb.heard s.memory ++ rs ∧ s.forest.Witnesses s'.forest rs ∧
      s.forest.Relays s'.forest (rs.filter fun r => !r.heralds e) ∧
      Relay e (s.forest.isAlive e) (ls.map (·.id)) (rs.filter (Report.heralds e)) ∧
      ∀ x, (s'.forest.entity x).listeners = (s.forest.entity x).listeners := by
  induction ls generalizing s with
  | nil =>
    cases hact
    exact ⟨hs, [], (List.append_nil _).symm, .nothing (.refl _), .nothing rfl, .nil _, fun _ => rfl⟩
  | cons l ls ih =>
    rw [List.forIn_cons, bind_assoc] at hact
    obtain ⟨_, s₁, hfirst, hrest⟩ := bind_ok hact
    obtain ⟨hl, hls⟩ := List.forall_mem_cons.mp hls
    obtain ⟨hs₁, rs₁, hheard₁, hrs₁⟩ := hturn l (.created e) s s₁ hl hs hfirst
    -- Within the turn nothing is told of the creation of `e`, which was made before.
    have hmade₁ := Nat.lt_of_lt_of_le hmade hrs₁.truth.grows.size
    obtain ⟨hs', rs₂, hheard₂, htruth₂, hrelays₂, hrelay₂, hsame₂⟩ := ih hls hs₁ hmade₁ hrest
    have htruth₁ : s.forest.Witnesses s₁.forest (s.report .told l.id (.created e) :: rs₁ ++
        [s₁.report .done l.id (.created e)]) := turn_witnessed hmade (by rintro _ ⟨⟩) hrs₁.truth
    have hquiet := hrs₁.relays.filter_eq_nil hmade
    have hkept : rs₁.filter (fun r => !r.heralds e) = rs₁ := by
      rw [List.filter_eq_self]
      rw [List.filter_eq_nil_iff] at hquiet
      simpa using hquiet
    refine ⟨hs', _, ?_, htruth₁.append htruth₂, ?_, ?_, ?_⟩
    · rw [hheard₂, hheard₁, List.append_assoc]
    · have hrelays := Forest.Relays.append hrs₁.truth hrs₁.relays htruth₂.grows hsame₂ hrelays₂
      simpa [heralds_report, hkept] using hrelays
    · have hrelay : Relay e (s.forest.isAlive e) (l.id :: ls.map (·.id))
          (s.report .told l.id (.created e) :: s₁.report .done l.id (.created e) ::
            rs₂.filter (Report.heralds e)) := .cons _ _ _ _ hrelay₂
      simpa [heralds_report, hquiet] using hrelay
    · intro x
      rw [hsame₂, hrs₁.listeners]

omit hturn in
/-- A child has come, and nobody was told of it yet. -/
def welcome (container : EntityRef) (id : EntityId) (values : List (AttributeKey × Value))
    (s : Simulation (Code μ) μ) : Simulation (Code μ) μ :=
  { s with forest :=
      (s.forest.insertChild container { id, attributes := AttributeSet.putAll values ⟨id, [], []⟩ }).2 }

omit hturn in
theorem insert_eq (id : EntityId) (values : List (AttributeKey × Value)) (s : Simulation (Code μ) μ) :
    createEntity.insert (runCode n) container values id s =
      (announce (runCode n) container (.created ⟨s.forest.size⟩) >>= fun _ =>
        Pure.pure (.ok ⟨s.forest.size⟩)) (s.welcome container id values) := bind_of_ok rfl

theorem insert_delivers (id : EntityId) {values : List (AttributeKey × Value)} (hs : s.Ready nb)
    (hp : s.forest.isAlive container = true) (hvalues : ∀ v ∈ values, v.2.type = v.1.type) :
    LogsAt nb (Ready nb) Delivers (createEntity.insert (runCode n) container values id) s := by
  intro a s' hact
  rw [insert_eq] at hact
  obtain ⟨_, _, htold, hdone⟩ := bind_ok hact
  cases hdone
  obtain ⟨ls, _, hask, htold⟩ := bind_ok htold
  cases hask
  obtain ⟨_, _, htell, hdone⟩ := bind_ok htold
  cases hdone
  have hlt := Forest.index_lt_of_isAlive hp
  have hsame : ∀ x, ((s.welcome container id values).forest.entity x).listeners =
      (s.forest.entity x).listeners := Forest.listeners_insertChild hlt rfl
  have hs₁ : (s.welcome container id values).Ready nb := hs.after (.single (.create hp id hvalues)) hsame
  have hmade : (⟨s.forest.size⟩ : EntityRef).index < (s.welcome container id values).forest.size := by
    rw [welcome, Forest.size_insertChild]
    exact Nat.lt_succ_self _
  have halive : (s.welcome container id values).forest.isAlive ⟨s.forest.size⟩ = true :=
    congrArg Entity.alive (Forest.entity_insertChild_new hlt _)
  obtain ⟨hs', rs, hheard, htruth, hrelays, hrelay, hsame'⟩ :=
    tell_created hturn _ (hs₁.attended container) hs₁ hmade htell
  rw [halive, ← hsame' container] at hrelay
  refine ⟨hs', rs, hheard, ?_, .insert hlt htruth hrelays hrelay, fun x => (hsame' x).trans (hsame x)⟩
  exact (Forest.Witnesses.nothing (Forest.grows_insertChild hlt _)).append htruth

theorem createEntity_delivers (container : EntityRef) (id : Option EntityId)
    (values : List (AttributeKey × Value)) :
    Logs nb (Ready nb) Delivers (createEntity (runCode n) container id values) := by
  have henter : ∀ (f : Forest (Code μ)) (id : EntityId) (s : Simulation (Code μ) μ), s.Ready nb →
      s.forest.isAlive container = true →
      LogsAt nb (Ready nb) Delivers (enter (runCode n) container values f id) s := by
    intro f id s hs hp
    cases hmismatch : mismatch? values with
    | some error =>
      apply LogsAt.still hs
      intro _ s' hact
      rw [enter_of_mismatch hmismatch] at hact
      cases hact
      rfl
    | none =>
    have hvalues := mismatch?_eq_none.mp hmismatch
    rw [enter_of_typed hmismatch]
    split
    · exact .pure hs _
    · split
      · split
        · exact .pure hs _
        · exact insert_delivers hturn id hs hp hvalues
      · exact insert_delivers hturn id hs hp hvalues
  intro s hs
  cases hlive : s.forest.isAlive container with
  | false =>
    apply LogsAt.still hs
    intro _ s' hact
    rw [createEntity_of_dead hlive] at hact
    cases hact
    rfl
  | true =>
    cases id with
    | some id =>
      intro a s' hact
      rw [createEntity_of_alive hlive] at hact
      exact henter s.forest id s hs hlive a s' hact
    | none =>
      have hsame : ∀ x, (s.forest.drawId.2.entity x).listeners = (s.forest.entity x).listeners :=
        fun _ => rfl
      have hdraw : s.Delivers [] { s with forest := s.forest.drawId.2 } :=
        .nothing (Forest.SameWork.drawId s.forest).toSameTree.grows rfl hsame
      apply LogsAt.from_later hdraw rfl (createEntity_of_alive hlive)
      exact henter _ _ _ (hs.after (.single .drawId) hsame) hlive

/-! ## Programs -/

theorem answer_delivers (bound : Nat) {q : Request} (hq : q.lives = true) :
    Logs nb (Ready nb) Delivers (answer (runCode n) bound q) := by
  by_cases hlooks : q.looks = true
  · exact .looks hlooks
  · cases q with
    | create container id source =>
      exact .asked fun values => createEntity_delivers hturn container id values
    | killEntity container id => exact killEntity_delivers hturn bound container id
    | killEntities container => exact killEntities_delivers hturn bound container
    | kill e => exact kill_delivers hturn bound e
    | shutdown => exact shutdown_delivers hturn bound
    | _ => first | exact (hlooks rfl).elim | cases hq

end

theorem runCode_delivers (nb : Notebook μ Report) (n : Nat) : TurnsDeliver nb (runCode n) := by
  induction n with
  | zero => rintro _ _ _ _ _ _ ⟨⟩
  | succ n ih =>
    exact turn_delivers fun p hp => .exec (fun q hq => answer_delivers ih n hq) hp

theorem execute_delivers {r : Role} {p : Program μ r} (hp : p.Keeps Request.lives nb) :
    Logs nb (Ready nb) Delivers (execute n p) :=
  .exec (fun _ hq => answer_delivers (runCode_delivers nb n) n hq) hp

end Simulation

end Vivarium
