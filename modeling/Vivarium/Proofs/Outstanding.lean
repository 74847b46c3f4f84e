import Mathlib.Data.List.Nodup
import Vivarium.Proofs.Crew

/-! # What is outstanding

The turns that were handed out and have not arrived are with the control thread or with a worker. The
barrier misses exactly as many parties, through every step of every thread.
-/

namespace Vivarium

namespace Engine

variable {β : Type} {e e' : Engine β}

/-- Nothing happens at the barrier, unless it is terminated by a stop. -/
structure Calm (e e' : Engine β) : Prop where
  queue : e.queue.WellFormed → e'.queue.WellFormed
  registered : e'.barrier.registered = e.barrier.registered
  arrived : e'.barrier.arrived = e.barrier.arrived
  terminated : e'.barrier.terminated = true → e.barrier.terminated = true ∨ e'.state = .stopped
  stopped : e.state = .stopped → e'.state = .stopped

theorem wellFormed_effect (h : e.queue.WellFormed) (a : EngineCall β) :
    (a.effect e).queue.WellFormed := by
  cases a with
  | schedule work delay period =>
    by_cases hs : e.state = .stopped
    · simp only [EngineCall.effect, schedule_of_stopped hs]
      exact h
    · simp only [EngineCall.effect, schedule_ok hs]
      exact h.insert _
  | cancel id =>
    by_cases hid : id ∈ e.queue.ids
    · simp only [EngineCall.effect, cancel_queued h hid]
      exact h.remove id
    · exact (SameTasks.cancel h hid).queue ▸ h
  | flag id => exact h
  | pause => exact (SameTasks.pause e).queue ▸ h
  | stop =>
    by_cases hs : e.state = .stopped
    · simp only [EngineCall.effect, stop_of_stopped hs]
      exact h
    · simp only [EngineCall.effect, (stop_of_live hs).2]
      exact e.queue.wellFormed_drain
  | setBoundary which work => exact (SameTasks.setBoundary which work e).queue ▸ h
  | setClock clock => exact h

theorem control_endTick (deadline : Nat) (e : Engine β) :
    (e.endTick deadline).barrier = e.barrier ∧ (e.endTick deadline).loopAlive = e.loopAlive := by
  unfold endTick
  rcases park_cases deadline { e with meter := e.meter.endTick } with ⟨-, heq⟩ | ⟨-, heq⟩ <;>
    rw [heq] <;> exact ⟨rfl, rfl⟩

theorem launch_fst (h : e.queue.WellFormed) (bound : Nat) :
    (e.launch bound).1 = e.queue.toList.filter (·.due < bound) := (h.popAllDue bound).1

/-- No task is launched twice at a time. -/
theorem launch_ids_nodup (h : e.queue.WellFormed) (bound : Nat) :
    ((e.launch bound).1.map (·.id)).Nodup := by
  rw [launch_fst h]
  exact h.ids_nodup.sublist (List.filter_sublist.map _)

namespace Calm

theorem of_barrier (hqueue : e.queue.WellFormed → e'.queue.WellFormed)
    (hbarrier : e'.barrier = e.barrier) (hstopped : e.state = .stopped → e'.state = .stopped) :
    e.Calm e' :=
  ⟨hqueue, by rw [hbarrier], by rw [hbarrier], fun h => Or.inl (hbarrier ▸ h), hstopped⟩

theorem refl (e : Engine β) : e.Calm e := .of_barrier id rfl id

theorem effect {a : EngineCall β} (ha : a.atOnce = true) (e : Engine β) : e.Calm (a.effect e) :=
  have h := SameControl.effect ha e
  .of_barrier (fun hq => wellFormed_effect hq a) h.barrier fun hs => h.state.trans hs

theorem enter {next : Lifecycle} (h : e.enter next = .ok e') : e.Calm e' := by
  obtain ⟨hs, rfl⟩ := enter_ok h
  exact .of_barrier id rfl fun e => absurd e hs

theorem terminate (h : e.state = .stopped) : e.Calm e.terminate :=
  ⟨id, rfl, rfl, fun _ => Or.inr h, id⟩

theorem settleBoundary (which : Boundary) (t : Task β) (e : Engine β) :
    e.Calm (e.settleBoundary which t) :=
  have h := SameControl.settleBoundary which t e
  .of_barrier (fun hq => (SameTasks.settleBoundary which t e).queue ▸ hq) h.barrier fun hs =>
    h.state.trans hs

theorem launch (bound : Nat) (e : Engine β) : e.Calm (e.launch bound).2 :=
  .of_barrier (fun hq => (hq.popAllDue bound).2.2) rfl id

theorem endTick (deadline : Nat) (e : Engine β) : e.Calm (e.endTick deadline) :=
  have h := SameTasks.endTick deadline e
  .of_barrier (fun hq => h.queue ▸ hq) (control_endTick deadline e).1 h.stopped.mpr

theorem complete (t : Task β) (e : Engine β) : e.Calm (e.complete t) := by
  rw [complete_eq]
  refine .of_barrier (fun hq => ?_) rfl id
  simp only
  split
  · exact hq.insert _
  · exact hq

end Calm

end Engine

/-! ## Journals -/

namespace CrewNote

/-- Every body in the journal starts only after the turns that it waits for have arrived. -/
def Apart (journal : List CrewNote) : Prop :=
  ∀ before note after, journal = before ++ note :: after →
    ∀ turn ∈ journal.filterMap handed?, note.WaitsFor turn → turn ∈ before.filterMap arrived?

theorem Apart.concat {journal : List CrewNote} {note : CrewNote} (h : Apart journal)
    (hhanded : ∀ turn, note.handed? = some turn → ∀ n ∈ journal, ¬n.WaitsFor turn)
    (hwaits : ∀ turn ∈ journal.filterMap handed?, note.WaitsFor turn →
      turn ∈ journal.filterMap arrived?) : Apart (journal ++ [note]) := by
  intro before n after heq turn hturn hn
  rw [List.filterMap_append, List.mem_append] at hturn
  rcases List.eq_nil_or_concat after with rfl | ⟨init, last, rfl⟩
  · obtain ⟨rfl, hlast⟩ := List.append_inj' heq rfl
    cases hlast
    rcases hturn with hturn | hturn
    · exact hwaits turn hturn hn
    · -- A hand-out waits for nothing.
      cases note with
      | handed turn => exact hn.elim
      | _ => cases hturn
  · have hsplit : journal = before ++ n :: init := by
      have heq' : journal ++ [note] = (before ++ n :: init) ++ [last] := by simpa using heq
      exact (List.append_inj' heq' rfl).1
    rcases hturn with hturn | hturn
    · exact h before n init hsplit turn hturn hn
    · obtain ⟨n', hn', hsome⟩ := List.mem_filterMap.mp hturn
      cases List.mem_singleton.mp hn'
      exact absurd hn (hhanded turn hsome n (hsplit ▸ by simp))

end CrewNote

namespace Crew

variable {β : Type} {c c' : Crew β}

/-- The turns that were handed out and have not arrived: one may be with the control thread, the others
are with the workers. -/
def outstanding (c : Crew β) : List Turn := (c.place.held.map fun t => ⟨c.tick, t.id⟩) ++ c.pool.owed

def coming (c : Crew β) : List Turn := c.place.rest.map fun t => ⟨c.tick, t.id⟩

/-- No more turns are handed out in the tick of `turn`. -/
def Past (c : Crew β) (turn : Turn) : Prop :=
  turn.tick < c.tick ∨ turn.tick = c.tick ∧ c.place.stage.isOver = true

structure Orderly (c : Crew β) : Prop where
  queue : c.engine.queue.WellFormed
  alive : c.place = .away ∨ c.engine.loopAlive = true
  registered : c.engine.barrier.registered = c.engine.barrier.arrived + c.outstanding.length
  terminated : c.engine.barrier.terminated = true → c.engine.state = .stopped
  accounted : c.handed.Perm (c.arrivals ++ c.outstanding)
  distinct : (c.handed ++ c.coming).Nodup
  current : ∀ turn ∈ c.outstanding, turn.tick = c.tick
  reached : ∀ turn ∈ c.handed, turn.tick < c.tick ∨ turn.tick = c.tick ∧ c.place.stage ≠ .opening
  settled : c.place.stage ≠ .handing →
    c.outstanding = [] ∨ c.engine.state = .stopped ∧ c.place.stage = .idle
  notes : ∀ note ∈ c.journal, ∀ turn, note.WaitsFor turn → c.Past turn
  apart : CrewNote.Apart c.journal

theorem handed_of_journal {notes : List CrewNote} (h : c'.journal = c.journal ++ notes) :
    c'.handed = c.handed ++ notes.filterMap CrewNote.handed? := by
  rw [Crew.handed, h, List.filterMap_append]
  rfl

theorem arrivals_of_journal {notes : List CrewNote} (h : c'.journal = c.journal ++ notes) :
    c'.arrivals = c.arrivals ++ notes.filterMap CrewNote.arrived? := by
  rw [Crew.arrivals, h, List.filterMap_append]
  rfl

theorem outstanding_go {e : Engine β} {place : Station β} {notes : List CrewNote}
    (h : place.held = c.place.held) : (c.go e place notes).outstanding = c.outstanding := by
  rw [outstanding, show (c.go e place notes).place.held = c.place.held from h]
  rfl

namespace Orderly

/-- A move that no journal tells of. -/
theorem shift (h : c.Orderly) (hjournal : c'.journal = c.journal)
    (hout : c'.outstanding.Perm c.outstanding) (hqueue : c'.engine.queue.WellFormed)
    (halive : c'.place = .away ∨ c'.engine.loopAlive = true)
    (hregistered : c'.engine.barrier.registered = c'.engine.barrier.arrived + c.outstanding.length)
    (hterminated : c'.engine.barrier.terminated = true → c'.engine.state = .stopped)
    (hdistinct : (c.handed ++ c'.coming).Nodup) (hcurrent : ∀ turn ∈ c.outstanding, turn.tick = c'.tick)
    (hreached : ∀ turn ∈ c.handed,
      turn.tick < c'.tick ∨ turn.tick = c'.tick ∧ c'.place.stage ≠ .opening)
    (hsettled : c'.place.stage ≠ .handing →
      c.outstanding = [] ∨ c'.engine.state = .stopped ∧ c'.place.stage = .idle)
    (hpast : ∀ turn, c.Past turn → c'.Past turn) : c'.Orderly := by
  have hhanded : c'.handed = c.handed := congrArg (List.filterMap CrewNote.handed?) hjournal
  have harrivals : c'.arrivals = c.arrivals := congrArg (List.filterMap CrewNote.arrived?) hjournal
  refine ⟨hqueue, halive, ?_, hterminated, ?_, ?_, ?_, ?_, ?_, ?_, ?_⟩
  · rw [hout.length_eq]
    exact hregistered
  · rw [hhanded, harrivals]
    exact h.accounted.trans (hout.symm.append_left _)
  · rw [hhanded]
    exact hdistinct
  · exact fun turn hturn => hcurrent turn (hout.subset hturn)
  · rw [hhanded]
    exact hreached
  · intro hne
    refine (hsettled hne).imp_left fun hnil => ?_
    rw [hnil] at hout
    exact hout.eq_nil
  · rw [hjournal]
    exact fun n hn turn hturn => hpast turn (h.notes n hn turn hturn)
  · rw [hjournal]
    exact h.apart

/-- A move that hands nothing out, lets nothing arrive and stays in the same part of the tick. -/
theorem quiet (h : c.Orderly) (he : c.engine.Calm c'.engine)
    (halive : c'.place = .away ∨ c'.engine.loopAlive = true) (htick : c'.tick = c.tick)
    (hjournal : c'.journal = c.journal) (hstage : c'.place.stage = c.place.stage)
    (hrest : c'.place.rest = c.place.rest) (hout : c'.outstanding.Perm c.outstanding) :
    c'.Orderly := by
  refine h.shift hjournal hout (he.queue h.queue) halive ?_ ?_ ?_ ?_ ?_ ?_ ?_
  · rw [he.registered, he.arrived]
    exact h.registered
  · exact fun ht => (he.terminated ht).elim (fun ht => he.stopped (h.terminated ht)) id
  · rw [coming, hrest, htick]
    exact h.distinct
  · rw [htick]
    exact h.current
  · rw [htick, hstage]
    exact h.reached
  · rw [hstage]
    exact fun hne => (h.settled hne).imp_right (And.imp_left he.stopped)
  · unfold Past
    rw [htick, hstage]
    exact fun _ => id

theorem serve (h : c.Orderly) {e : Engine β} (he : c.engine.Calm e)
    (halive : e.loopAlive = c.engine.loopAlive) : (c.serve e).Orderly :=
  h.quiet he (h.alive.imp_right halive.trans) rfl rfl rfl rfl (List.Perm.refl _)

theorem pass (h : c.Orderly) {pool : WorkerPool (Post β)} {place : Station β}
    (halive : place = .away ∨ c.engine.loopAlive = true) (hstage : place.stage = c.place.stage)
    (hrest : place.rest = c.place.rest) (hout : (c.pass pool place).outstanding.Perm c.outstanding) :
    (c.pass pool place).Orderly := h.quiet (.refl _) halive rfl rfl hstage hrest hout

theorem loopAlive (h : c.Orderly) (hp : c.place ≠ .away) : c.engine.loopAlive = true :=
  h.alive.resolve_left hp

theorem go (h : c.Orderly) {e : Engine β} {place : Station β} (he : c.engine.Calm e)
    (halive : place = .away ∨ e.loopAlive = true) (hstage : place.stage = c.place.stage)
    (hrest : place.rest = c.place.rest) (hheld : place.held = c.place.held) :
    (c.go e place []).Orderly :=
  h.quiet he halive rfl (List.append_nil _) hstage hrest (List.Perm.of_eq (outstanding_go hheld))

theorem walk (h : c.Orderly) {e : Engine β} {place place' : Station β} (hp : c.place = place)
    (hne : place ≠ .away) (he : c.engine.Calm e) (halive : e.loopAlive = c.engine.loopAlive)
    (hstage : place'.stage = place.stage) (hrest : place'.rest = place.rest)
    (hheld : place'.held = place.held) : (c.go e place' []).Orderly := by
  subst hp
  exact h.go he (Or.inr (halive.trans (h.loopAlive hne))) hstage hrest hheld

theorem settleBoundary (h : c.Orderly) {k : TickFrame} {which : Boundary} {t : Task β}
    (halive : c.engine.loopAlive = true)
    (hstage : c.place.stage = (Station.facing k which : Station β).stage) (hrest : c.place.rest = [])
    (hheld : c.place.held = []) :
    (c.go (c.engine.settleBoundary which t) (.past k which) []).Orderly :=
  h.go (.settleBoundary which t _)
    (Or.inr ((Engine.SameControl.settleBoundary which t _).loopAlive.trans halive))
    ((Station.stage_past k which).trans hstage.symm) ((Station.rest_past k which).trans hrest.symm)
    ((Station.held_past k which).trans hheld.symm)

theorem work (h : c.Orderly) {w : Nat} {p : Post β} {progress : Progress} {e : Engine β}
    (he : c.engine.Calm e) (halive : e.loopAlive = c.engine.loopAlive)
    (hw : c.pool.workers[w]? = some (.running p)) (hp : p.progress ≠ .arrived)
    (hprogress : progress ≠ .arrived) : (c.work w p progress e []).Orderly := by
  refine h.quiet he (h.alive.imp_right halive.trans) rfl (List.append_nil _) rfl rfl ?_
  refine List.Perm.append_left _ (WorkerPool.owed_moveTo_same hw ?_)
  exact (if_neg hprogress).trans (if_neg hp).symm

/-- A turn that is not outstanding has arrived. -/
theorem arrived_of_handed (h : c.Orderly) {turn : Turn} (hturn : turn ∈ c.handed)
    (hpast : turn.tick < c.tick ∨ c.outstanding = []) : turn ∈ c.arrivals := by
  rcases List.mem_append.mp (h.accounted.subset hturn) with harrived | hout
  · exact harrived
  · rcases hpast with hlt | hnil
    · exact absurd (h.current turn hout) (Nat.ne_of_lt hlt)
    · rw [hnil] at hout
      cases hout

theorem note (h : c.Orderly) {n : CrewNote} (hhanded : n.handed? = none)
    (harrived : n.arrived? = none)
    (hwaits : ∀ turn, n.WaitsFor turn →
      turn.tick < c.tick ∨ turn.tick = c.tick ∧ c.place.stage = .closing) :
    Orderly { c with journal := c.journal ++ [n] } := by
  have hh : Crew.handed { c with journal := c.journal ++ [n] } = c.handed := by
    rw [handed_of_journal rfl, List.filterMap_cons_none hhanded, List.filterMap_nil, List.append_nil]
  have ha : Crew.arrivals { c with journal := c.journal ++ [n] } = c.arrivals := by
    rw [arrivals_of_journal rfl, List.filterMap_cons_none harrived, List.filterMap_nil, List.append_nil]
  refine ⟨h.queue, h.alive, h.registered, h.terminated, ?_, ?_, h.current, ?_, h.settled, ?_, ?_⟩
  · rw [hh, ha]
    exact h.accounted
  · rw [hh]
    exact h.distinct
  · rw [hh]
    exact h.reached
  · intro n' hn turn hturn
    rcases List.mem_append.mp hn with hn | hn
    · exact h.notes n' hn turn hturn
    · cases List.mem_singleton.mp hn
      refine (hwaits turn hturn).imp_right (And.imp_right fun hclosing => ?_)
      rw [hclosing]
      rfl
  · refine h.apart.concat (fun turn hturn => ?_) fun turn hturn hwait => ?_
    · rw [hhanded] at hturn
      cases hturn
    · refine h.arrived_of_handed hturn ((hwaits turn hwait).imp_right fun hpast => ?_)
      obtain ⟨-, hclosing⟩ := hpast
      refine (h.settled (by rw [hclosing]; rintro ⟨⟩)).resolve_right fun hidle => ?_
      rw [hclosing] at hidle
      cases hidle.2

theorem opens (h : c.Orderly) {k : TickFrame} {which : Boundary} {t : Task β}
    (hp : c.place = .reading k which t) :
    (c.go c.engine (.boundary k which t) [.opened which ⟨c.tick, t.id⟩]).Orderly := by
  have hstage : c.place.stage = (Station.boundary k which t).stage := by
    rw [hp, Station.stage_reading, Station.stage_boundary]
  have hnote := h.note (n := .opened which ⟨c.tick, t.id⟩) rfl rfl fun turn hwait => ?_
  · refine hnote.quiet (.refl _) (Or.inr (h.loopAlive (by rw [hp]; rintro ⟨⟩))) rfl rfl hstage.symm
      (by rw [hp]; rfl) (List.Perm.of_eq (outstanding_go (by rw [hp]; rfl)))
  · cases which with
    | first => exact Or.inl hwait
    | last => exact (Nat.lt_or_eq_of_le hwait).imp_right fun htick => ⟨htick, hstage⟩

theorem body (h : c.Orderly) {w : Nat} {p : Post β} (hw : c.pool.workers[w]? = some (.running p))
    (hprog : p.progress = .ready) :
    (c.work w p .body c.engine [.started ⟨c.tick, p.task.id⟩]).Orderly := by
  have howed : p.owed? = some p.turn := if_neg (by rw [hprog]; rintro ⟨⟩)
  have hnote := h.note (n := .started ⟨c.tick, p.task.id⟩) rfl rfl fun turn hwait => Or.inl hwait
  refine hnote.quiet (.refl _) h.alive rfl rfl rfl rfl (List.Perm.append_left _ ?_)
  exact WorkerPool.owed_moveTo_same hw howed.symm

theorem arrival (h : c.Orderly) {turn : Turn} (he : c'.engine = c.engine.arrive)
    (htick : c'.tick = c.tick) (hjournal : c'.journal = c.journal ++ [.arrived turn])
    (hplace : c.place = .away → c'.place = .away) (hstage : c'.place.stage = c.place.stage)
    (hrest : c'.place.rest = c.place.rest) (hout : c.outstanding.Perm (turn :: c'.outstanding)) :
    c'.Orderly := by
  have hhanded : c'.handed = c.handed := (handed_of_journal hjournal).trans (List.append_nil _)
  have harrivals : c'.arrivals = c.arrivals ++ [turn] := arrivals_of_journal hjournal
  refine ⟨?_, ?_, ?_, ?_, ?_, ?_, ?_, ?_, ?_, ?_, ?_⟩
  · rw [he]
    exact h.queue
  · rw [he]
    exact h.alive.imp_left hplace
  · have hregistered := h.registered
    rw [hout.length_eq, List.length_cons] at hregistered
    rw [he]
    change c.engine.barrier.registered = c.engine.barrier.arrived + 1 + c'.outstanding.length
    omega
  · rw [he]
    exact h.terminated
  · rw [hhanded, harrivals, List.append_assoc]
    exact h.accounted.trans (hout.append_left _)
  · rw [hhanded, coming, hrest, htick]
    exact h.distinct
  · intro turn' hturn
    rw [htick]
    exact h.current turn' (hout.symm.subset (List.mem_cons_of_mem _ hturn))
  · rw [hhanded, htick, hstage]
    exact h.reached
  · rw [hstage, he]
    intro hne
    refine (h.settled hne).imp_left fun hnil => ?_
    rw [hnil] at hout
    cases hout.symm.eq_nil
  · rw [hjournal]
    unfold Past
    rw [htick, hstage]
    intro n hn turn' hturn
    rcases List.mem_append.mp hn with hn | hn
    · exact h.notes n hn turn' hturn
    · cases List.mem_singleton.mp hn
      exact hturn.elim
  · rw [hjournal]
    exact h.apart.concat (by rintro _ ⟨⟩) fun turn' _ hturn => hturn.elim

theorem register (h : c.Orderly) {k : TickFrame} {t : Task β} {rest : List (Task β)}
    (hp : c.place = .handing k (t :: rest)) :
    (c.go c.engine.register (.hand k .registered t rest) [.handed ⟨c.tick, t.id⟩]).Orderly := by
  have hhanded : (c.go c.engine.register (.hand k .registered t rest)
      [.handed ⟨c.tick, t.id⟩]).handed = c.handed ++ [⟨c.tick, t.id⟩] := by
    rw [handed_of_journal rfl]
    rfl
  have harrivals : (c.go c.engine.register (.hand k .registered t rest)
      [.handed ⟨c.tick, t.id⟩]).arrivals = c.arrivals :=
    (arrivals_of_journal rfl).trans (List.append_nil _)
  have hout : (c.go c.engine.register (.hand k .registered t rest)
      [.handed ⟨c.tick, t.id⟩]).outstanding = ⟨c.tick, t.id⟩ :: c.outstanding := by
    rw [outstanding, outstanding, hp]
    rfl
  have hcoming : c.coming = [⟨c.tick, t.id⟩] ++ rest.map fun u => ⟨c.tick, u.id⟩ := by
    rw [coming, hp]
    rfl
  have hstage : c.place.stage = .handing := by rw [hp]; rfl
  refine ⟨h.queue, Or.inr (h.loopAlive (by rw [hp]; rintro ⟨⟩)), ?_, h.terminated, ?_, ?_, ?_, ?_,
    fun hne => absurd rfl hne, ?_, ?_⟩
  · rw [hout]
    change c.engine.barrier.registered + 1 = c.engine.barrier.arrived + (c.outstanding.length + 1)
    rw [h.registered, Nat.add_assoc]
  · rw [hhanded, harrivals, hout]
    exact (List.perm_append_singleton _ _).trans
      ((h.accounted.cons _).trans List.perm_middle.symm)
  · rw [hhanded, List.append_assoc]
    exact hcoming ▸ h.distinct
  · rw [hout]
    exact List.forall_mem_cons.mpr ⟨rfl, h.current⟩
  · rw [hhanded]
    intro turn hturn
    rcases List.mem_append.mp hturn with hturn | hturn
    · exact (h.reached turn hturn).imp_right fun hnow => ⟨hnow.1, by rintro ⟨⟩⟩
    · cases List.mem_singleton.mp hturn
      exact Or.inr ⟨rfl, by rintro ⟨⟩⟩
  · intro n hn turn hturn
    rcases List.mem_append.mp hn with hn | hn
    · refine (h.notes n hn turn hturn).imp_right fun hnow => ?_
      rw [hstage] at hnow
      cases hnow.2
    · cases List.mem_singleton.mp hn
      exact hturn.elim
  · refine h.apart.concat (fun turn hturn n hn hwait => ?_) fun turn _ hturn => hturn.elim
    -- Nothing that was started waits for a turn of this tick while it is handed out.
    cases hturn
    rcases h.notes n hn _ hwait with hlt | hnow
    · exact Nat.lt_irrefl _ hlt
    · rw [hstage] at hnow
      cases hnow.2

/-- The hand-outs of a tick are over: the barrier is passed, the loop is released or the tick ends. -/
theorem conclude (h : c.Orderly) {e : Engine β} {place : Station β} (hqueue : e.queue.WellFormed)
    (halive : e.loopAlive = true)
    (hregistered : e.barrier.registered = e.barrier.arrived + c.outstanding.length)
    (hterminated : e.barrier.terminated = true → e.state = .stopped)
    (hover : place.stage.isOver = true) (hrest : place.rest = []) (hheld : place.held = c.place.held)
    (hsettled : c.outstanding = [] ∨ e.state = .stopped ∧ place.stage = .idle) :
    (c.go e place []).Orderly := by
  refine h.shift (List.append_nil _) (List.Perm.of_eq (outstanding_go hheld)) hqueue (Or.inr halive)
    hregistered hterminated ?_ h.current ?_ (fun _ => hsettled) ?_
  · rw [coming, show (c.go e place []).place.rest = [] from hrest, List.map_nil, List.append_nil]
    exact (List.nodup_append.mp h.distinct).1
  · refine fun turn hturn => (h.reached turn hturn).imp_right (And.imp_right fun _ hopening => ?_)
    rw [show place.stage = .opening from hopening] at hover
    cases hover
  · exact fun turn hturn => hturn.imp_right fun hnow => ⟨hnow.1, hover⟩

theorem again (h : c.Orderly) {e : Engine β} {k : TickFrame} (he : c.engine.Calm e)
    (halive : e.loopAlive = true) (hp : c.place = .between) (hs : c.engine.state ≠ .stopped) :
    Orderly { c.go e (.facing k .first) [] with tick := c.tick + 1 } := by
  have hnil : c.outstanding = [] :=
    (h.settled (by rw [hp]; rintro ⟨⟩)).resolve_right fun hidle => hs hidle.1
  have hout : Crew.outstanding { c.go e (.facing k .first) [] with tick := c.tick + 1 } =
      c.outstanding := by
    rw [outstanding, outstanding, hp]
    rfl
  refine h.shift (List.append_nil _) (List.Perm.of_eq hout) (he.queue h.queue) (Or.inr halive) ?_ ?_ ?_ ?_
    ?_ (fun _ => Or.inl hnil) ?_
  · exact he.registered.trans (h.registered.trans (congrArg (· + _) he.arrived.symm))
  · exact fun ht => (he.terminated ht).elim (fun ht => he.stopped (h.terminated ht)) id
  · exact (List.append_nil c.handed).symm ▸ (List.nodup_append.mp h.distinct).1
  · rw [hnil]
    rintro _ ⟨⟩
  · intro turn hturn
    have hreached := h.reached turn hturn
    exact Or.inl (Nat.lt_succ_of_le (hreached.elim Nat.le_of_lt fun hnow => Nat.le_of_eq hnow.1))
  · intro turn hpast
    exact Or.inl (Nat.lt_succ_of_le (hpast.elim Nat.le_of_lt fun hnow => Nat.le_of_eq hnow.1))

/-- The due tasks are launched; none of them was handed out in this tick. -/
theorem launch (h : c.Orderly) {k : TickFrame} (hp : c.place = .launching k) :
    (c.go (c.engine.launch k.deadline).2 (.handing k (c.engine.launch k.deadline).1) []).Orderly := by
  have hearlier : ∀ turn ∈ c.handed, turn.tick < c.tick := by
    intro turn hturn
    refine (h.reached turn hturn).resolve_right fun hnow => hnow.2 ?_
    rw [hp]
    rfl
  refine h.shift (List.append_nil _) (List.Perm.of_eq (outstanding_go (by rw [hp]; rfl)))
    ((Engine.Calm.launch k.deadline c.engine).queue h.queue) (Or.inr (h.loopAlive (by rw [hp]; rintro ⟨⟩)))
    h.registered h.terminated ?_ h.current (fun turn hturn => Or.inl (hearlier turn hturn))
    (fun hne => absurd rfl hne) ?_
  · refine List.nodup_append.mpr ⟨(List.nodup_append.mp h.distinct).1, ?_, ?_⟩
    · have hids := Engine.launch_ids_nodup h.queue k.deadline
      refine List.Nodup.of_map Turn.id ?_
      rw [coming, List.map_map]
      exact hids
    · rintro turn hturn _ hnext rfl
      obtain ⟨t, -, rfl⟩ := List.mem_map.mp hnext
      exact Nat.lt_irrefl _ (hearlier _ hturn)
  · refine fun turn hpast => hpast.imp_right fun hnow => ?_
    rw [hp] at hnow
    cases hnow.2

theorem step (h : c.Orderly) (hs : c.Step c') : c'.Orderly := by
  cases hs with
  | call a ha => exact h.serve (.effect ha _) (Engine.SameControl.effect ha _).loopAlive
  | store running => exact h.serve (.of_barrier id rfl id) rfl
  | enter hn he =>
    refine h.serve (.enter he) ?_
    obtain ⟨-, rfl⟩ := Engine.enter_ok he
    rfl
  | halt => exact h.serve (.of_barrier id rfl fun _ => rfl) rfl
  | giveUp hs => exact h.serve (.of_barrier (fun _ => TaskQueue.wellFormed_drain _) rfl id) rfl
  | terminate hs => exact h.serve (.terminate hs) rfl
  | close hs hpool =>
    cases hpool
    exact h.pass h.alive rfl rfl (List.Perm.refl _)
  | start ha =>
    have hp := h.alive.resolve_right (by rw [ha]; rintro ⟨⟩)
    refine h.go (.of_barrier id rfl id) (Or.inr rfl) ?_ ?_ ?_ <;> rw [hp] <;> rfl
  | abort hp => refine h.go (.of_barrier id rfl id) (Or.inl rfl) ?_ ?_ ?_ <;> rw [hp] <;> rfl
  | spawn hp => exact h.walk hp (by rintro ⟨⟩) (.refl _) rfl rfl rfl rfl
  | again hp he =>
    obtain ⟨-, hr, rfl⟩ := Engine.continues_true he
    have hs : c.engine.state ≠ .stopped := by
      intro hs
      rw [hs] at hr
      cases hr
    exact h.again (.of_barrier id rfl fun e => absurd e hs) (h.loopAlive (by rw [hp]; rintro ⟨⟩)) hp hs
  | leave hp he =>
    obtain ⟨-, rfl⟩ := Engine.continues_false he
    refine h.go (.of_barrier id rfl id) (Or.inl rfl) ?_ ?_ ?_ <;> rw [hp] <;> rfl
  | @absent k which hp =>
    exact h.walk hp (by rintro ⟨⟩) (.refl _) rfl (Station.stage_past k which) (Station.rest_past k which)
      (Station.held_past k which)
  | @read k which t hp =>
    exact h.walk hp (by rintro ⟨⟩) (.refl _) rfl (Station.stage_reading k which t) rfl rfl
  | @ignore k which t hp =>
    exact h.settleBoundary (h.loopAlive (by rw [hp]; rintro ⟨⟩))
      (by rw [hp]; exact Station.stage_reading k which t) (by rw [hp]; rfl) (by rw [hp]; rfl)
  | @opens k which t hp => exact h.opens hp
  | @settle k which t hp =>
    exact h.settleBoundary (h.loopAlive (by rw [hp]; rintro ⟨⟩))
      (by rw [hp]; exact Station.stage_boundary k which t) (by rw [hp]; rfl) (by rw [hp]; rfl)
  | launch hp => exact h.launch hp
  | register hp => exact h.register hp
  | offer hp hpool =>
    refine h.pass (Or.inr (h.loopAlive (by rw [hp]; rintro ⟨⟩))) (by rw [hp]; rfl) (by rw [hp]; rfl) ?_
    rw [outstanding, outstanding, hp]
    exact WorkerPool.owed_offer hpool
  | refuse hp => exact h.walk hp (by rintro ⟨⟩) (.refl _) rfl rfl rfl rfl
  | receive hp hpool =>
    refine h.pass (Or.inr (h.loopAlive (by rw [hp]; rintro ⟨⟩))) (by rw [hp]; rfl) (by rw [hp]; rfl) ?_
    rw [outstanding, outstanding, hp]
    exact WorkerPool.owed_receive hpool
  | withdraw hp => exact h.walk hp (by rintro ⟨⟩) (.of_barrier id rfl id) rfl rfl rfl rfl
  | retire hp =>
    refine h.arrival rfl rfl rfl (by rw [hp]; rintro ⟨⟩) (by rw [hp]; rfl) (by rw [hp]; rfl) ?_
    rw [outstanding, outstanding, hp]
    exact List.Perm.refl _
  | advance hp hb =>
    have hregistered := h.registered
    have hcomplete := TickBarrier.complete_of_await? hb
    obtain ⟨-, rfl⟩ := TickBarrier.await?_true hb
    have hnil : c.outstanding = [] := List.length_eq_zero_iff.mp (by omega)
    refine h.conclude h.queue (h.loopAlive (by rw [hp]; rintro ⟨⟩)) ?_ h.terminated rfl rfl (by rw [hp]; rfl)
      (Or.inl hnil)
    rw [hnil]
    rfl
  | dismiss hp hb =>
    obtain ⟨hterm, rfl⟩ := TickBarrier.await?_false hb
    exact h.conclude h.queue (h.loopAlive (by rw [hp]; rintro ⟨⟩)) h.registered h.terminated rfl rfl
      (by rw [hp]; rfl) (Or.inr ⟨h.terminated hterm, rfl⟩)
  | @park k hp =>
    have he := Engine.Calm.endTick k.deadline c.engine
    have hnil := (h.settled (by rw [hp]; rintro ⟨⟩)).resolve_right (by rw [hp]; rintro ⟨-, ⟨⟩⟩)
    refine h.conclude (he.queue h.queue) ?_ ?_ ?_ rfl rfl (by rw [hp]; rfl) (Or.inl hnil)
    · exact (Engine.control_endTick k.deadline _).2.trans (h.loopAlive (by rw [hp]; rintro ⟨⟩))
    · rw [he.registered, he.arrived]
      exact h.registered
    · exact fun ht => (he.terminated ht).elim (fun ht => he.stopped (h.terminated ht)) id
  | free hs hpool =>
    exact h.pass h.alive rfl rfl (List.Perm.append_left _ (WorkerPool.owed_free hs hpool))
  | body hw hprog => exact h.body hw hprog
  | skip hw hprog =>
    exact h.work (.refl _) rfl hw (by rw [hprog]; rintro ⟨⟩) (by rintro ⟨⟩)
  | finish hw hprog =>
    exact h.work (.refl _) rfl hw (by rw [hprog]; rintro ⟨⟩) (by rintro ⟨⟩)
  | @complete w p hw hprog =>
    refine h.work (.complete _ _) ?_ hw (by rw [hprog]; rintro ⟨⟩) (by rintro ⟨⟩)
    rw [Engine.complete_eq]
  | @arrive w p hw hprog =>
    have howed : p.owed? = some p.turn := if_neg (by rw [hprog]; rintro ⟨⟩)
    have hmove := WorkerPool.owed_moveTo hw (.running { p with progress := .arrived })
    rw [WorkerStage.owed?, howed] at hmove
    refine h.arrival rfl rfl rfl id rfl rfl ?_
    refine ((List.append_nil c.pool.owed ▸ hmove.symm).append_left _).trans ?_
    rw [← List.append_assoc]
    exact List.perm_append_singleton _ _
  | done hw hprog hpool =>
    exact h.pass h.alive rfl rfl (List.Perm.append_left _ (WorkerPool.owed_finish hw hprog hpool))

end Orderly

theorem orderly_create {config : EngineConfig} {e : Engine β} (he : Engine.create config = .ok e) :
    Orderly { engine := e, pool := WorkerPool.create config.workers } := by
  obtain ⟨-, rfl⟩ := Engine.create_ok he
  have hnil : ∀ e : Engine β,
      Crew.outstanding { engine := e, pool := WorkerPool.create config.workers } = [] :=
    fun _ => WorkerPool.owed_create _
  refine ⟨TaskQueue.wellFormed_empty, Or.inl rfl, ?_, by rintro ⟨⟩, ?_, List.nodup_nil, ?_, by rintro _ ⟨⟩,
    fun _ => Or.inl (hnil _), by rintro _ ⟨⟩, ?_⟩
  · rw [hnil]
    rfl
  · rw [hnil]
    exact List.Perm.refl _
  · rw [hnil]
    rintro _ ⟨⟩
  · intro before note after heq
    cases List.append_eq_nil_iff.mp heq.symm with
    | intro _ h => cases h

theorem Reachable.orderly (h : c.Reachable) : c.Orderly := by
  obtain ⟨config, e, he, hreach⟩ := h
  induction hreach with
  | refl => exact orderly_create he
  | tail _ hs ih => exact ih.step hs

end Crew

end Vivarium
