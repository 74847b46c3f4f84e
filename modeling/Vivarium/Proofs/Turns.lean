import Vivarium.Proofs.Boundaries

/-! # The parts of a tick

What the thread can do is told by where it stands. So a tick that comes to its end is cut into the
body of its first action, the turns of the tasks that were launched, and the body of its last action.
While a body is running there are calls and nothing else.
-/

namespace Vivarium

namespace Machine

variable {β : Type} {x y z m' : Machine β} {k : TickFrame} {which : Boundary} {t : Task β}
  {rest : List (Task β)}

/-! ## What a step can be -/

theorem Step.of_facing (hs : x.Step y) (hp : x.phase = .facing k which) :
    x.engine.boundary which = none ∧ y = x.move x.engine (.past k which) [] ∨
      ∃ t, x.engine.boundary which = some t ∧
        (x.engine.isFlagged t.id = true ∧
            y = x.move (x.engine.settleBoundary which t) (.past k which) [] ∨
          x.engine.isFlagged t.id = false ∧
            y = x.move x.engine (.boundary k which t) [.opened which t]) := by
  cases hs with
  | call c hl => rw [hp] at hl; cases hl
  | absent hp' hb => cases hp.symm.trans hp'; exact Or.inl ⟨hb, rfl⟩
  | pass hp' hb hf => cases hp.symm.trans hp'; exact Or.inr ⟨_, hb, Or.inl ⟨hf, rfl⟩⟩
  | enter hp' hb hf => cases hp.symm.trans hp'; exact Or.inr ⟨_, hb, Or.inr ⟨hf, rfl⟩⟩
  | step hp' | tick hp' | again hp' | leave hp' | settle hp' | launch hp' | start hp' | skip hp'
  | finish hp' | advance hp' | release hp' | park hp' => cases hp.symm.trans hp'

theorem Step.of_boundary (hs : x.Step y) (hp : x.phase = .boundary k which t) :
    (∃ c, x.Allows c ∧ y = x.move (c.effect x.engine) x.phase (c.notes x.engine)) ∨
      y = x.move (x.engine.settleBoundary which t) (.past k which) [] := by
  cases hs with
  | call c _ hc => exact Or.inl ⟨c, hc, rfl⟩
  | settle hp' => cases hp.symm.trans hp'; exact Or.inr rfl
  | step hp' | tick hp' | again hp' | leave hp' | absent hp' | pass hp' | enter hp' | launch hp'
  | start hp' | skip hp' | finish hp' | advance hp' | release hp' | park hp' => cases hp.symm.trans hp'

theorem Step.of_launching (hs : x.Step y) (hp : x.phase = .launching k) :
    y = x.move (x.engine.launch k.deadline).2 (.turns k (x.engine.launch k.deadline).1)
      [.launched (x.engine.launch k.deadline).1] := by
  cases hs with
  | call c hl => rw [hp] at hl; cases hl
  | launch hp' => cases hp.symm.trans hp'; rfl
  | step hp' | tick hp' | again hp' | leave hp' | absent hp' | pass hp' | enter hp' | settle hp'
  | start hp' | skip hp' | finish hp' | advance hp' | release hp' | park hp' => cases hp.symm.trans hp'

theorem Step.of_turns_cons (hs : x.Step y) (hp : x.phase = .turns k (t :: rest)) :
    x.engine.isFlagged t.id = true ∧ y = x.move (x.engine.register.finish t) (.turns k rest)
        [.turn t true, x.engine.finishNote t] ∨
      x.engine.isFlagged t.id = false ∧ y = x.move x.engine.register (.body k t rest)
        [.turn t false, .started t x.engine.now] := by
  cases hs with
  | call c hl => rw [hp] at hl; cases hl
  | start hp' hf => cases hp.symm.trans hp'; exact Or.inr ⟨hf, rfl⟩
  | skip hp' hf => cases hp.symm.trans hp'; exact Or.inl ⟨hf, rfl⟩
  | step hp' | tick hp' | again hp' | leave hp' | absent hp' | pass hp' | enter hp' | settle hp'
  | launch hp' | finish hp' | advance hp' | release hp' | park hp' => cases hp.symm.trans hp'

theorem Step.of_body (hs : x.Step y) (hp : x.phase = .body k t rest) :
    (∃ c, x.Allows c ∧ y = x.move (c.effect x.engine) x.phase (c.notes x.engine)) ∨
      y = x.move (x.engine.finish t) (.turns k rest) [x.engine.finishNote t] := by
  cases hs with
  | call c _ hc => exact Or.inl ⟨c, hc, rfl⟩
  | finish hp' => cases hp.symm.trans hp'; exact Or.inr rfl
  | step hp' | tick hp' | again hp' | leave hp' | absent hp' | pass hp' | enter hp' | settle hp'
  | launch hp' | start hp' | skip hp' | advance hp' | release hp' | park hp' => cases hp.symm.trans hp'

theorem Step.of_turns_nil (hs : x.Step y) (hp : x.phase = .turns k []) :
    ∃ passed b, x.engine.barrier.await? = some (passed, b) ∧
      y = x.move { x.engine with barrier := b } (if passed then .facing k .last else .leave k) [] := by
  cases hs with
  | call c hl => rw [hp] at hl; cases hl
  | advance hp' hb => cases hp.symm.trans hp'; exact ⟨true, _, hb, rfl⟩
  | release hp' hb => cases hp.symm.trans hp'; exact ⟨false, _, hb, rfl⟩
  | step hp' | tick hp' | again hp' | leave hp' | absent hp' | pass hp' | enter hp' | settle hp'
  | launch hp' | start hp' | skip hp' | finish hp' | park hp' => cases hp.symm.trans hp'

theorem Step.of_parking (hs : x.Step y) (hp : x.phase = .parking k) :
    y = x.move (x.engine.endTick k.deadline) (.leave k) [] := by
  cases hs with
  | call c hl => rw [hp] at hl; cases hl
  | park hp' => cases hp.symm.trans hp'; rfl
  | step hp' | tick hp' | again hp' | leave hp' | absent hp' | pass hp' | enter hp' | settle hp'
  | launch hp' | start hp' | skip hp' | finish hp' | advance hp' | release hp' => cases hp.symm.trans hp'

/-! ## Bodies -/

/-- Notes that only tell of calls. -/
def OnlyCalls (ns : List (Note β)) : Prop :=
  ∀ n ∈ ns, n.turn? = none ∧ n.begun? = none ∧ n.completed? = none

theorem onlyCalls_notes (c : EngineCall β) (e : Engine β) : OnlyCalls (c.notes e) := by
  intro n hn
  cases c with
  | schedule | cancel =>
    simp only [EngineCall.notes] at hn
    split at hn <;> simp at hn
    subst hn
    exact ⟨rfl, rfl, rfl⟩
  | stop =>
    cases List.mem_singleton.mp hn
    exact ⟨rfl, rfl, rfl⟩
  | flag | pause | setBoundary | setClock => cases hn

/-- A place at which the thread makes calls until it moves on. -/
theorem Works.talks {p : Phase β} {moves : Machine β → Machine β → Prop}
    (hstep : ∀ y z : Machine β, y.Step z → y.phase = p →
      (∃ c, y.Allows c ∧ z = y.move (c.effect y.engine) y.phase (c.notes y.engine)) ∨ moves y z)
    (hw : x.Works m') (hp : x.phase = p) (hi : m'.phase ≠ p) :
    ∃ y z ns, x.Works y ∧ y.phase = p ∧ y.journal = x.journal ++ ns ∧ OnlyCalls ns ∧ moves y z ∧
      z.Works m' := by
  -- A call leaves the thread where it is, so the induction goes on behind it.
  induction hw using Relation.ReflTransGen.head_induction_on with
  | refl => exact absurd hp hi
  | head hs hw ih =>
    rcases hstep _ _ hs.2 hp with ⟨c, -, rfl⟩ | hmoves
    · obtain ⟨y, z, ns, hwy, hpy, hj, hns, hmoves, hz⟩ := ih hp
      refine ⟨y, z, _ ++ ns, .head hs hwy, hpy, hj.trans (List.append_assoc _ _ _), ?_, hmoves, hz⟩
      exact fun n hn => (List.mem_append.mp hn).elim (onlyCalls_notes c _ n) (hns n)
    · exact ⟨_, _, [], .refl, hp, (List.append_nil _).symm, by rintro _ ⟨⟩, hmoves, hw⟩

namespace OnlyCalls

variable {ns : List (Note β)} (h : OnlyCalls ns)

include h

theorem turn : ns.filterMap Note.turn? = [] := List.filterMap_eq_nil_iff.mpr fun n hn => (h n hn).1

theorem begun : ns.filterMap Note.begun? = [] := List.filterMap_eq_nil_iff.mpr fun n hn => (h n hn).2.1

theorem completed : ns.filterMap Note.completed? = [] :=
  List.filterMap_eq_nil_iff.mpr fun n hn => (h n hn).2.2

end OnlyCalls

theorem Works.first_step (hw : x.Works m') (hne : m'.phase ≠ x.phase) :
    ∃ y, x.phase ≠ .idle ∧ x.Step y ∧ y.Works m' := by
  rcases Relation.ReflTransGen.cases_head hw with rfl | ⟨y, hs, hw⟩
  · exact absurd rfl hne
  · exact ⟨y, hs.1, hs.2, hw⟩

/-! ## Boundary actions -/

/-- From the point where a boundary action comes next to where it is over, the action runs if one is
set, and no other body does. -/
theorem Works.boundary (h : x.Sound) (hw : x.Works m') (hi : m'.phase = .idle)
    (hp : x.phase = .facing k which) :
    ∃ y ns, x.Works y ∧ y.phase = .past k which ∧ y.Works m' ∧ y.journal = x.journal ++ ns ∧
      ns.filterMap Note.begun? = ((x.engine.boundary which).map (·.id)).toList ∧
        ns.filterMap Note.turn? = [] ∧ ns.filterMap Note.completed? = [] := by
  obtain ⟨y, hidle, hs, hw⟩ := hw.first_step (by rw [hi, hp]; rintro ⟨⟩)
  have hfirst : x.Works y := Relation.ReflTransGen.single ⟨hidle, hs⟩
  rcases hs.of_facing hp with ⟨hb, rfl⟩ | ⟨t, hb, ⟨hf, -⟩ | ⟨-, rfl⟩⟩
  · exact ⟨_, [], hfirst, rfl, hw, rfl, by rw [hb]; rfl, rfl, rfl⟩
  · -- No body is running, so no boundary action is flagged.
    have hno := h.boundaries.unflagged (by rw [hp]; rfl) hb
    rw [hf] at hno
    cases hno
  · obtain ⟨y, z, ns, hwy, hpy, hj, hns, rfl, hz⟩ := Works.talks
      (fun _ _ hs hp => hs.of_boundary hp) hw rfl (by rw [hi]; rintro ⟨⟩)
    have hidle' : y.phase ≠ .idle := by rw [hpy]; rintro ⟨⟩
    have hlast : x.Works (y.move (y.engine.settleBoundary which t) (.past k which) []) :=
      (hfirst.trans hwy).tail ⟨hidle', .settle hpy⟩
    refine ⟨_, .opened which t :: ns, hlast, rfl, hz, ?_, ?_, hns.turn, hns.completed⟩
    · simp [move, hj]
    · rw [hb]
      exact congrArg (t.id :: ·) hns.begun

/-! ## Turns -/

/-- The turns of `ts` have been played from `x` to `r`: they come in order, and the bodies that begin
are those of the tasks that are not flagged when their turns come. -/
structure Played (k : TickFrame) (ts : List (Task β)) (x r : Machine β) (ns : List (Note β)) : Prop where
  works : x.Works r
  phase : r.phase = .turns k []
  journal : r.journal = x.journal ++ ns
  turns : (ns.filterMap Note.turn?).map (·.1) = ts
  begun : ns.filterMap Note.begun? = ((ns.filterMap Note.turn?).filter (!·.2)).map (·.1.id)
  flags : ∀ t flagged, Note.turn t flagged ∈ ns → ∃ y rest, x.Works y ∧ y.Works r ∧
    y.phase = .turns k (t :: rest) ∧ y.engine.isFlagged t.id = flagged
  /-- A turn ends with the step after which the task is not pending any more. -/
  ends : ∀ t flagged now, Note.completed t flagged now ∈ ns → ∃ y z, x.Works y ∧ y.Step z ∧ z.Works r ∧
    y.phase.pending = t :: z.phase.pending ∧ y.engine.isFlagged t.id = flagged ∧ y.engine.now = now
  completed : r.stops = [] → ns.filterMap Note.completed? = ts

namespace Played

variable {r : Machine β} {ts : List (Task β)} {ns : List (Note β)}

theorem nothing (hp : x.phase = .turns k []) : Played k [] x x [] where
  works := .refl
  phase := hp
  journal := (List.append_nil _).symm
  turns := rfl
  begun := rfl
  flags := by rintro _ _ ⟨⟩
  ends := by rintro _ _ _ ⟨⟩
  completed _ := rfl

/-- The turn of one task, which ends with the step from `y` to `z`, and those of the others. -/
theorem turn (hp : x.phase = .turns k (t :: ts)) (hy : x.Works y) (hs : y.Inside z) (hsound : y.Sound)
    {flagged : Bool} {mid : List (Note β)}
    (hj : z.journal = x.journal ++ (.turn t flagged :: mid ++ [y.engine.finishNote t]))
    (hf : x.engine.isFlagged t.id = flagged) (hpending : y.phase.pending = t :: ts)
    (hz : z.phase = .turns k ts) (hbegun : mid.filterMap Note.begun? = if flagged then [] else [t.id])
    (hturn : mid.filterMap Note.turn? = []) (hcompleted : mid.filterMap Note.completed? = [])
    (h : Played k ts z r ns) :
    Played k (t :: ts) x r (.turn t flagged :: mid ++ y.engine.finishNote t :: ns) := by
  have hxz : x.Works z := hy.tail hs
  have hbegun' := y.engine.begun_finishNote t
  have hturn' := y.engine.turn_finishNote t
  constructor
  · exact hxz.trans h.works
  · exact h.phase
  · rw [h.journal, hj]
    simp only [List.append_assoc, List.cons_append, List.nil_append]
  · simp only [List.cons_append, List.filterMap_cons, List.filterMap_append, hturn, hturn']
    exact congrArg (t :: ·) h.turns
  · have hturns : (Note.turn t flagged :: mid ++ y.engine.finishNote t :: ns).filterMap Note.turn? =
        (t, flagged) :: ns.filterMap Note.turn? := by
      simp only [List.cons_append, List.filterMap_cons, List.filterMap_append, hturn, hturn']
      rfl
    rw [hturns, List.cons_append, List.filterMap_cons_none rfl, List.filterMap_append, hbegun,
      List.filterMap_cons_none hbegun', h.begun]
    cases flagged <;> rfl
  · intro u flagged' hn
    rw [List.cons_append, List.mem_cons, List.mem_append, List.mem_cons] at hn
    rcases hn with hn | hn | hn | hn
    · cases hn
      exact ⟨x, ts, .refl, hxz.trans h.works, hp, hf⟩
    · cases List.filterMap_eq_nil_iff.mp hturn _ hn
    · rw [← hn] at hturn'
      cases hturn'
    · obtain ⟨w, rest, hzw, hwr, hw, hflag⟩ := h.flags u flagged' hn
      exact ⟨w, rest, hxz.trans hzw, hwr, hw, hflag⟩
  · intro u flagged' now hn
    rw [List.cons_append, List.mem_cons, List.mem_append, List.mem_cons] at hn
    rcases hn with hn | hn | hn | hn
    · cases hn
    · cases List.filterMap_eq_nil_iff.mp hcompleted _ hn
    · unfold Engine.finishNote at hn
      split at hn <;> cases hn
      refine ⟨y, z, hy, hs.2, h.works, ?_, rfl, rfl⟩
      rw [hpending, hz]
      rfl
    · obtain ⟨v, w, hzv, hvw, hwr, hrest⟩ := h.ends u flagged' now hn
      exact ⟨v, w, hxz.trans hzv, hvw, hwr, hrest⟩
  · intro hstops
    have hprefix : y.stops <+: r.stops := Reaches.stops ((Works.reaches h.works).head hs.2)
    rw [hstops, List.prefix_nil] at hprefix
    have hfly : t.id ∈ Entries.keys y.engine.inFlight := by
      rw [hsound.control.flight (hsound.ledger.stops_eq_nil_iff.mp hprefix), hpending]
      exact List.mem_cons_self
    simp only [List.cons_append, List.filterMap_cons, List.filterMap_append, hcompleted,
      Engine.finishNote, if_pos (Entries.has_iff_mem.mpr hfly), Note.completed?, List.nil_append,
      h.completed hstops]

theorem begun_sublist (h : Played k ts x r ns) :
    (ns.filterMap Note.begun?).Sublist (ts.map (·.id)) := by
  rw [h.begun, ← h.turns, List.map_map]
  exact List.filter_sublist.map _

end Played

/-- A tick that comes to its end has played the turns of all the tasks that it launched. -/
theorem Works.turns {ts : List (Task β)} (h : x.Sound) (hw : x.Works m') (hi : m'.phase = .idle)
    (hp : x.phase = .turns k ts) : ∃ r ns, Played k ts x r ns ∧ r.Works m' := by
  -- The turns to come are the measure: a turn takes its task off, with or without a body.
  induction ts generalizing x with
  | nil => exact ⟨x, [], .nothing hp, hw⟩
  | cons t ts ih =>
    obtain ⟨y, hidle, hs, hwy⟩ := hw.first_step (by rw [hi, hp]; rintro ⟨⟩)
    have hsy := h.step hs
    rcases hs.of_turns_cons hp with ⟨hf, rfl⟩ | ⟨hf, rfl⟩
    · obtain ⟨r, ns, hplayed, hr⟩ := ih hsy hwy rfl
      have hj : (x.move (x.engine.register.finish t) (.turns k ts)
          [.turn t true, x.engine.finishNote t]).journal =
            x.journal ++ (.turn t true :: [] ++ [x.engine.finishNote t]) := rfl
      exact ⟨r, _, hplayed.turn hp .refl ⟨hidle, hs⟩ h hj hf (by rw [hp]; rfl) rfl rfl rfl rfl, hr⟩
    · -- The body of the task runs: calls come, until the turn ends.
      obtain ⟨w, z, mid, hwy, hpw, hj, hmid, rfl, hwz⟩ := Works.talks
        (fun _ _ hs hp => hs.of_body hp) hwy rfl (by rw [hi]; rintro ⟨⟩)
      have hxw : x.Works w := Relation.ReflTransGen.head ⟨hidle, hs⟩ hwy
      have hsw := h.reaches hxw.reaches
      have hidle' : w.phase ≠ .idle := by rw [hpw]; rintro ⟨⟩
      have hend : w.Inside (w.move (w.engine.finish t) (.turns k ts) [w.engine.finishNote t]) :=
        ⟨hidle', .finish hpw⟩
      obtain ⟨r, ns, hplayed, hr⟩ := ih (hsw.step hend.2) hwz rfl
      have hjz : (w.move (w.engine.finish t) (.turns k ts) [w.engine.finishNote t]).journal =
          x.journal ++ (.turn t false :: .started t x.engine.now :: mid ++ [w.engine.finishNote t]) := by
        simp [move, hj]
      exact ⟨r, _, hplayed.turn hp hxw hend hsw hjz hf (by rw [hpw]; rfl) rfl
        (congrArg (t.id :: ·) hmid.begun) hmid.turn hmid.completed, hr⟩

/-! ## The end of a tick -/

theorem Works.of_idle (hw : x.Works m') (hp : x.phase = .idle) : m' = x := by
  rcases Relation.ReflTransGen.cases_head hw with rfl | ⟨_, hs, -⟩
  · rfl
  · exact absurd hp hs.1

/-- After the turns the last action runs if one is set, unless the engine was stopped. -/
theorem Works.closing (h : x.Sound) (hw : x.Works m') (hi : m'.phase = .idle)
    (hp : x.phase = .turns k []) (hk : k.looped = false) :
    ∃ ns, m'.journal = x.journal ++ ns ∧
      (x.stops = [] → ns.filterMap Note.begun? = ((x.engine.boundary .last).map (·.id)).toList) ∧
      (x.stops ≠ [] → ns.filterMap Note.begun? = []) ∧
      ns.filterMap Note.turn? = [] ∧ ns.filterMap Note.completed? = [] := by
  have hleave : (Phase.leave k : Phase β) = .idle := if_neg (by rw [hk]; exact Bool.false_ne_true)
  obtain ⟨y, -, hs, hw⟩ := hw.first_step (by rw [hi, hp]; rintro ⟨⟩)
  have hy := h.step hs
  obtain ⟨passed, b, hb, rfl⟩ := hs.of_turns_nil hp
  cases passed with
  | false =>
    obtain ⟨hterm, -⟩ := TickBarrier.await?_false hb
    rw [hw.of_idle hleave]
    have hstopped := h.ledger.stops_ne_nil_iff.mpr (h.control.terminated.mp hterm)
    exact ⟨[], rfl, fun hstops => absurd hstops hstopped, fun _ => rfl, rfl, rfl⟩
  | true =>
    obtain ⟨hterm, -⟩ := TickBarrier.await?_true hb
    have hstops : x.stops = [] := h.ledger.stops_eq_nil_iff.mpr fun hs => by
      rw [h.control.terminated.mpr hs] at hterm
      cases hterm
    obtain ⟨z, ns, -, hpz, hw, hj, hbegun, hturn, hcompleted⟩ := hw.boundary hy hi rfl
    obtain ⟨w, -, hs, hw⟩ := hw.first_step (by rw [hi, hpz]; rintro ⟨⟩)
    cases hs.of_parking hpz
    rw [hw.of_idle hleave]
    refine ⟨ns, ?_, fun _ => hbegun, fun hne => absurd hstops hne, hturn, hcompleted⟩
    rw [move, hj]
    simp [move]

end Machine

end Vivarium
