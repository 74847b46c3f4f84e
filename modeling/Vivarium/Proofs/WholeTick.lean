import Vivarium.Proofs.Cancelling
import Vivarium.Proofs.Remaining

/-! # A whole tick

A single step of an engine that is not stopped is one tick: the first action, the turns of the tasks
that are due when it is over, and the last action. The tasks are launched all at once, so nothing that
is queued during the turns has a turn in the same tick.
-/

namespace Vivarium

namespace Machine

variable {β : Type} {m m' q r : Machine β} {k : TickFrame} {opening turning closing : List (Note β)}

/-- The queued tasks that are due before the end of the tick, in the order of the queue. -/
def batch (k : TickFrame) (q : Machine β) : List (Task β) :=
  q.engine.queue.toList.filter (·.due < k.deadline)

def backlog (k : TickFrame) (q : Machine β) : List (Task β) :=
  q.engine.queue.toList.filter (¬·.due < k.deadline)

/-- A tick that begins at `m` and is over at `m'`. At `q` the first action is over, and at `r` the
turns are. -/
structure WholeTick (k : TickFrame) (m q r m' : Machine β) (opening turning closing : List (Note β)) :
    Prop where
  opened : m.Works q ∧ q.phase = .launching k ∧ q.journal = m.journal ++ opening
  turned : q.Works r ∧ r.phase = .turns k [] ∧ r.journal = q.journal ++ .launched (q.batch k) :: turning
  closed : r.Works m' ∧ m'.journal = r.journal ++ closing
  /-- The first action runs if one is set, and no other body does. -/
  opens : opening.filterMap Note.begun? = ((m.engine.boundary .first).map (·.id)).toList
  /-- The queue is in the order of due times and insertions. -/
  order : q.engine.queue.WellFormed
  turns : (turning.filterMap Note.turn?).map (·.1) = q.batch k
  /-- The bodies that start are those of the tasks that are not flagged when their turns come. -/
  starts : turning.filterMap Note.begun? = ((turning.filterMap Note.turn?).filter (!·.2)).map (·.1.id)
  flags : ∀ t flagged, Note.turn t flagged ∈ turning → ∃ y rest, q.Works y ∧ y.Works r ∧
    y.phase = .turns k (t :: rest) ∧ y.engine.isFlagged t.id = flagged
  /-- No body starts twice, so a task that is queued again has to wait for another tick. -/
  once : ((turning ++ closing).filterMap Note.begun?).Nodup
  /-- What is scheduled after the launch has to wait for another tick. -/
  waits : ∀ t ∈ (turning ++ closing).filterMap Note.scheduled?,
    t.id ∉ (turning ++ closing).filterMap Note.begun?
  closes : r.stops = [] → closing.filterMap Note.begun? = ((r.engine.boundary .last).map (·.id)).toList
  /-- An engine that was stopped before does not run the last action. -/
  skips : r.stops ≠ [] → closing.filterMap Note.begun? = []
  /-- Turns come between the two actions only. -/
  apart : (opening ++ closing).filterMap Note.turn? = [] ∧
    (opening ++ closing).filterMap Note.completed? = []
  flight : m'.engine.inFlight = []
  /-- If the engine was not stopped every turn has ended. -/
  completes : m'.stops = [] → turning.filterMap Note.completed? = q.batch k
  ends : ∀ t flagged now, Note.completed t flagged now ∈ turning → ∃ y z, q.Works y ∧ y.Step z ∧
    z.Works r ∧ y.phase.pending = t :: z.phase.pending ∧ y.engine.isFlagged t.id = flagged ∧
    y.engine.now = now
  leaves : m'.stops = [] → m'.engine.queue.toList.Perm (remaining (q.backlog k) (turning ++ closing))

theorem Ledger.batch_ids (h : q.Ledger) (k : TickFrame) :
    ((q.batch k).map (·.id)).Nodup ∧ ∀ t ∈ q.batch k, t.id ∈ q.issued := by
  constructor
  · exact (List.filter_sublist.map _).nodup h.queue.ids_nodup
  · intro t ht
    refine h.held_issued (List.mem_append_left _ ?_)
    exact List.mem_map.mpr ⟨t, (List.mem_filter.mp ht).1, rfl⟩

/-- The launch takes the batch and leaves the backlog. -/
theorem Works.launched (h : q.Sound) (hw : q.Works m') (hi : m'.phase = .idle)
    (hp : q.phase = .launching k) :
    ∃ x, q.Works x ∧ x.Works m' ∧ x.phase = .turns k (q.batch k) ∧
      x.journal = q.journal ++ [.launched (q.batch k)] ∧ x.engine.queue.toList = q.backlog k := by
  obtain ⟨x, hidle, hs, hxm⟩ := hw.first_step (by rw [hi, hp]; rintro ⟨⟩)
  obtain ⟨hbatch, hlaunch⟩ := Engine.launch_eq h.ledger.queue h.ledger.held_nodup k.deadline
  obtain ⟨-, hbacklog, -⟩ := h.ledger.queue.popAllDue k.deadline
  refine ⟨x, Relation.ReflTransGen.single ⟨hidle, hs⟩, hxm, ?_⟩
  rw [hs.of_launching hp, move, hbatch, hlaunch]
  exact ⟨rfl, rfl, hbacklog⟩

theorem Step.issued_new (hs : m.Step m') {id : TaskId} (hid : id ∈ m'.issued) :
    id ∈ m.issued ∨ id = ⟨m.engine.nextTask⟩ := by
  have hquiet : ∀ (e : Engine β) (p : Phase β) (ns : List (Note β)),
      ns.filterMap (fun n => n.scheduled?.map (·.id)) = [] →
        id ∈ (m.move e p ns).issued → id ∈ m.issued := by
    intro e p ns hns hmem
    rwa [issued_move, hns, List.append_nil] at hmem
  cases hs with
  | call c =>
    cases c with
    | schedule work delay period =>
      by_cases hs : m.engine.state = .stopped
      · simp only [EngineCall.effect, EngineCall.notes, Engine.schedule_of_stopped hs] at hid
        exact Or.inl (hquiet _ _ _ rfl hid)
      · simp only [EngineCall.effect, EngineCall.notes, Engine.schedule_ok hs] at hid
        rw [issued_move] at hid
        exact (List.mem_append.mp hid).imp_right List.mem_singleton.mp
    | cancel id' =>
      refine Or.inl (hquiet _ _ _ ?_ hid)
      simp only [EngineCall.notes]
      split <;> rfl
    | _ => exact Or.inl (hquiet _ _ _ rfl hid)
  | @skip k t =>
    refine Or.inl (hquiet _ _ _ ?_ hid)
    rw [List.filterMap_cons_none rfl, List.filterMap_cons_none]
    · rfl
    · rw [Engine.scheduled_finishNote]
      rfl
  | @finish k t =>
    refine Or.inl (hquiet _ _ _ ?_ hid)
    rw [List.filterMap_cons_none]
    · rfl
    · rw [Engine.scheduled_finishNote]
      rfl
  | _ => exact Or.inl (hquiet _ _ _ rfl hid)

/-- An identity that is not that of a task never becomes one. -/
theorem Sound.never_issued (h : m.Sound) (hr : m.Reaches m') {id : TaskId}
    (hlt : id.number < m.engine.nextTask) (hno : id ∉ m.issued) : id ∉ m'.issued := by
  induction hr with
  | refl => exact hno
  | tail hr hs ih =>
    intro hid
    rcases hs.issued_new hid with hid | rfl
    · exact ih hid
    · exact Nat.lt_irrefl _ (Nat.lt_of_lt_of_le hlt (h.fades hr).next)

/-- What begins after the launch: each body once, and none of a task that is scheduled meanwhile. -/
theorem Sound.begins_apart {x : Machine β} (hr : r.Sound) (hrm : r.Reaches m')
    (hids : ∀ id ∈ turning.filterMap Note.begun?, id ∈ x.issued)
    (hjr : r.journal = x.journal ++ turning) (hjm : m'.journal = r.journal ++ closing)
    (hclosing : ∀ id ∈ closing.filterMap Note.begun?,
      ∃ t, r.engine.boundary .last = some t ∧ t.id = id) :
    (∀ id ∈ turning.filterMap Note.begun?, id ∉ closing.filterMap Note.begun?) ∧
      ∀ t ∈ (turning ++ closing).filterMap Note.scheduled?,
        t.id ∉ (turning ++ closing).filterMap Note.begun? := by
  have hm := hr.reaches hrm
  have hissued : m'.issued =
      x.issued ++ (turning ++ closing).filterMap fun n => n.scheduled?.map (·.id) := by
    rw [issued, hjm, hjr, List.append_assoc]
    exact List.filterMap_append
  have hsub : x.issued ⊆ r.issued := by
    rw [issued, issued, hjr, List.filterMap_append]
    exact List.subset_append_left _ _
  constructor
  · intro id hid hid'
    obtain ⟨t, ht, rfl⟩ := hclosing id hid'
    exact hr.boundaries.fresh .last t ht (hsub (hids _ hid))
  · intro t ht hid
    have hnew : t.id ∈ (turning ++ closing).filterMap fun n => n.scheduled?.map (·.id) := by
      obtain ⟨n, hn, hs⟩ := List.mem_filterMap.mp ht
      exact List.mem_filterMap.mpr ⟨n, hn, by rw [hs]; rfl⟩
    have hnodup := hm.ledger.nodup
    rw [hissued] at hnodup
    rw [List.filterMap_append, List.mem_append] at hid
    rcases hid with hid | hid
    · exact (List.nodup_append.mp hnodup).2.2 _ (hids _ hid) _ hnew rfl
    · -- The last action was set before `r`, so no task that is scheduled later gets its identity.
      obtain ⟨u, hu, heq⟩ := hclosing _ hid
      refine hr.never_issued hrm (hr.boundaries.lt .last u hu) (hr.boundaries.fresh .last u hu) ?_
      rw [heq, hissued]
      exact List.mem_append_right _ hnew

/-- The only body at the end of a tick is that of the last action. -/
theorem closing_begun
    (hcloses : r.stops = [] →
      closing.filterMap Note.begun? = ((r.engine.boundary .last).map (·.id)).toList)
    (hskips : r.stops ≠ [] → closing.filterMap Note.begun? = []) :
    closing.filterMap Note.begun? = [] ∨
      ∃ t, r.engine.boundary .last = some t ∧ closing.filterMap Note.begun? = [t.id] := by
  by_cases hstops : r.stops = []
  · have hcloses := hcloses hstops
    cases hb : r.engine.boundary .last with
    | none =>
      rw [hb] at hcloses
      exact Or.inl hcloses
    | some t =>
      rw [hb] at hcloses
      exact Or.inr ⟨t, rfl, hcloses⟩
  · exact Or.inl (hskips hstops)

theorem Sound.no_flight (h : m.Sound) (hi : m.phase = .idle) : m.engine.inFlight = [] := by
  by_cases hs : m.engine.state = .stopped
  · have hheld := h.ledger.emptied hs
    rw [Engine.held, List.append_eq_nil_iff] at hheld
    exact List.map_eq_nil_iff.mp hheld.2
  · rw [h.control.flight hs, hi]
    rfl

theorem Sound.wholeTick (h : m.Sound) (hw : m.Works m') (hi : m'.phase = .idle)
    (hp : m.phase = .facing k .first) (hk : k.looped = false) :
    ∃ q r opening turning closing, WholeTick k m q r m' opening turning closing := by
  obtain ⟨q, opening, hmq, hpq, hqm, hjq, hopens, hturn, hcompleted⟩ := hw.boundary h hi hp
  have hq := h.reaches hmq.reaches
  obtain ⟨x, hqx, hxm, hpx, hjx, hqueue⟩ := hqm.launched hq hi hpq
  have hx := hq.reaches hqx.reaches
  obtain ⟨r, turning, hplayed, hrm⟩ := hxm.turns hx hi hpx
  have hr := hx.reaches hplayed.works.reaches
  obtain ⟨closing, hjm, hcloses, hskips, hturn', hcompleted'⟩ := hrm.closing hr hi hplayed.phase hk
  obtain ⟨hnodup, hissued⟩ := hq.ledger.batch_ids k
  have hbegun : ∀ id ∈ turning.filterMap Note.begun?, id ∈ x.issued := by
    intro id hid
    obtain ⟨t, ht, rfl⟩ := List.mem_map.mp (hplayed.begun_sublist.subset hid)
    exact hqx.reaches.issued (hissued t ht)
  have hclosing := closing_begun hcloses hskips
  obtain ⟨hapart, hwaits⟩ := begins_apart hr hrm.reaches hbegun hplayed.journal hjm (by
    intro id hid
    rcases hclosing with hnil | ⟨t, ht, heq⟩
    · rw [hnil] at hid
      cases hid
    · rw [heq] at hid
      exact ⟨t, ht, (List.mem_singleton.mp hid).symm⟩)
  refine ⟨q, r, opening, turning, closing, ?_⟩
  exact {
    opened := ⟨hmq, hpq, hjq⟩
    turned := by
      refine ⟨hqx.trans hplayed.works, hplayed.phase, ?_⟩
      rw [hplayed.journal, hjx]
      exact List.append_assoc _ _ _
    closed := ⟨hrm, hjm⟩
    opens := hopens
    order := hq.ledger.queue
    turns := hplayed.turns
    starts := hplayed.begun
    flags := by
      intro t flagged hn
      obtain ⟨y, rest, hxy, hyr, hy⟩ := hplayed.flags t flagged hn
      exact ⟨y, rest, hqx.trans hxy, hyr, hy⟩
    once := by
      rw [List.filterMap_append]
      refine List.nodup_append.mpr ⟨hplayed.begun_sublist.nodup hnodup, ?_, ?_⟩
      · rcases hclosing with hnil | ⟨t, -, heq⟩
        · rw [hnil]
          exact List.nodup_nil
        · rw [heq]
          exact List.nodup_cons.mpr ⟨List.not_mem_nil, List.nodup_nil⟩
      · rintro id hid _ hid' rfl
        exact hapart id hid hid'
    waits := hwaits
    closes := hcloses
    skips := hskips
    apart := by
      rw [List.filterMap_append, List.filterMap_append, hturn, hturn', hcompleted, hcompleted']
      exact ⟨rfl, rfl⟩
    flight := (hr.reaches hrm.reaches).no_flight hi
    completes := by
      intro hstops
      have hprefix : r.stops <+: m'.stops := hrm.reaches.stops
      rw [hstops, List.prefix_nil] at hprefix
      exact hplayed.completed hprefix
    ends := by
      intro t flagged now hn
      obtain ⟨y, z, hxy, hrest⟩ := hplayed.ends t flagged now hn
      exact ⟨y, z, hqx.trans hxy, hrest⟩
    leaves := by
      intro hstops
      have hlate : Late x.phase := by rw [hpx]; exact hk
      obtain ⟨ns, hns⟩ := hx.late_balances hxm hlate hstops
      have heq : ns = turning ++ closing := by
        refine List.append_cancel_left (hns.journal.symm.trans ?_)
        rw [hjm, hplayed.journal, List.append_assoc]
      rw [← heq, ← hqueue]
      exact hns.queue }

end Machine

/-- A step of a program whose bodies never break off comes to the end of a tick. -/
theorem Conduct.step_returns {β μ : Type} {c : Conduct β μ} {run : Run β μ} (hobeys : c.Obeys run)
    (hnever : ∀ why, ¬c.fails why) {m : Machine (Job β)} {s : Simulation β μ} (ht : c.Tied m s)
    (hp : m.phase = .idle) (hs : m.engine.state ≠ .stopped) :
    ∃ s' m', Simulation.step run s = .ok (.ok (), s') ∧ m.beginStep.Works m' ∧ m'.phase = .idle ∧
      c.Tied m' s' := by
  obtain ⟨-, hlead⟩ := step_works hobeys ht hp hs
  cases hact : Simulation.step run s with
  | error why => exact absurd (hlead.of_halt hact) (hnever why)
  | ok p =>
    obtain ⟨a, s'⟩ := p
    obtain ⟨m', hworks, ht', rfl, hp'⟩ := hlead.of_run hact
    exact ⟨s', m', rfl, hworks, hp', ht'⟩

/-- A step of an engine that is not stopped is a whole tick, whatever the bodies do in it. -/
theorem step_is_whole_tick {β μ : Type} :
    (∀ m : Machine β, m.Reachable → m.phase = .idle → m.engine.state ≠ .stopped →
      m.Step m.beginStep ∧ ∀ m', m.beginStep.Works m' → m'.phase = .idle →
        ∃ q r opening turning closing,
          Machine.WholeTick (m.engine.frame false) m.beginStep q r m' opening turning closing) ∧
      (∀ (c : Conduct β μ) (run : Run β μ), c.Obeys run → (∀ why, ¬c.fails why) →
        ∀ (m : Machine (Job β)) (s : Simulation β μ), c.Tied m s → m.phase = .idle →
          m.engine.state ≠ .stopped →
            ∃ s' m', Simulation.step run s = .ok (.ok (), s') ∧ m.beginStep.Works m' ∧
              m'.phase = .idle ∧ c.Tied m' s') ∧
      ∀ s : Simulation (Code μ) μ, s.Ends → s.engine.state ≠ .stopped → ∀ bound,
        ∃ s', Simulation.step (Simulation.runCode (bound + 1)) s = .ok (.ok (), s') ∧
          ∃ m m' : Machine (Job (Code μ)), m.Reachable ∧ m.phase = .idle ∧ m.engine = s.engine ∧
            m.beginStep.Works m' ∧ m'.phase = .idle ∧ m'.engine = s'.engine := by
  refine ⟨?_, ?_, ?_⟩
  · intro m hm hp hs
    have h := hm.sound
    have hstep : m.Step m.beginStep := .step hp (h.control.not_running hp) (Engine.enter_ticking hs)
    exact ⟨hstep, fun m' hw hi => (h.step hstep).wholeTick hw hi rfl rfl⟩
  · intro c run hobeys hnever m s ht hp hs
    exact Conduct.step_returns hobeys hnever ht hp hs
  · intro s hends hs bound
    obtain ⟨m, hm, hp, ht⟩ := hends.tied
    have htotal : (Code.total μ).Tied m s := ⟨ht.sound, ht.serves, ht.engine, ht.seen⟩
    rw [ht.engine] at hs
    obtain ⟨s', m', hact, hworks, hp', ht'⟩ :=
      Conduct.step_returns (Code.total_obeys bound) (fun _ => id) htotal hp hs
    exact ⟨s', hact, m, m', hm, hp, ht.engine.symm, hworks, hp', ht'.engine.symm⟩

namespace Machine

/-- The one-shot cancels the periodic task after that has come back. -/
theorem rivals_works : ∃ m', rivals.beginStep.Works m' ∧ m'.phase = .idle ∧ m'.stops = [] ∧
    m'.engine.queue.ids = [] ∧ (m'.journal.filterMap Note.requeued?).map (·.id) = [⟨0⟩] := by
  have hledger : rivals.beginStep.Ledger := rivals_reachable.sound.ledger.quiet
    ⟨rfl, rfl, Nat.le_refl _, by decide⟩ rfl rfl rfl
  have hdue : (rivals.beginStep.engine.launch (rivals.engine.frame false).deadline).1 =
      [⟨⟨0⟩, (), 1, 0⟩, ⟨⟨1⟩, (), 0, 0⟩] := (Engine.launch_eq hledger.queue hledger.held_nodup _).1
  have hw : rivals.beginStep.Works rivals.beginStep := .refl
  have hw := hw.after (by rintro ⟨⟩) (.absent rfl rfl)
  have hw := hw.after (by rintro ⟨⟩) (.launch rfl)
  have hw := hw.after (by rintro ⟨⟩) (.start (congrArg (Phase.turns _) hdue) (by decide +kernel))
  have hw := hw.after (by rintro ⟨⟩) (.finish rfl)
  have hw := hw.after (by rintro ⟨⟩) (.start rfl (by decide +kernel))
  have hw := hw.after (by rintro ⟨⟩) (.call (.cancel ⟨0⟩) rfl trivial)
  have hw := hw.after (by rintro ⟨⟩) (.finish rfl)
  have hw := hw.after (by rintro ⟨⟩) (.advance (b := { generation := 1 }) rfl (by decide +kernel))
  have hw := hw.after (by rintro ⟨⟩) (.absent rfl (by decide +kernel))
  have hw := hw.after (by rintro ⟨⟩) (.park rfl)
  exact ⟨_, hw, rfl, by decide +kernel, by decide +kernel, by decide +kernel⟩

theorem rivals_whole_tick : ∃ q r m' opening turning closing, m'.phase = .idle ∧
    WholeTick (rivals.engine.frame false) rivals.beginStep q r m' opening turning closing := by
  obtain ⟨m', hw, hi, -⟩ := rivals_works
  obtain ⟨-, htick⟩ := (step_is_whole_tick (μ := Unit)).1 rivals rivals_reachable rfl (by decide)
  obtain ⟨q, r, opening, turning, closing, h⟩ := htick m' hw hi
  exact ⟨q, r, m', opening, turning, closing, hi, h⟩

/-- Not every task that comes back in a tick is queued at its end: a later body may have cancelled it. -/
theorem returning_task_may_be_withdrawn :
    ¬∀ (m q r m' : Machine Unit) (opening turning closing : List (Note Unit)),
      m.Reachable → m.phase = .idle → m.engine.state ≠ .stopped → m'.phase = .idle →
        WholeTick (m.engine.frame false) m.beginStep q r m' opening turning closing → m'.stops = [] →
          m'.engine.queue.toList.Perm
            ((q.backlog (m.engine.frame false) ++ (turning ++ closing).filterMap Note.scheduled?).filter
              (fun t => t.id ∉ (turning ++ closing).filterMap Note.withdrawn?) ++
              (turning ++ closing).filterMap Note.requeued?) := by
  intro hclaim
  obtain ⟨m', hw, hi, hstops, hids, hreturned⟩ := rivals_works
  have h := rivals_reachable.sound
  have hlive : rivals.engine.state ≠ .stopped := by decide
  have hbegin := h.step (.step rfl rfl (Engine.enter_ticking hlive))
  obtain ⟨q, r, opening, turning, closing, htick⟩ := Sound.wholeTick hbegin hw hi rfl rfl
  have hperm := hclaim rivals q r m' opening turning closing rivals_reachable rfl hlive hi htick hstops
  rw [List.map_eq_nil_iff.mp hids, List.nil_perm, List.append_eq_nil_iff] at hperm
  have hopening : opening.filterMap Note.requeued? = [] := by
    have hnone := htick.apart.2
    rw [List.filterMap_append, List.append_eq_nil_iff] at hnone
    refine List.filterMap_eq_nil_iff.mpr fun n hn => ?_
    have hn := List.filterMap_eq_nil_iff.mp hnone.1 n hn
    cases n <;> first | rfl | cases hn
  have hjournal : m'.journal.filterMap Note.requeued? =
      (turning ++ closing).filterMap Note.requeued? := by
    rw [htick.closed.2, htick.turned.2.2, htick.opened.2.2]
    simp only [List.filterMap_append, List.filterMap_cons, hopening]
    rfl
  rw [hjournal, hperm.2] at hreturned
  cases hreturned

end Machine

end Vivarium
