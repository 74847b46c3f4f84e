import Vivarium.Proofs.Control

/-! # The boundary actions

A boundary action gets an identity of its own, which no task and no other boundary action has. Its
flag can be raised only while its body is running, and the end of the body settles it, so a boundary
action that is set always runs when its place in a tick is reached.
-/

namespace Vivarium

namespace Engine

variable {β : Type}

theorem boundary_putBoundary (which w : Boundary) (t : Option (Task β)) (e : Engine β) :
    (e.putBoundary which t).boundary w = if w = which then t else e.boundary w := by
  cases which <;> cases w <;> rfl

theorem boundary_setBoundary {which w : Boundary} {work : Option β} {e : Engine β} {u : Task β}
    (h : (e.setBoundary which work).boundary w = some u) :
    w = which ∧ u.id = ⟨e.nextTask⟩ ∧ (e.setBoundary which work).nextTask = e.nextTask + 1 ∨
      w ≠ which ∧ e.boundary w = some u := by
  cases work with
  | none =>
    rw [setBoundary, boundary_putBoundary] at h
    split at h
    · cases h
    · next hne => exact Or.inr ⟨hne, h⟩
  | some work =>
    change (e.putBoundary which _).boundary w = some u at h
    rw [boundary_putBoundary] at h
    split at h
    · next he =>
      cases h
      exact Or.inl ⟨he, rfl, rfl⟩
    · next hne => exact Or.inr ⟨hne, h⟩

/-- Settling drops a flagged action and nothing else. -/
theorem boundary_settleBoundary {which w : Boundary} {t u : Task β} {e : Engine β}
    (h : (e.settleBoundary which t).boundary w = some u) :
    e.boundary w = some u ∧ (w = which → u.id = t.id → e.isFlagged t.id = false) := by
  unfold settleBoundary at h
  split at h
  · rw [boundary_putBoundary] at h
    split at h
    · cases h
    · next hne => exact ⟨h, fun hw => absurd hw hne⟩
  · next hno =>
    refine ⟨h, fun hw hu => ?_⟩
    rw [Bool.eq_false_iff]
    refine fun hf => hno ⟨hf, ?_⟩
    rw [← hw, h, ← hu]
    rfl

theorem flagged_settleBoundary (which : Boundary) (t : Task β) (e : Engine β) :
    (e.settleBoundary which t).flagged = e.flagged := by
  unfold settleBoundary
  split
  · cases which <;> rfl
  · rfl

end Engine

namespace Machine

variable {β : Type} {m m' : Machine β}

structure Boundaries (m : Machine β) : Prop where
  flagged_lt : ∀ id, m.engine.isFlagged id = true → id.number < m.engine.nextTask
  lt : ∀ which t, m.engine.boundary which = some t → t.id.number < m.engine.nextTask
  fresh : ∀ which t, m.engine.boundary which = some t → t.id ∉ m.issued
  apart : ∀ which which' t t', m.engine.boundary which = some t → m.engine.boundary which' = some t' →
    t.id = t'.id → which = which'
  calm : ∀ which t, m.engine.boundary which = some t → m.engine.isFlagged t.id = true →
    m.phase.running? = some t.id
  running_lt : ∀ id, m.phase.running? = some id → id.number < m.engine.nextTask
  own : ∀ k which t, m.phase = .boundary k which t →
    t.id ∉ m.issued ∧ ∀ w u, m.engine.boundary w = some u → u.id = t.id → w = which

namespace Boundaries

theorem not_issued (m : Machine β) {e : Engine β} {p : Phase β} {ns : List (Note β)}
    (hnew : ∀ t, .scheduled t ∈ ns → m.engine.nextTask ≤ t.id.number) {id : TaskId}
    (hid : id ∉ m.issued) (hlt : id.number < m.engine.nextTask) : id ∉ (m.move e p ns).issued := by
  rw [issued_move, List.mem_append]
  rintro (h | h)
  · exact hid h
  · obtain ⟨n, hn, heq⟩ := List.mem_filterMap.mp h
    cases n with
    | scheduled t =>
      cases heq
      exact Nat.lt_irrefl _ (Nat.lt_of_lt_of_le hlt (hnew t hn))
    | _ => cases heq

/-- A move that leaves the boundary actions as they are and flags only tasks that were issued and the
one that is running. -/
theorem keep (h : m.Boundaries) (hl : m.Ledger) {e : Engine β} {p : Phase β} {ns : List (Note β)}
    (hfirst : e.first = m.engine.first) (hlast : e.last = m.engine.last)
    (hnext : m.engine.nextTask ≤ e.nextTask)
    (hflagged : ∀ id, e.isFlagged id = true →
      m.engine.isFlagged id = true ∨ id ∈ m.issued ∨ m.phase.running? = some id)
    (hnew : ∀ t, .scheduled t ∈ ns → m.engine.nextTask ≤ t.id.number)
    (hrun : ∀ id, m.phase.running? = some id → id ∈ m.issued ∨ p.running? = some id)
    (hrun' : ∀ id, p.running? = some id → id.number < m.engine.nextTask)
    (hown : ∀ k which t, p = .boundary k which t →
      t.id ∉ m.issued ∧ ∀ w u, m.engine.boundary w = some u → u.id = t.id → w = which) :
    (m.move e p ns).Boundaries := by
  have hslots : ∀ which, e.boundary which = m.engine.boundary which := by
    intro which
    cases which with
    | first => exact hfirst
    | last => exact hlast
  have hcalm : ∀ which t, m.engine.boundary which = some t → m.phase.running? = some t.id →
      p.running? = some t.id := fun which t ht hr =>
    (hrun t.id hr).resolve_left (h.fresh which t ht)
  constructor
  · intro id hid
    refine Nat.lt_of_lt_of_le ?_ hnext
    rcases hflagged id hid with hid | hid | hid
    · exact h.flagged_lt id hid
    · exact hl.lt id hid
    · exact h.running_lt id hid
  · intro which t ht
    exact Nat.lt_of_lt_of_le (h.lt which t ((hslots which).symm.trans ht)) hnext
  · intro which t ht
    have ht := (hslots which).symm.trans ht
    exact not_issued m hnew (h.fresh which t ht) (h.lt which t ht)
  · intro which which' t t' ht ht'
    exact h.apart which which' t t' ((hslots which).symm.trans ht) ((hslots which').symm.trans ht')
  · intro which t ht hf
    have ht := (hslots which).symm.trans ht
    rcases hflagged t.id hf with hf | hf | hf
    · exact hcalm which t ht (h.calm which t ht hf)
    · exact absurd hf (h.fresh which t ht)
    · exact hcalm which t ht hf
  · exact fun id hid => Nat.lt_of_lt_of_le (hrun' id hid) hnext
  · intro k which t hp
    obtain ⟨hissued, honly⟩ := hown k which t hp
    refine ⟨not_issued m hnew hissued (hrun' t.id ?_), fun w u hu => ?_⟩
    · change p = _ at hp
      rw [hp]
      rfl
    · exact honly w u ((hslots w).symm.trans hu)

/-! ## Calls -/

theorem stay (h : m.Boundaries) (hl : m.Ledger) {e : Engine β} {ns : List (Note β)}
    (hfirst : e.first = m.engine.first) (hlast : e.last = m.engine.last)
    (hnext : m.engine.nextTask ≤ e.nextTask)
    (hflagged : ∀ id, e.isFlagged id = true →
      m.engine.isFlagged id = true ∨ id ∈ m.issued ∨ m.phase.running? = some id)
    (hnew : ∀ t, .scheduled t ∈ ns → m.engine.nextTask ≤ t.id.number) :
    (m.move e m.phase ns).Boundaries :=
  h.keep hl hfirst hlast hnext hflagged hnew (fun _ hid => Or.inr hid) h.running_lt h.own

theorem setBoundary (h : m.Boundaries) (hl : m.Ledger) (which : Boundary) (work : Option β) :
    (m.move (m.engine.setBoundary which work) m.phase []).Boundaries := by
  have hissued : ∀ id, id ∉ m.issued →
      id ∉ (m.move (m.engine.setBoundary which work) m.phase []).issued := by
    intro id hid
    rw [issued_move, List.filterMap_nil, List.append_nil]
    exact hid
  have hnext : m.engine.nextTask ≤ (m.engine.setBoundary which work).nextTask :=
    (Engine.SameTasks.setBoundary which work m.engine).nextTask
  have hflagged : ∀ id, (m.engine.setBoundary which work).isFlagged id = m.engine.isFlagged id := by
    cases which <;> cases work <;> exact fun _ => rfl
  constructor
  · intro id hid
    exact Nat.lt_of_lt_of_le (h.flagged_lt id ((hflagged id).symm.trans hid)) hnext
  · intro w u hu
    rcases Engine.boundary_setBoundary hu with ⟨-, hid, hn⟩ | ⟨-, hu⟩
    · change u.id.number < (m.engine.setBoundary which work).nextTask
      rw [hid, hn]
      exact Nat.lt_succ_self _
    · exact Nat.lt_of_lt_of_le (h.lt w u hu) hnext
  · intro w u hu
    refine hissued u.id ?_
    rcases Engine.boundary_setBoundary hu with ⟨-, hid, -⟩ | ⟨-, hu⟩
    · rw [hid]
      exact fun hmem => Nat.lt_irrefl _ (hl.lt _ hmem)
    · exact h.fresh w u hu
  · intro w w' u u' hu hu' heq
    rcases Engine.boundary_setBoundary hu with ⟨hw, hid, -⟩ | ⟨hw, hu⟩ <;>
      rcases Engine.boundary_setBoundary hu' with ⟨hw', hid', -⟩ | ⟨hw', hu'⟩
    · rw [hw, hw']
    · have hlt := h.lt w' u' hu'
      rw [← heq, hid] at hlt
      exact absurd hlt (Nat.lt_irrefl _)
    · have hlt := h.lt w u hu
      rw [heq, hid'] at hlt
      exact absurd hlt (Nat.lt_irrefl _)
    · exact h.apart w w' u u' hu hu' heq
  · intro w u hu hf
    have hf := (hflagged u.id).symm.trans hf
    rcases Engine.boundary_setBoundary hu with ⟨-, hid, -⟩ | ⟨-, hu⟩
    · have hlt := h.flagged_lt u.id hf
      rw [hid] at hlt
      exact absurd hlt (Nat.lt_irrefl _)
    · exact h.calm w u hu hf
  · exact fun id hid => Nat.lt_of_lt_of_le (h.running_lt id hid) hnext
  · intro k w t hp
    obtain ⟨hissued', honly⟩ := h.own k w t hp
    refine ⟨hissued t.id hissued', fun w' u hu heq => ?_⟩
    rcases Engine.boundary_setBoundary hu with ⟨-, hid, -⟩ | ⟨-, hu⟩
    · have hlt := h.running_lt t.id (by rw [show m.phase = _ from hp]; rfl)
      rw [← heq, hid] at hlt
      exact absurd hlt (Nat.lt_irrefl _)
    · exact honly w' u hu heq

theorem cancel (h : m.Boundaries) (hl : m.Ledger) (id : TaskId) :
    (m.move (m.engine.cancel id).2 m.phase (EngineCall.notes m.engine (.cancel id))).Boundaries := by
  have hnew : ∀ t, .scheduled t ∈ EngineCall.notes m.engine (.cancel id) →
      m.engine.nextTask ≤ t.id.number := by
    intro t ht
    simp only [EngineCall.notes] at ht
    split at ht
    · cases List.mem_singleton.mp ht
    · cases ht
  by_cases hid : id ∈ m.engine.queue.ids
  · rw [Engine.cancel_queued hl.queue hid]
    exact h.stay hl rfl rfl (Nat.le_refl _) (fun _ => Or.inl) hnew
  · rw [Engine.cancel_not_queued hl.queue hid]
    split
    · next hfly =>
      refine h.stay hl rfl rfl (Nat.le_refl _) (fun id' hid' => ?_) hnew
      rcases Engine.isFlagged_flag.mp hid' with hid' | rfl
      · exact Or.inl hid'
      · have hmem := Entries.has_iff_mem.mp (Bool.and_eq_true_iff.mp hfly).1
        exact Or.inr (Or.inl (hl.held_issued (List.mem_append_right _ hmem)))
    · exact h.stay hl rfl rfl (Nat.le_refl _) (fun _ => Or.inl) hnew

theorem call (h : m.Boundaries) (hl : m.Ledger) (c : EngineCall β) (hc : m.Allows c) :
    (m.move (c.effect m.engine) m.phase (c.notes m.engine)).Boundaries := by
  cases c with
  | schedule work delay period =>
    by_cases hs : m.engine.state = .stopped
    · simp only [EngineCall.effect, EngineCall.notes, Engine.schedule_of_stopped hs]
      exact h.stay hl rfl rfl (Nat.le_refl _) (fun _ => Or.inl) (by rintro _ ⟨⟩)
    · simp only [EngineCall.effect, EngineCall.notes, Engine.schedule_ok hs]
      refine h.stay hl rfl rfl (Nat.le_succ _) (fun _ => Or.inl) fun t ht => ?_
      cases List.mem_singleton.mp ht
      exact Nat.le_refl _
  | cancel id => exact h.cancel hl id
  | flag id =>
    refine h.stay hl rfl rfl (Nat.le_refl _) (fun id' hid => ?_) (by rintro _ ⟨⟩)
    rcases Engine.isFlagged_flag.mp hid with hid | rfl
    · exact Or.inl hid
    · exact Or.inr hc
  | pause =>
    rcases Engine.effect_pause m.engine with heq | ⟨-, heq⟩ <;> rw [heq] <;>
      exact h.stay hl rfl rfl (Nat.le_refl _) (fun _ => Or.inl) (by rintro _ ⟨⟩)
  | stop =>
    have hnew : ∀ t : Task β, .scheduled t ∈ [Note.stopped m.engine.stop.1] →
        m.engine.nextTask ≤ t.id.number := by
      intro t ht
      simp at ht
    simp only [EngineCall.effect, EngineCall.notes]
    by_cases hs : m.engine.state = .stopped
    · have heq : m.engine.stop.2 = { m.engine with running := false } := by
        rw [Engine.stop_of_stopped hs]
      rw [heq]
      exact h.stay hl rfl rfl (Nat.le_refl _) (fun _ => Or.inl) hnew
    · rw [(Engine.stop_of_live hs).2]
      refine h.stay hl rfl rfl (Nat.le_refl _) (fun id hid => ?_) hnew
      rcases Distinct.mem_addAll.mp (Engine.isFlagged_iff.mp hid) with hid | hid
      · exact Or.inl (Engine.isFlagged_iff.mpr hid)
      · exact Or.inr (Or.inl (hl.held_issued (List.mem_append_right _ hid)))
  | setBoundary which work => exact h.setBoundary hl which work
  | setClock clock =>
    exact h.stay hl rfl rfl (Nat.le_refl _) (fun _ => Or.inl) (by rintro _ ⟨⟩)

/-! ## Turns -/

/-- A move between two places that are in no body of a boundary action. -/
theorem away (h : m.Boundaries) (hl : m.Ledger) {e : Engine β} {p : Phase β} {ns : List (Note β)}
    (hfirst : e.first = m.engine.first) (hlast : e.last = m.engine.last)
    (hnext : e.nextTask = m.engine.nextTask) (hflagged : e.flagged = m.engine.flagged)
    (hnew : ∀ t, .scheduled t ∉ ns) (hr : ∀ id, m.phase.running? = some id → id ∈ m.issued)
    (hr' : ∀ id, p.running? = some id → id ∈ m.issued) (hb : ∀ k which t, p ≠ .boundary k which t) :
    (m.move e p ns).Boundaries := by
  refine h.keep hl hfirst hlast (Nat.le_of_eq hnext.symm) (fun id hid => Or.inl ?_)
    (fun t ht => absurd ht (hnew t)) (fun id hid => Or.inl (hr id hid))
    (fun id hid => hl.lt id (hr' id hid)) (fun k which t hp => absurd hp (hb k which t))
  rw [Engine.isFlagged_iff] at hid ⊢
  exact hflagged ▸ hid

/-- Where no body is running no boundary action is flagged. -/
theorem unflagged (h : m.Boundaries) (hp : m.phase.running? = none) {which : Boundary} {t : Task β}
    (ht : m.engine.boundary which = some t) : m.engine.isFlagged t.id = false := by
  rw [Bool.eq_false_iff]
  intro hf
  have hrun := h.calm which t ht hf
  rw [hp] at hrun
  cases hrun

theorem enter (h : m.Boundaries) (hl : m.Ledger) {k : TickFrame} {which : Boundary} {t : Task β}
    (hp : m.phase = .facing k which) (ht : m.engine.boundary which = some t) :
    (m.move m.engine (.boundary k which t) [.opened which t]).Boundaries := by
  refine h.keep hl rfl rfl (Nat.le_refl _) (fun _ => Or.inl) ?_ ?_ ?_ ?_
  · intro _ ht
    cases List.mem_singleton.mp ht
  · rw [hp]
    rintro _ ⟨⟩
  · rintro _ ⟨⟩
    exact h.lt which t ht
  · rintro _ _ _ ⟨⟩
    exact ⟨h.fresh which t ht, fun w u hu heq => h.apart w which u t hu ht heq⟩

theorem settle (h : m.Boundaries) {k : TickFrame} {which : Boundary} {t : Task β}
    (hp : m.phase = .boundary k which t) :
    (m.move (m.engine.settleBoundary which t) (.past k which) []).Boundaries := by
  obtain ⟨-, honly⟩ := h.own k which t hp
  have hnext : (m.engine.settleBoundary which t).nextTask = m.engine.nextTask := by
    unfold Engine.settleBoundary
    split
    · cases which <;> rfl
    · rfl
  have hflagged : ∀ id, (m.engine.settleBoundary which t).isFlagged id = m.engine.isFlagged id := by
    intro id
    rw [Engine.isFlagged, Engine.flagged_settleBoundary]
    rfl
  have hissued : (m.move (m.engine.settleBoundary which t) (.past k which) []).issued = m.issued := by
    rw [issued_move, List.filterMap_nil, List.append_nil]
  have hrun : (Phase.past k which : Phase β).running? = none := by cases which <;> rfl
  constructor
  · intro id hid
    change id.number < (m.engine.settleBoundary which t).nextTask
    rw [hnext]
    exact h.flagged_lt id ((hflagged id).symm.trans hid)
  · intro w u hu
    change u.id.number < (m.engine.settleBoundary which t).nextTask
    rw [hnext]
    exact h.lt w u (Engine.boundary_settleBoundary hu).1
  · intro w u hu
    rw [hissued]
    exact h.fresh w u (Engine.boundary_settleBoundary hu).1
  · intro w w' u u' hu hu'
    exact h.apart w w' u u' (Engine.boundary_settleBoundary hu).1 (Engine.boundary_settleBoundary hu').1
  · intro w u hu hf
    obtain ⟨hu, hsettled⟩ := Engine.boundary_settleBoundary hu
    have hf := (hflagged u.id).symm.trans hf
    -- Only the action whose body ends here can be flagged, and it was just settled.
    have hid := h.calm w u hu hf
    rw [hp] at hid
    have hid : u.id = t.id := (Option.some.inj hid).symm
    have hclear := hsettled (honly w u hu hid) hid
    rw [← hid, hf] at hclear
    cases hclear
  · intro id hid
    change (Phase.past k which).running? = some id at hid
    rw [hrun] at hid
    cases hid
  · intro k' which' t' hp'
    change Phase.past k which = _ at hp'
    rw [hp'] at hrun
    cases hrun

theorem step (h : m.Boundaries) (hl : m.Ledger) (hc : m.Control) (hs : m.Step m') : m'.Boundaries := by
  cases hs with
  | call c _ hallow => exact h.call hl c hallow
  | step hp _ he =>
    obtain ⟨-, rfl⟩ := Engine.enter_ok he
    refine h.away hl rfl rfl rfl rfl (by rintro _ ⟨⟩) ?_ (by rintro _ ⟨⟩)
      (by rintro _ _ _ ⟨⟩)
    rw [hp]
    rintro _ ⟨⟩
  | @tick drives _ hp he =>
    obtain ⟨-, -, _, -, rfl⟩ := Engine.start_ok he
    refine h.away hl rfl rfl rfl rfl (by rintro _ ⟨⟩) ?_ ?_ ?_
    · rw [hp]
      rintro _ ⟨⟩
    · cases drives <;> rintro _ ⟨⟩
    · cases drives <;> rintro _ _ _ ⟨⟩
  | again hp he =>
    obtain ⟨-, -, rfl⟩ := Engine.continues_true he
    refine h.away hl rfl rfl rfl rfl (by rintro _ ⟨⟩) ?_ (by rintro _ ⟨⟩)
      (by rintro _ _ _ ⟨⟩)
    rw [hp]
    rintro _ ⟨⟩
  | leave hp he =>
    obtain ⟨-, rfl⟩ := Engine.continues_false he
    refine h.away hl rfl rfl rfl rfl (by rintro _ ⟨⟩) ?_ (by rintro _ ⟨⟩)
      (by rintro _ _ _ ⟨⟩)
    rw [hp]
    rintro _ ⟨⟩
  | @absent k which hp hb =>
    refine h.away hl rfl rfl rfl rfl (by rintro _ ⟨⟩) ?_ ?_ ?_
    · rw [hp]
      rintro _ ⟨⟩
    · cases which <;> rintro _ ⟨⟩
    · cases which <;> rintro _ _ _ ⟨⟩
  | pass hp hb hf =>
    have hno := h.unflagged (by rw [hp]; rfl) hb
    rw [hf] at hno
    cases hno
  | enter hp hb hf => exact h.enter hl hp hb
  | settle hp => exact h.settle hp
  | launch hp =>
    refine h.away hl rfl rfl rfl rfl ?_ ?_ (by rintro _ ⟨⟩) (by rintro _ _ _ ⟨⟩)
    · intro _ ht
      cases List.mem_singleton.mp ht
    · rw [hp]
      rintro _ ⟨⟩
  | @start k t rest hp hf =>
    refine h.away hl rfl rfl rfl rfl ?_ ?_ ?_ (by rintro _ _ _ ⟨⟩)
    · intro u hu
      simp at hu
    · rw [hp]
      rintro _ ⟨⟩
    · rintro _ ⟨⟩
      exact hc.pending t (by rw [hp]; exact List.mem_cons_self)
  | @skip k t rest hp hf =>
    rw [Engine.finish, Engine.complete_eq]
    refine h.away hl rfl rfl rfl rfl ?_ ?_ (by rintro _ ⟨⟩) (by rintro _ _ _ ⟨⟩)
    · intro u hu
      have hnote := m.engine.scheduled_finishNote t
      simp only [List.mem_cons, List.not_mem_nil, or_false, reduceCtorEq, false_or] at hu
      rw [← hu] at hnote
      cases hnote
    · rw [hp]
      rintro _ ⟨⟩
  | @finish k t rest hp =>
    rw [Engine.finish, Engine.complete_eq]
    refine h.away hl rfl rfl rfl rfl ?_ ?_ (by rintro _ ⟨⟩) (by rintro _ _ _ ⟨⟩)
    · intro u hu
      have hnote := m.engine.scheduled_finishNote t
      rw [← List.mem_singleton.mp hu] at hnote
      cases hnote
    · rw [hp]
      rintro _ ⟨⟩
      exact hc.pending t (by rw [hp]; exact List.mem_cons_self)
  | advance hp hb =>
    refine h.away hl rfl rfl rfl rfl (by rintro _ ⟨⟩) ?_ (by rintro _ ⟨⟩)
      (by rintro _ _ _ ⟨⟩)
    rw [hp]
    rintro _ ⟨⟩
  | @release k b hp hb =>
    refine h.away hl rfl rfl rfl rfl (by rintro _ ⟨⟩) ?_ ?_ ?_
    · rw [hp]
      rintro _ ⟨⟩
    · rcases Phase.leave_cases (β := β) k with ⟨heq, -⟩ | ⟨heq, -⟩ <;> rw [heq] <;>
        rintro _ ⟨⟩
    · rcases Phase.leave_cases (β := β) k with ⟨heq, -⟩ | ⟨heq, -⟩ <;> rw [heq] <;>
        rintro _ _ _ ⟨⟩
  | @park k hp =>
    have hkeep : ∀ e : Engine β, e.first = m.engine.first → e.last = m.engine.last →
        e.nextTask = m.engine.nextTask → e.flagged = m.engine.flagged →
          (m.move e (.leave k) []).Boundaries := by
      intro e hfirst hlast hnext hflagged
      refine h.away hl hfirst hlast hnext hflagged (by rintro _ ⟨⟩) ?_ ?_ ?_
      · rw [hp]
        rintro _ ⟨⟩
      · rcases Phase.leave_cases (β := β) k with ⟨heq, -⟩ | ⟨heq, -⟩ <;> rw [heq] <;>
          rintro _ ⟨⟩
      · rcases Phase.leave_cases (β := β) k with ⟨heq, -⟩ | ⟨heq, -⟩ <;> rw [heq] <;>
          rintro _ _ _ ⟨⟩
    rcases Engine.park_cases k.deadline { m.engine with meter := m.engine.meter.endTick } with
      ⟨-, heq⟩ | ⟨-, heq⟩ <;> rw [Engine.endTick, heq] <;> exact hkeep _ rfl rfl rfl rfl

theorem initial {config : EngineConfig} {e : Engine β} (he : Engine.create config = .ok e) :
    Boundaries { engine := e } := by
  obtain ⟨-, rfl⟩ := Engine.create_ok he
  exact {
    flagged_lt := by rintro _ ⟨⟩
    lt := fun which t ht => by cases which <;> cases ht
    fresh := fun which t ht => by cases which <;> cases ht
    apart := fun which _ t _ ht => by cases which <;> cases ht
    calm := fun which t ht => by cases which <;> cases ht
    running_lt := by rintro _ ⟨⟩
    own := by rintro _ _ _ ⟨⟩ }

end Boundaries

/-! ## Reachable machines -/

structure Sound (m : Machine β) : Prop where
  ledger : m.Ledger
  control : m.Control
  boundaries : m.Boundaries

theorem Sound.step (h : m.Sound) (hs : m.Step m') : m'.Sound :=
  ⟨h.ledger.step hs, h.control.step h.ledger hs, h.boundaries.step h.ledger h.control hs⟩

theorem Sound.reaches (h : m.Sound) (hr : m.Reaches m') : m'.Sound := by
  induction hr with
  | refl => exact h
  | tail _ hs ih => exact ih.step hs

theorem Sound.initial {config : EngineConfig} {e : Engine β} (he : Engine.create config = .ok e) :
    Sound { engine := e } := ⟨.initial he, .initial he, .initial he⟩

theorem Reachable.sound (h : m.Reachable) : m.Sound := by
  obtain ⟨config, e, he, hr⟩ := h
  exact (Sound.initial he).reaches hr

end Machine

end Vivarium
