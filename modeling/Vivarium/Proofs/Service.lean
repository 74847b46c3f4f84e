import Vivarium.Proofs.Handing

/-! # Every accepted job is run once

What a step can do to a submission, and what it leaves of a job that a worker has received, said once for all
steps. From it follows what becomes of a job: one whose submission was accepted is started by one worker, now
or, if workers go on, later; one whose submission was refused never is; and a submission that comes after a
shutdown is refused.
-/

namespace Vivarium

/-- How the stage of a submission may change in a step; `none` is one that has not come yet. -/
inductive SubmitStage.Moves (accepting : Bool) : Option SubmitStage → Option SubmitStage → Prop
  | stay (s : Option SubmitStage) : Moves accepting s s
  | call : Moves accepting none (some .called)
  | offer (h : accepting = true) : Moves accepting (some .called) (some .offering)
  | refuse (h : accepting = false) : Moves accepting (some .called) (some .refused)
  | hand : Moves accepting (some .offering) (some .handed)
  | accept : Moves accepting (some .handed) (some .accepted)

namespace WorkerPool

variable {ι : Type} {p q : WorkerPool ι} {s : PoolStep ι} {w : Nat} {job : ι}

theorem offer_eq_none_iff : p.step? (.offer job) = none ↔ p.accepting = false := by
  rw [step?]
  split
  · next h => exact iff_of_false (by rintro ⟨⟩) (by rw [h]; decide)
  · next h => exact iff_of_true rfl (Bool.eq_false_iff.mpr h)

/-- A worker keeps the job that it has received until it begins it. -/
theorem received_of_step (hs : p.step? s = some q) (hw : p.workers[w]? = some (.received job)) :
    q.workers[w]? = some (.received job) ∨ s = .begin w := by
  have hmove : ∀ {w' : Nat} {stage stage' : WorkerStage ι}, p.workers[w']? = some stage →
      stage ≠ .received job → (p.workers.set w' stage')[w]? = some (.received job) := by
    intro w' stage stage' hw' hne
    rw [getElem?_exchange hw', if_neg]
    · exact hw
    · rintro rfl
      exact hne (Option.some.inj (hw'.symm.trans hw))
  cases s with
  | offer j =>
    obtain ⟨-, rfl⟩ := offer_ok hs
    exact Or.inl hw
  | close =>
    cases close_ok hs
    exact Or.inl hw
  | receive w' k =>
    obtain ⟨j, hw', -, rfl⟩ := receive_ok hs
    exact Or.inl (hmove hw' (by rintro ⟨⟩))
  | begin w' =>
    obtain ⟨j, hw', rfl⟩ := begin_ok hs
    by_cases hself : w' = w
    · exact Or.inr (congrArg PoolStep.begin hself)
    · refine Or.inl ?_
      change (p.workers.set w' (.running j))[w]? = _
      rwa [List.getElem?_set_ne hself]
  | finish w' =>
    obtain ⟨j, hw', rfl⟩ := finish_ok hs
    exact Or.inl (hmove hw' (by rintro ⟨⟩))
  | release w' =>
    obtain ⟨j, hw', rfl⟩ := release_ok hs
    exact Or.inl (hmove hw' (by rintro ⟨⟩))
  | leave w' =>
    obtain ⟨hw', -, rfl⟩ := leave_ok hs
    exact Or.inl (hmove hw' (by rintro ⟨⟩))
  | exit w' =>
    obtain ⟨hw', rfl⟩ := exit_ok hs
    exact Or.inl (hmove hw' (by rintro ⟨⟩))

end WorkerPool

namespace Traffic

variable {t t' : Traffic} {n w j : Nat}

/-! ## What a step can do -/

theorem Sound.moves (h : t.Sound n) (hs : t.Step t') (j : Nat) :
    SubmitStage.Moves t.pool.accepting t.submissions[j]? t'.submissions[j]? := by
  have hset : ∀ {i : Nat} {s s' : SubmitStage}, t.submissions[i]? = some s →
      SubmitStage.Moves t.pool.accepting (some s) (some s') →
      SubmitStage.Moves t.pool.accepting t.submissions[j]? (t.submissions.set i s')[j]? := by
    intro i s s' hi hmoves
    rw [getElem?_exchange hi]
    split
    · next hij => rwa [← hij, hi]
    · exact .stay _
  cases hs with
  | submit =>
    change SubmitStage.Moves _ _ (t.submissions ++ [.called])[j]?
    rw [List.getElem?_append]
    split
    · exact .stay _
    · next hj =>
      rw [List.getElem?_eq_none (Nat.le_of_not_lt hj)]
      cases hcall : [SubmitStage.called][j - t.submissions.length]? with
      | none => exact .stay _
      | some s =>
        cases List.mem_singleton.mp (List.mem_of_getElem? hcall)
        exact .call
  | offer hj hp => exact hset hj (.offer (WorkerPool.offer_ok hp).1)
  | refuse hj hp => exact hset hj (.refuse (WorkerPool.offer_eq_none_iff.mp hp))
  | receive hk hp => exact hset (h.whereabouts.offering (List.mem_of_getElem? hk)) .hand
  | accept hj => exact hset hj .accept
  | disconnect hj hw => exact absurd hw (h.not_deserted hj)
  | _ => exact .stay _

theorem Step.journal (hs : t.Step t') : t.journal <+: t'.journal := by
  cases hs with
  | begin | finish => exact List.prefix_append _ _
  | _ => exact List.prefix_refl _

theorem Step.closed (hs : t.Step t') (h : t.pool.accepting = false) : t'.pool.accepting = false := by
  cases hs with
  | offer hj hp =>
    obtain ⟨-, rfl⟩ := WorkerPool.offer_ok hp
    exact h
  | receive hk hp =>
    obtain ⟨_, -, -, rfl⟩ := WorkerPool.receive_ok hp
    exact h
  | begin hw hp =>
    obtain ⟨_, -, rfl⟩ := WorkerPool.begin_ok hp
    exact h
  | finish ending hw hp =>
    obtain ⟨_, -, rfl⟩ := WorkerPool.finish_ok hp
    exact h
  | release hp =>
    obtain ⟨_, -, rfl⟩ := WorkerPool.release_ok hp
    exact h
  | leave hn hp =>
    obtain ⟨-, -, rfl⟩ := WorkerPool.leave_ok hp
    exact h
  | exit hp =>
    obtain ⟨-, rfl⟩ := WorkerPool.exit_ok hp
    exact h
  | close hi hc hp =>
    cases WorkerPool.close_ok hp
    rfl
  | _ => exact h

/-- A job that a worker has received stays with it until the worker starts it. -/
theorem Step.received (hs : t.Step t') (hw : t.pool.workers[w]? = some (.received j)) :
    t'.pool.workers[w]? = some (.received j) ∨ w ∈ t'.starters j := by
  cases hs with
  | @begin w' j' p hw' hp =>
    rcases WorkerPool.received_of_step hp hw with hkept | hself
    · exact Or.inl hkept
    · cases hself
      cases hw.symm.trans hw'
      refine Or.inr ?_
      rw [starters, JobNote.starters_started, if_pos rfl]
      exact List.mem_append_right _ List.mem_cons_self
  | offer _ hp | receive _ hp | finish _ _ hp | release hp | leave _ hp | exit hp | close _ _ hp =>
    exact Or.inl ((WorkerPool.received_of_step hp hw).resolve_right (by rintro ⟨⟩))
  | _ => exact Or.inl hw

theorem Reaches.closed (hr : t.Reaches t') (h : t.pool.accepting = false) : t'.pool.accepting = false := by
  induction hr with
  | refl => exact h
  | tail _ hs ih => exact hs.closed ih

theorem Reaches.starters (hr : t.Reaches t') (hw : w ∈ t.starters j) : w ∈ t'.starters j := by
  induction hr with
  | refl => exact hw
  | tail _ hs ih => exact (hs.journal.filterMap _).subset ih

theorem Reaches.received (hr : t.Reaches t') (hw : t.pool.workers[w]? = some (.received j)) :
    t'.pool.workers[w]? = some (.received j) ∨ w ∈ t'.starters j := by
  induction hr with
  | refl => exact Or.inl hw
  | tail _ hs ih =>
    rcases ih with hkept | hstarted
    · exact hs.received hkept
    · exact Or.inr ((hs.journal.filterMap _).subset hstarted)

/-- What the end of a job is: it leaves the worker to count itself out. -/
theorem Step.of_ended {ending : JobEnding} (hs : t.Step t')
    (hj : t'.journal = t.journal ++ [.ended w j ending]) :
    t.pool.workers[w]? = some (.running j) ∧ ∃ p, t.pool.step? (.finish w) = some p ∧ t'.pool = p := by
  cases hs with
  | begin hw hp => cases (List.append_cancel_left hj)
  | finish ending hw hp =>
    cases List.append_cancel_left hj
    exact ⟨hw, _, hp, rfl⟩
  | _ => exact absurd (congrArg List.length hj) (by simp)

/-! ## What becomes of a job -/

namespace Sound

/-- A job that was taken over waits with a worker or was started. -/
theorem kept (h : t.Sound n) (j : Nat) : t.pool.workers.count (.received j) + (t.starters j).length =
    if t.submissions[j]?.any SubmitStage.isTaken then 1 else 0 := h.whereabouts.kept j

theorem starters_le (h : t.Sound n) (j : Nat) : (t.starters j).length ≤ 1 := by
  have hkept := h.kept j
  split at hkept <;> omega

theorem starters_eq (h : t.Sound n) (hw : w ∈ t.starters j) : t.starters j = [w] := by
  have hone : (t.starters j).length = 1 := Nat.le_antisymm (h.starters_le j) (List.length_pos_of_mem hw)
  obtain ⟨w', heq⟩ := List.length_eq_one_iff.mp hone
  rw [heq] at hw ⊢
  rw [List.mem_singleton.mp hw]

/-- A job that was taken over was started by one worker, or else one has received it. -/
theorem taken (h : t.Sound n) {s : SubmitStage} (hj : t.submissions[j]? = some s) (hs : s.isTaken = true) :
    (∃ w, t.starters j = [w]) ∨
      t.starters j = [] ∧ t.pool.workers.count (.received j) = 1 := by
  have hkept := h.kept j
  rw [hj, Option.any_some, if_pos hs] at hkept
  cases hstarters : t.starters j with
  | nil =>
    rw [hstarters] at hkept
    exact Or.inr ⟨rfl, hkept⟩
  | cons w ws => exact Or.inl ⟨w, hstarters ▸ h.starters_eq (hstarters ▸ List.mem_cons_self)⟩

/-- A job that was not taken over was started by nobody. -/
theorem untaken (h : t.Sound n) (hj : t.submissions[j]?.any SubmitStage.isTaken = false) :
    t.starters j = [] := by
  have hkept := h.kept j
  rw [hj] at hkept
  exact List.length_eq_zero_iff.mp (Nat.eq_zero_of_add_eq_zero_left hkept)

/-- What no move of a submission ends is so for good. From when the pool is closed, the moves are those of a
closed pool. -/
theorem along (h : t.Sound n) (hr : t.Reaches t') {P : Option SubmitStage → Prop}
    (hP : ∀ {accepting s s'}, (t.pool.accepting = false → accepting = false) →
      SubmitStage.Moves accepting s s' → P s → P s')
    (hj : P t.submissions[j]?) : P t'.submissions[j]? := by
  induction hr with
  | refl => exact hj
  | tail hx hs ih => exact hP (Reaches.closed hx) ((h.reaches hx).moves hs j) ih

theorem stays_refused (h : t.Sound n) (hr : t.Reaches t') (hj : t.submissions[j]? = some .refused) :
    t'.submissions[j]? = some .refused := by
  refine h.along (P := (· = some .refused)) hr (fun _ hm hs => ?_) hj
  subst hs
  cases hm
  rfl

theorem stays_there (h : t.Sound n) (hr : t.Reaches t') {s : SubmitStage}
    (hj : t.submissions[j]? = some s) : ∃ s', t'.submissions[j]? = some s' := by
  refine h.along (P := fun s => ∃ s', s = some s') hr (fun _ hm hs => ?_) ⟨s, hj⟩
  obtain ⟨s', rfl⟩ := hs
  cases hm <;> exact ⟨_, rfl⟩

/-- Once the pool is closed, later submissions get no further than to being refused. -/
theorem late (h : t.Sound n) (hclosed : t.pool.accepting = false) (hr : t.Reaches t')
    (hj : t.submissions.length ≤ j) {s : SubmitStage} (hs : t'.submissions[j]? = some s) :
    s = .called ∨ s = .refused := by
  refine h.along (P := fun s => ∀ s', s = some s' → s' = .called ∨ s' = .refused) hr ?_ ?_ s hs
  · intro accepting before after haccepting hm hbefore s' hs'
    cases hm with
    | stay => exact hbefore s' hs'
    | call => exact Or.inl (Option.some.inj hs').symm
    | refuse => exact Or.inr (Option.some.inj hs').symm
    | offer hopen =>
      rw [haccepting hclosed] at hopen
      cases hopen
    | hand | accept => rcases hbefore _ rfl with heq | heq <;> cases heq
  · rintro s' hs'
    rw [List.getElem?_eq_none hj] at hs'
    cases hs'

/-- If no worker is left, whoever was accepted is done. -/
theorem done (h : t.Sound n) (hgone : t.pool.alive = 0) {s : SubmitStage} (hj : t.submissions[j]? = some s)
    (hs : s.isTaken = true) : ∃ w, t.starters j = [w] ∧ t.enders j = [w] := by
  have hnone : ∀ stage : WorkerStage Nat, stage ≠ .gone → t.pool.workers.count stage = 0 :=
    fun stage hne => List.count_eq_zero.mpr fun hmem => hne (h.manned.gone_of_alive hgone hmem)
  rcases h.taken hj hs with ⟨w, hw⟩ | ⟨-, hreceived⟩
  · have hunderway : t.pool.workers.count (.running j) + (t.enders j).length = (t.starters j).length :=
      h.whereabouts.underway j
    rw [hnone _ (by rintro ⟨⟩), hw, List.length_singleton] at hunderway
    obtain ⟨w', hw'⟩ := List.length_eq_one_iff.mp ((Nat.zero_add _).symm.trans hunderway)
    have hstarter : w' ∈ t.starters j := h.whereabouts.ender w' j (by
      change w' ∈ t.enders j
      rw [hw']
      exact List.mem_cons_self)
    rw [hw] at hstarter
    exact ⟨w, hw, by rw [hw', List.mem_singleton.mp hstarter]⟩
  · rw [hnone _ (by rintro ⟨⟩)] at hreceived
    cases hreceived

/-- A worker whose job has ended, however it did, counts it out and is free again. -/
theorem frees (h : t.Sound n) {ending : JobEnding} (hs : t.Step t')
    (hj : t'.journal = t.journal ++ [.ended w j ending]) :
    t'.pool.alive = t.pool.alive ∧ ∃ t'', t'.Step t'' ∧ t''.pool.workers[w]? = some .free ∧
      t''.pool.alive = t.pool.alive ∧ t''.pool.active + 1 = t.pool.active := by
  obtain ⟨hw, p, hp, hpool⟩ := hs.of_ended hj
  obtain ⟨j', hw', rfl⟩ := WorkerPool.finish_ok hp
  have hlt : w < t.pool.workers.length := (List.getElem?_eq_some_iff.mp hw).1
  have hfinished : t'.pool.workers[w]? = some (.finished j') := by
    rw [hpool]
    exact List.getElem?_set_self hlt
  have hbusy : 0 < t.pool.active := by
    rw [h.manned.active]
    exact List.countP_pos_iff.mpr ⟨_, List.mem_of_getElem? hw, rfl⟩
  have hrelease : t'.pool.step? (.release w) =
      some { t'.pool.moveTo w .free with active := t'.pool.active - 1 } := by
    rw [WorkerPool.step?, hfinished]
  refine ⟨by rw [hpool]; rfl, _, .release hrelease, ?_, ?_, ?_⟩
  · change (t'.pool.workers.set w .free)[w]? = _
    rw [getElem?_exchange hfinished, if_pos rfl]
  · change t'.pool.alive = _
    rw [hpool]
    rfl
  · change t'.pool.active - 1 + 1 = _
    rw [hpool]
    exact Nat.sub_add_cancel hbusy

end Sound

/-! ## Runs that go on -/

/-- A run without end in which, sooner or later, every worker begins the job that it has received and every
submission looks whether the pool is open. -/
structure Fair (n : Nat) (r : Nat → Traffic) : Prop where
  start : r 0 = create n
  next : ∀ i, r (i + 1) = r i ∨ (r i).Step (r (i + 1))
  begins : ∀ i w j : Nat, (r i).pool.workers[w]? = some (.received j) →
    ∃ k, i ≤ k ∧ (r k).pool.workers[w]? ≠ some (.received j)
  looks : ∀ i j : Nat, (r i).submissions[j]? = some .called →
    ∃ k, i ≤ k ∧ (r k).submissions[j]? ≠ some .called

namespace Fair

variable {r : Nat → Traffic} {i k : Nat}

theorem reaches (h : Fair n r) (hik : i ≤ k) : (r i).Reaches (r k) := by
  induction hik with
  | refl => exact .refl
  | @step k _ ih =>
    rcases h.next k with heq | hs
    · exact heq ▸ ih
    · exact ih.tail hs

theorem sound (h : Fair n r) (i : Nat) : (r i).Sound n :=
  (Sound.create n).reaches (h.start ▸ h.reaches (Nat.zero_le i))

theorem started (h : Fair n r) {s : SubmitStage} (hj : (r i).submissions[j]? = some s)
    (hs : s.isTaken = true) : ∃ k w, ∀ m, k ≤ m → (r m).starters j = [w] := by
  have hlasts : ∀ {k w : Nat}, w ∈ (r k).starters j → ∀ m, k ≤ m → (r m).starters j = [w] :=
    fun hw m hm => (h.sound m).starters_eq ((h.reaches hm).starters hw)
  rcases (h.sound i).taken hj hs with ⟨w, hw⟩ | ⟨-, hreceived⟩
  · exact ⟨i, w, hlasts (hw ▸ List.mem_cons_self)⟩
  · have hmem : WorkerStage.received j ∈ (r i).pool.workers := List.count_pos_iff.mp (by omega)
    obtain ⟨w, hw⟩ := List.mem_iff_getElem?.mp hmem
    obtain ⟨k, hik, hno⟩ := h.begins i w j hw
    exact ⟨k, w, hlasts (((h.reaches hik).received hw).resolve_left hno)⟩

theorem refused (h : Fair n r) (hclosed : (r i).pool.accepting = false)
    (hlate : (r i).submissions.length ≤ j) (hik : i ≤ k) (hj : (r k).submissions[j]? = some .called) :
    ∃ k', ∀ m, k' ≤ m → (r m).submissions[j]? = some .refused := by
  obtain ⟨k', hkk', hno⟩ := h.looks k j hj
  obtain ⟨s, hs⟩ := (h.sound k).stays_there (h.reaches hkk') hj
  have hrefused : s = .refused := by
    rcases (h.sound i).late hclosed (h.reaches (Nat.le_trans hik hkk')) hlate hs with rfl | heq
    · exact absurd hs hno
    · exact heq
  exact ⟨k', fun m hm => (h.sound k').stays_refused (h.reaches hm) (hrefused ▸ hs)⟩

end Fair

theorem exists_run (h : t.Reaches t') : ∃ (r : Nat → Traffic) (k : Nat), r 0 = t ∧
    (∀ i, r (i + 1) = r i ∨ (r i).Step (r (i + 1))) ∧ ∀ m, k ≤ m → r m = t' := by
  induction h with
  | refl => exact ⟨fun _ => t, 0, rfl, fun _ => Or.inl rfl, fun _ _ => rfl⟩
  | @tail x y _ hs ih =>
    obtain ⟨r, k, hstart, hnext, hend⟩ := ih
    refine ⟨fun i => if i ≤ k then r i else y, k + 1, ?_, fun i => ?_, fun m hm => if_neg (by omega)⟩
    · exact (if_pos (Nat.zero_le k)).trans hstart
    · beta_reduce
      rcases Nat.lt_trichotomy i k with hlt | rfl | hgt
      · rw [if_pos (show i + 1 ≤ k by omega), if_pos (show i ≤ k by omega)]
        exact hnext i
      · rw [if_neg (show ¬i + 1 ≤ i by omega), if_pos (Nat.le_refl i), hend i (Nat.le_refl i)]
        exact Or.inr hs
      · rw [if_neg (show ¬i + 1 ≤ k by omega), if_neg (show ¬i ≤ k by omega)]
        exact Or.inl rfl

/-- What comes to rest where nobody is late has been fair. -/
theorem Reachable.fair (h : t.Reachable n) (hw : ∀ w j : Nat, t.pool.workers[w]? ≠ some (.received j))
    (hs : ∀ j : Nat, t.submissions[j]? ≠ some .called) :
    ∃ (r : Nat → Traffic) (k : Nat), Fair n r ∧ r k = t := by
  obtain ⟨r, k, hstart, hnext, hend⟩ := exists_run h
  refine ⟨r, k, ⟨hstart, hnext, fun i w j _ => ?_, fun i j _ => ?_⟩, hend k (Nat.le_refl k)⟩
  · exact ⟨max i k, Nat.le_max_left i k, hend _ (Nat.le_max_right i k) ▸ hw w j⟩
  · exact ⟨max i k, Nat.le_max_left i k, hend _ (Nat.le_max_right i k) ▸ hs j⟩

end Traffic

open Traffic

/-- In every run of a pool, whatever the order of the steps and however the jobs end: a job that was taken
over from its submission was started once, by one worker, or else one worker has received it; one whose
submission was refused is never started; and a submission that comes after the pool was closed can only be
refused. The end of a job, be it a panic, costs no worker and is counted out, and a worker leaves only when
the pool is closed and nobody sends. Only workers that are busy count as active, of which there are no more
than workers. When a shutdown has returned zero, all jobs that were taken over have ended with the worker
that started them. And in a run that goes on, a job that was taken over is started sooner or later, and a
submission after a shutdown is refused. -/
theorem jobs_are_neither_lost_nor_repeated (n : Nat) :
    (∀ t : Traffic, t.Reachable n →
      (∀ (j : Nat) (s : SubmitStage), t.submissions[j]? = some s → s.isTaken = true →
        (∃ w, t.starters j = [w]) ∨ t.starters j = [] ∧ t.pool.workers.count (.received j) = 1) ∧
      (∀ j : Nat, t.submissions[j]? = some .refused → ∀ t', t.Reaches t' → t'.starters j = []) ∧
      (∀ c ∈ t.shutdowns, c.stage ≠ .called → ∀ t', t.Reaches t' → ∀ j, t.submissions.length ≤ j →
        ∀ s : SubmitStage, t'.submissions[j]? = some s → s = .refused ∨
          s = .called ∧ t'.Step { t' with submissions := t'.submissions.set j .refused }) ∧
      (∀ w j ending t', t.Step t' → t'.journal = t.journal ++ [.ended w j ending] →
        t'.pool.alive = t.pool.alive ∧ ∃ t'', t'.Step t'' ∧ t''.pool.workers[w]? = some .free ∧
          t''.pool.alive = t.pool.alive ∧ t''.pool.active + 1 = t.pool.active) ∧
      (∀ s ∈ t.pool.workers, s.isOff = true → t.pool.accepting = false ∧ t.NobodySends) ∧
      (t.pool.active = t.pool.workers.countP WorkerStage.isBusy ∧ t.pool.active ≤ t.pool.size ∧
        t.pool.size = max n 1) ∧
      ∀ c ∈ t.shutdowns, c.stage = .returned 0 → t.pool.active = 0 ∧
        ∀ (j : Nat) (s : SubmitStage), t.submissions[j]? = some s → s.isTaken = true →
          ∃ w, t.starters j = [w] ∧ t.enders j = [w]) ∧
    ∀ r : Nat → Traffic, Fair n r →
      (∀ (i j : Nat) (s : SubmitStage), (r i).submissions[j]? = some s → s.isTaken = true →
        ∃ k w, ∀ m, k ≤ m → (r m).starters j = [w]) ∧
      ∀ i k j, (∃ c ∈ (r i).shutdowns, c.stage ≠ .called) → (r i).submissions.length ≤ j → i ≤ k →
        (r k).submissions[j]? = some .called → ∃ k', ∀ m, k' ≤ m → (r m).submissions[j]? = some .refused := by
  refine ⟨fun t ht => ?_, fun r hr => ⟨fun i j s => hr.started, fun i k j ⟨c, hc, hstage⟩ => ?_⟩⟩
  · have h := ht.sound
    refine ⟨fun j s => h.taken, fun j hj t' hr => ?_, fun c hc hstage t' hr j hj s hs => ?_,
      fun w j ending t' => h.frees, h.apart, ⟨h.manned.active, ?_, h.manned.size⟩, fun c hc hzero => ?_⟩
    · refine (h.reaches hr).untaken ?_
      rw [h.stays_refused hr hj]
      rfl
    · have hclosed := h.closed c hc hstage
      rcases h.late hclosed hr hj hs with rfl | rfl
      · exact Or.inr ⟨rfl, .refuse hs (WorkerPool.offer_eq_none_iff.mpr (hr.closed hclosed))⟩
      · exact Or.inl rfl
    · exact Nat.le_trans h.manned.active_le (Nat.le_of_eq h.manned.size.symm)
    · have hgone : t.pool.alive = 0 := Nat.le_zero.mp (h.answered c hc 0 hzero)
      refine ⟨?_, fun j s => h.done hgone⟩
      rw [h.manned.active]
      exact List.countP_eq_zero.mpr fun s hs => by rw [h.manned.gone_of_alive hgone hs]; decide
  · exact hr.refused ((hr.sound i).closed c hc hstage)

namespace Traffic

/-- The only worker is busy with a job that will panic while a second submission sends. The pool is shut down
before that is received, and a third submission comes too late. -/
theorem outlasting : ∃ t : Traffic, t.Reachable 1 ∧ t.submissions = [.accepted, .accepted, .refused] ∧
    t.shutdowns = [⟨false, true, .returned 0⟩] ∧ t.pool.workers = [.gone] ∧
    t.journal = [.started 0 0, .ended 0 0 .panicked, .started 0 1, .ended 0 1 .returned] := by
  have hr : (create 1).Reaches (create 1) := .refl
  have hr := hr.tail .submit
  have hr := hr.tail (.offer (j := 0) rfl rfl)
  have hr := hr.tail (.receive (w := 0) (k := 0) rfl rfl)
  have hr := hr.tail (.accept (j := 0) rfl)
  have hr := hr.tail (.begin (w := 0) rfl rfl)
  have hr := hr.tail .submit
  have hr := hr.tail (.offer (j := 1) rfl rfl)
  have hr := hr.tail (.shutdown false true)
  have hr := hr.tail (.close (i := 0) rfl rfl rfl)
  have hr := hr.tail .submit
  have hr := hr.tail (.refuse (j := 2) rfl rfl)
  have hr := hr.tail (.finish (w := 0) .panicked rfl rfl)
  have hr := hr.tail (.release (w := 0) rfl)
  have hr := hr.tail (.receive (w := 0) (k := 0) rfl rfl)
  have hr := hr.tail (.accept (j := 1) rfl)
  have hr := hr.tail (.begin (w := 0) rfl rfl)
  have hr := hr.tail (.finish (w := 0) .returned rfl rfl)
  have hr := hr.tail (.release (w := 0) rfl)
  have hr := hr.tail (.leave (w := 0) (by unfold NobodySends; decide) rfl)
  have hr := hr.tail (.exit (w := 0) rfl)
  have hr := hr.tail (.answer (i := 0) rfl (Or.inr ⟨rfl, Or.inr rfl⟩))
  exact ⟨_, hr, rfl, rfl, rfl, rfl⟩

theorem outlasting_is_served : ∃ t : Traffic, t.Reachable 1 ∧
    t.submissions = [.accepted, .accepted, .refused] ∧ t.shutdowns = [⟨false, true, .returned 0⟩] ∧
    t.pool.active = 0 ∧ t.enders 0 = [0] ∧ t.enders 1 = [0] ∧ t.starters 2 = [] ∧
    ∃ r, Fair 1 r ∧ ∃ k w, ∀ m, k ≤ m → (r m).starters 1 = [w] := by
  obtain ⟨t, hreach, hsubmissions, hshutdowns, hworkers, hjournal⟩ := outlasting
  obtain ⟨hsafe, hlive⟩ := jobs_are_neither_lost_nor_repeated 1
  obtain ⟨-, hrefused, -, -, -, -, hreturned⟩ := hsafe t hreach
  obtain ⟨hactive, hdone⟩ := hreturned _ (hshutdowns ▸ List.mem_cons_self) rfl
  obtain ⟨w₀, hs₀, he₀⟩ := hdone 0 .accepted (by rw [hsubmissions]; rfl) rfl
  obtain ⟨w₁, hs₁, he₁⟩ := hdone 1 .accepted (by rw [hsubmissions]; rfl) rfl
  have hfirst : t.starters 0 = [0] := by
    rw [starters, hjournal]
    rfl
  have hsecond : t.starters 1 = [0] := by
    rw [starters, hjournal]
    rfl
  cases hfirst.symm.trans hs₀
  cases hsecond.symm.trans hs₁
  have hidle : ∀ w j : Nat, t.pool.workers[w]? ≠ some (.received j) := by
    intro w j hw
    rw [hworkers] at hw
    cases List.mem_singleton.mp (List.mem_of_getElem? hw)
  have hanswered : ∀ j : Nat, t.submissions[j]? ≠ some .called := by
    intro j hj
    have hmem := List.mem_of_getElem? hj
    rw [hsubmissions] at hmem
    exact absurd hmem (by decide)
  obtain ⟨r, k, hfair, hend⟩ := hreach.fair hidle hanswered
  refine ⟨t, hreach, hsubmissions, hshutdowns, hactive, he₀, he₁, ?_, r, hfair, ?_⟩
  · exact hrefused 2 (by rw [hsubmissions]; rfl) t .refl
  · exact (hlive r hfair).1 k 1 .accepted (by rw [hend, hsubmissions]; rfl) rfl

end Traffic

end Vivarium
