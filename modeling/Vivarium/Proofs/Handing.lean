import Vivarium.Proofs.Traffic

/-! # No job is lost or repeated

Wherever a job is, it is there once: on offer, with the worker that has received it, or among the jobs that
were started. So every job that was accepted is started once, by one worker, and a refused one never is; and
since workers leave only when nobody sends any more, a pool without workers has finished all that it accepted.
-/

namespace Vivarium

theorem filterMap_concat {α γ : Type} (f : α → Option γ) (as : List α) (a : α) :
    (as ++ [a]).filterMap f = as.filterMap f ++ (f a).toList := by
  rw [List.filterMap_append]
  cases h : f a with
  | none => rw [List.filterMap_cons_none h]; rfl
  | some c => rw [List.filterMap_cons_some h]; rfl

theorem count_exchange {α : Type} [DecidableEq α] {as : List α} {i : Nat} {a : α} (h : as[i]? = some a)
    (b c : α) : (as.set i b).count c + (if a = c then 1 else 0) = as.count c + if b = c then 1 else 0 := by
  have hcount := countP_exchange h b (· == c)
  simp only [beq_iff_eq] at hcount
  exact hcount

theorem count_set_of_ne {α : Type} [DecidableEq α] {as : List α} {i : Nat} {a b c : α} (h : as[i]? = some a)
    (ha : a ≠ c) (hb : b ≠ c) : (as.set i b).count c = as.count c := by
  have hcount := count_exchange h b c
  rwa [if_neg ha, if_neg hb] at hcount

namespace JobNote

variable (journal : List JobNote) (w j i : Nat) (ending : JobEnding)

theorem starters_started : (journal ++ [started w j]).filterMap (starter? i) =
    journal.filterMap (starter? i) ++ if j = i then [w] else [] := by
  rw [filterMap_concat, starter?]
  split <;> rfl

theorem length_starters_started : ((journal ++ [started w j]).filterMap (starter? i)).length =
    (journal.filterMap (starter? i)).length + if j = i then 1 else 0 := by
  rw [starters_started, List.length_append]
  split <;> rfl

theorem enders_started :
    (journal ++ [started w j]).filterMap (ender? i) = journal.filterMap (ender? i) := by
  rw [filterMap_concat]
  exact List.append_nil _

theorem starters_ended :
    (journal ++ [ended w j ending]).filterMap (starter? i) = journal.filterMap (starter? i) := by
  rw [filterMap_concat]
  exact List.append_nil _

theorem enders_ended : (journal ++ [ended w j ending]).filterMap (ender? i) =
    journal.filterMap (ender? i) ++ if j = i then [w] else [] := by
  rw [filterMap_concat, ender?]
  split <;> rfl

theorem length_enders_ended : ((journal ++ [ended w j ending]).filterMap (ender? i)).length =
    (journal.filterMap (ender? i)).length + if j = i then 1 else 0 := by
  rw [enders_ended, List.length_append]
  split <;> rfl

end JobNote

/-! ## Where the jobs are -/

/-- Where each job is, by what is on offer, the workers, the submissions and the journal. -/
structure Whereabouts (offered : List Nat) (workers : List (WorkerStage Nat)) (submissions : List SubmitStage)
    (journal : List JobNote) : Prop where
  offers : ∀ j, offered.count j = if submissions[j]? = some .offering then 1 else 0
  kept : ∀ j, workers.count (.received j) + (journal.filterMap (JobNote.starter? j)).length =
    if submissions[j]?.any SubmitStage.isTaken then 1 else 0
  underway : ∀ j, workers.count (.running j) + (journal.filterMap (JobNote.ender? j)).length =
    (journal.filterMap (JobNote.starter? j)).length
  starter : ∀ w j : Nat, workers[w]? = some (.running j) → w ∈ journal.filterMap (JobNote.starter? j)
  ender : ∀ w j, w ∈ journal.filterMap (JobNote.ender? j) → w ∈ journal.filterMap (JobNote.starter? j)

namespace Whereabouts

variable {offered : List Nat} {workers : List (WorkerStage Nat)} {submissions : List SubmitStage}
  {journal : List JobNote} {w j : Nat}

theorem create (n : Nat) : Whereabouts [] (List.replicate n .free) [] [] := by
  have hnone : ∀ s : WorkerStage Nat, s ≠ .free → (List.replicate n .free).count s = 0 :=
    fun s hs => List.count_eq_zero.mpr fun hmem => hs (List.eq_of_mem_replicate hmem)
  constructor
  · exact fun j => rfl
  · intro j
    rw [hnone _ (by rintro ⟨⟩)]
    rfl
  · intro j
    rw [hnone _ (by rintro ⟨⟩)]
    rfl
  · intro w j hw
    cases List.eq_of_mem_replicate (List.mem_of_getElem? hw)
  · rintro w j ⟨⟩

/-- Nothing moves but submissions, and for each of them it is still the same whether it offers its job and
whether that was taken over. -/
theorem resubmit (h : Whereabouts offered workers submissions journal) {submissions' : List SubmitStage}
    (hoffers : ∀ j : Nat, submissions'[j]? = some .offering ↔ submissions[j]? = some .offering)
    (htaken : ∀ j : Nat, submissions'[j]?.any SubmitStage.isTaken = submissions[j]?.any SubmitStage.isTaken) :
    Whereabouts offered workers submissions' journal := by
  refine ⟨fun j => ?_, fun j => ?_, h.underway, h.starter, h.ender⟩
  · rw [h.offers]
    simp only [hoffers]
  · rw [htaken]
    exact h.kept j

theorem submit (h : Whereabouts offered workers submissions journal) :
    Whereabouts offered workers (submissions ++ [.called]) journal := by
  refine h.resubmit (fun j => ?_) (fun j => ?_) <;> rw [List.getElem?_append] <;> split
  · exact Iff.rfl
  · next hj =>
    rw [List.getElem?_eq_none (Nat.le_of_not_lt hj)]
    refine iff_of_false (fun heq => ?_) (by rintro ⟨⟩)
    cases List.mem_singleton.mp (List.mem_of_getElem? heq)
  · rfl
  · next hj =>
    rw [List.getElem?_eq_none (Nat.le_of_not_lt hj)]
    cases heq : [SubmitStage.called][j - submissions.length]? with
    | none => rfl
    | some s =>
      cases List.mem_singleton.mp (List.mem_of_getElem? heq)
      rfl

/-- A submission moves on whose job is on offer neither before nor after. -/
theorem set (h : Whereabouts offered workers submissions journal) {s s' : SubmitStage}
    (hj : submissions[j]? = some s) (hs : s ≠ .offering) (hs' : s' ≠ .offering)
    (htaken : s'.isTaken = s.isTaken) : Whereabouts offered workers (submissions.set j s') journal := by
  refine h.resubmit (fun i => ?_) (fun i => ?_) <;> rw [getElem?_exchange hj] <;> split
  · next hi =>
    rw [← hi, hj]
    exact iff_of_false (fun heq => hs' (Option.some.inj heq)) (fun heq => hs (Option.some.inj heq))
  · exact Iff.rfl
  · next hi =>
    rw [← hi, hj]
    exact htaken
  · rfl

theorem offer (h : Whereabouts offered workers submissions journal) (hj : submissions[j]? = some .called) :
    Whereabouts (offered ++ [j]) workers (submissions.set j .offering) journal := by
  refine ⟨fun i => ?_, fun i => ?_, h.underway, h.starter, h.ender⟩
  · rw [getElem?_exchange hj, List.count_append, List.count_singleton, h.offers]
    by_cases hi : j = i
    · subst hi
      simp [hj]
    · simp [hi]
  · have hkept := h.kept i
    rw [getElem?_exchange hj]
    split
    · next hi =>
      rw [← hi, hj] at hkept
      exact hi ▸ hkept
    · exact hkept

/-- Only a submission that offers has its job on offer. -/
theorem offering (h : Whereabouts offered workers submissions journal) (hj : j ∈ offered) :
    submissions[j]? = some .offering := by
  have hcount : 0 < offered.count j := List.count_pos_iff.mpr hj
  refine Decidable.byContradiction fun hno => ?_
  rw [h.offers, if_neg hno] at hcount
  cases hcount

/-- A worker moves that neither has nor will have a job to end. -/
theorem move (h : Whereabouts offered workers submissions journal) {s s' : WorkerStage Nat}
    (hw : workers[w]? = some s) (hs : s.job? = none) (hs' : s'.job? = none) :
    Whereabouts offered (workers.set w s') submissions journal := by
  have hother : ∀ {stage : WorkerStage Nat} (j : Nat), stage.job? = none →
      stage ≠ .received j ∧ stage ≠ .running j := by
    rintro stage j hnone
    constructor <;> rintro rfl <;> cases hnone
  refine ⟨h.offers, fun j => ?_, fun j => ?_, fun w' j hw' => ?_, h.ender⟩
  · rw [count_set_of_ne hw (hother j hs).1 (hother j hs').1]
    exact h.kept j
  · rw [count_set_of_ne hw (hother j hs).2 (hother j hs').2]
    exact h.underway j
  · rw [getElem?_exchange hw] at hw'
    split at hw'
    · exact absurd (Option.some.inj hw') (hother j hs').2
    · exact h.starter w' j hw'

theorem receive (h : Whereabouts offered workers submissions journal) {k : Nat} (hw : workers[w]? = some .free)
    (hk : offered[k]? = some j) :
    Whereabouts (offered.eraseIdx k) (workers.set w (.received j)) (submissions.set j .handed) journal := by
  have hj := h.offering (List.mem_of_getElem? hk)
  obtain ⟨hlt, hkj⟩ := List.getElem?_eq_some_iff.mp hk
  refine ⟨fun i => ?_, fun i => ?_, fun i => ?_, fun w' i hw' => ?_, h.ender⟩
  · have hoffers := h.offers i
    have hcount := (List.getElem_cons_eraseIdx_perm hlt).count_eq i
    rw [hkj, List.count_cons] at hcount
    rw [getElem?_exchange hj]
    by_cases hi : j = i
    · subst hi
      rw [if_pos hj] at hoffers
      rw [if_pos (beq_self_eq_true j)] at hcount
      rw [if_pos rfl, if_neg (by rintro ⟨⟩)]
      omega
    · rw [if_neg (by simpa using hi)] at hcount
      rw [if_neg hi]
      omega
  · have hkept := h.kept i
    have hcount := count_exchange hw (.received j) (.received i)
    simp only [WorkerStage.received.injEq, reduceCtorEq, if_false] at hcount
    rw [getElem?_exchange hj]
    by_cases hi : j = i
    · subst hi
      rw [hj, if_neg (by decide)] at hkept
      rw [if_pos rfl] at hcount
      rw [if_pos rfl, if_pos (by rfl)]
      omega
    · rw [if_neg hi] at hcount ⊢
      omega
  · rw [count_set_of_ne hw (by rintro ⟨⟩) (by rintro ⟨⟩)]
    exact h.underway i
  · rw [getElem?_exchange hw] at hw'
    split at hw'
    · cases hw'
    · exact h.starter w' i hw'

theorem begin (h : Whereabouts offered workers submissions journal) (hw : workers[w]? = some (.received j)) :
    Whereabouts offered (workers.set w (.running j)) submissions (journal ++ [.started w j]) := by
  refine ⟨h.offers, fun i => ?_, fun i => ?_, fun w' i hw' => ?_, fun w' i hw' => ?_⟩
  · have hkept := h.kept i
    have hcount := count_exchange hw (.running j) (.received i)
    simp only [WorkerStage.received.injEq, reduceCtorEq, if_false] at hcount
    rw [JobNote.length_starters_started]
    omega
  · have hunderway := h.underway i
    have hcount := count_exchange hw (.running j) (.running i)
    simp only [WorkerStage.running.injEq, reduceCtorEq, if_false] at hcount
    rw [JobNote.length_starters_started, JobNote.enders_started]
    omega
  · rw [JobNote.starters_started, List.mem_append]
    rw [getElem?_exchange hw] at hw'
    split at hw'
    · next hself =>
      cases hw'
      rw [if_pos rfl, hself]
      exact Or.inr List.mem_cons_self
    · exact Or.inl (h.starter w' i hw')
  · rw [JobNote.enders_started] at hw'
    rw [JobNote.starters_started]
    exact List.mem_append_left _ (h.ender w' i hw')

theorem finish (h : Whereabouts offered workers submissions journal) (ending : JobEnding)
    (hw : workers[w]? = some (.running j)) :
    Whereabouts offered (workers.set w (.finished j)) submissions (journal ++ [.ended w j ending]) := by
  refine ⟨h.offers, fun i => ?_, fun i => ?_, fun w' i hw' => ?_, fun w' i hw' => ?_⟩
  · rw [count_set_of_ne hw (by rintro ⟨⟩) (by rintro ⟨⟩), JobNote.starters_ended]
    exact h.kept i
  · have hunderway := h.underway i
    have hcount := count_exchange hw (.finished j) (.running i)
    simp only [WorkerStage.running.injEq, reduceCtorEq, if_false] at hcount
    rw [JobNote.starters_ended, JobNote.length_enders_ended]
    omega
  · rw [getElem?_exchange hw] at hw'
    rw [JobNote.starters_ended]
    split at hw'
    · cases hw'
    · exact h.starter w' i hw'
  · rw [JobNote.enders_ended, List.mem_append] at hw'
    rw [JobNote.starters_ended]
    rcases hw' with hw' | hw'
    · exact h.ender w' i hw'
    · split at hw'
      · next hi =>
        cases List.mem_singleton.mp hw'
        exact hi ▸ h.starter w j hw
      · cases hw'

end Whereabouts

/-! ## What every step keeps -/

namespace Traffic

variable {t t' : Traffic} {n w j : Nat}

structure Sound (n : Nat) (t : Traffic) : Prop where
  manned : t.pool.Manned (max n 1)
  whereabouts : Whereabouts t.pool.offered t.pool.workers t.submissions t.journal
  apart : ∀ s ∈ t.pool.workers, s.isOff = true → t.pool.accepting = false ∧ t.NobodySends
  closed : ∀ c ∈ t.shutdowns, c.stage ≠ .called → t.pool.accepting = false
  answered : ∀ c ∈ t.shutdowns, ∀ left, c.stage = .returned left → t.pool.alive ≤ left

theorem nobodySends_set (h : t.NobodySends) {s : SubmitStage} (hs : s.sends = false) :
    ∀ s' ∈ t.submissions.set j s, s'.sends = false := by
  intro s' hs'
  rcases List.mem_or_eq_of_mem_set hs' with hs' | rfl
  · exact h s' hs'
  · exact hs

namespace Sound

theorem create (n : Nat) : (create n).Sound n where
  manned := .create n
  whereabouts := .create (max n 1)
  apart s hs hoff := by
    rw [List.eq_of_mem_replicate hs] at hoff
    cases hoff
  closed := by rintro c ⟨⟩
  answered := by rintro c ⟨⟩

/-- While somebody sends, every worker is there. -/
theorem not_off (h : t.Sound n) {s : SubmitStage} (hj : t.submissions[j]? = some s) (hs : s.sends = true)
    {stage : WorkerStage Nat} (hw : stage ∈ t.pool.workers) : stage.isOff = false := by
  refine Bool.eq_false_iff.mpr fun hoff => ?_
  rw [(h.apart stage hw hoff).2 s (List.mem_of_getElem? hj)] at hs
  cases hs

/-- So the one error that sending could have does not occur. -/
theorem not_deserted (h : t.Sound n) (hj : t.submissions[j]? = some .offering) :
    ¬∀ s ∈ t.pool.workers, s = .gone := by
  intro hgone
  have hsize : 0 < t.pool.workers.length := by
    rw [h.manned.size]
    exact Nat.lt_of_lt_of_le Nat.zero_lt_one (Nat.le_max_right n 1)
  have hmem := List.getElem_mem hsize
  have hoff := h.not_off hj rfl hmem
  rw [hgone _ hmem] at hoff
  cases hoff

/-- A step that leaves the shutdowns alone. -/
theorem keep (h : t.Sound n) (hmanned : t'.pool.Manned (max n 1))
    (hwhere : Whereabouts t'.pool.offered t'.pool.workers t'.submissions t'.journal)
    (hshutdowns : t'.shutdowns = t.shutdowns) (haccepting : t'.pool.accepting = t.pool.accepting)
    (halive : t'.pool.alive ≤ t.pool.alive)
    (hapart : ∀ s ∈ t'.pool.workers, s.isOff = true → t'.pool.accepting = false ∧ t'.NobodySends) :
    t'.Sound n := by
  refine ⟨hmanned, hwhere, hapart, ?_, ?_⟩ <;> rw [hshutdowns]
  · rw [haccepting]
    exact h.closed
  · exact fun c hc left hleft => Nat.le_trans halive (h.answered c hc left hleft)

/-- A step of a shutdown that does not close the pool. -/
theorem ask (h : t.Sound n) {cs : List ShutdownCall}
    (hcs : ∀ c ∈ cs, c ∈ t.shutdowns ∨
      (c.stage ≠ .called → t.pool.accepting = false) ∧ ∀ left, c.stage = .returned left → t.pool.alive ≤ left) :
    Sound n { t with shutdowns := cs } := by
  refine ⟨h.manned, h.whereabouts, h.apart, fun c hc => ?_, fun c hc => ?_⟩ <;> rcases hcs c hc with hold | hnew
  · exact h.closed c hold
  · exact hnew.1
  · exact h.answered c hold
  · exact hnew.2

/-- A worker that moves does not leave by it. -/
theorem apart_moveTo (h : t.Sound n) {s' : WorkerStage Nat} (hs' : s'.isOff = false) :
    ∀ s ∈ t.pool.workers.set w s', s.isOff = true → t.pool.accepting = false ∧ t.NobodySends := by
  intro s hs hoff
  rcases List.mem_or_eq_of_mem_set hs with hs | rfl
  · exact h.apart s hs hoff
  · rw [hs'] at hoff
    cases hoff

theorem step (h : t.Sound n) (hs : t.Step t') : t'.Sound n := by
  cases hs with
  | submit =>
    refine h.keep h.manned h.whereabouts.submit rfl rfl (Nat.le_refl _) fun s hs hoff => ?_
    obtain ⟨hclosed, hnobody⟩ := h.apart s hs hoff
    exact ⟨hclosed, List.forall_mem_append.mpr ⟨hnobody, List.forall_mem_singleton.mpr rfl⟩⟩
  | @offer j p hj hp =>
    have hmanned := h.manned.step hp
    obtain ⟨haccepting, rfl⟩ := WorkerPool.offer_ok hp
    refine h.keep hmanned (h.whereabouts.offer hj) rfl rfl (Nat.le_refl _) fun s hs hoff => ?_
    rw [(h.apart s hs hoff).1] at haccepting
    cases haccepting
  | @refuse j hj hp =>
    refine h.keep h.manned (h.whereabouts.set hj (by decide) (by decide) rfl) rfl rfl (Nat.le_refl _) ?_
    intro s hs hoff
    obtain ⟨hclosed, hnobody⟩ := h.apart s hs hoff
    exact ⟨hclosed, nobodySends_set hnobody rfl⟩
  | @receive w k j p hk hp =>
    have hmanned := h.manned.step hp
    obtain ⟨j', hw, hk', rfl⟩ := WorkerPool.receive_ok hp
    cases hk.symm.trans hk'
    have hj := h.whereabouts.offering (List.mem_of_getElem? hk)
    refine h.keep hmanned (h.whereabouts.receive hw hk) rfl rfl (Nat.le_refl _) fun s hs hoff => ?_
    rcases List.mem_or_eq_of_mem_set hs with hs | rfl
    · rw [h.not_off hj rfl hs] at hoff
      cases hoff
    · cases hoff
  | @accept j hj =>
    refine h.keep h.manned (h.whereabouts.set hj (by decide) (by decide) rfl) rfl rfl (Nat.le_refl _) ?_
    intro s hs hoff
    rw [h.not_off hj rfl hs] at hoff
    cases hoff
  | disconnect hj hw => exact absurd hw (h.not_deserted hj)
  | @begin w j p hw hp =>
    have hmanned := h.manned.step hp
    obtain ⟨j', hw', rfl⟩ := WorkerPool.begin_ok hp
    cases hw.symm.trans hw'
    exact h.keep hmanned (h.whereabouts.begin hw) rfl rfl (Nat.le_refl _) (h.apart_moveTo rfl)
  | @finish w j p ending hw hp =>
    have hmanned := h.manned.step hp
    obtain ⟨j', hw', rfl⟩ := WorkerPool.finish_ok hp
    cases hw.symm.trans hw'
    exact h.keep hmanned (h.whereabouts.finish ending hw) rfl rfl (Nat.le_refl _) (h.apart_moveTo rfl)
  | release hp =>
    have hmanned := h.manned.step hp
    obtain ⟨j, hw, rfl⟩ := WorkerPool.release_ok hp
    exact h.keep hmanned (h.whereabouts.move hw rfl rfl) rfl rfl (Nat.le_refl _) (h.apart_moveTo rfl)
  | @leave w p hn hp =>
    have hmanned := h.manned.step hp
    obtain ⟨hw, hclosed, rfl⟩ := WorkerPool.leave_ok hp
    exact h.keep hmanned (h.whereabouts.move hw rfl rfl) rfl rfl (Nat.le_refl _) fun _ _ _ => ⟨hclosed, hn⟩
  | @exit w p hp =>
    have hmanned := h.manned.step hp
    obtain ⟨hw, rfl⟩ := WorkerPool.exit_ok hp
    exact h.keep hmanned (h.whereabouts.move hw rfl rfl) rfl rfl (Nat.sub_le _ _)
      fun _ _ _ => h.apart _ (List.mem_of_getElem? hw) rfl
  | shutdown inside bounded =>
    refine h.ask fun c hc => ?_
    rcases List.mem_append.mp hc with hc | hc
    · exact Or.inl hc
    · cases List.mem_singleton.mp hc
      exact Or.inr ⟨fun hne => absurd rfl hne, by rintro left ⟨⟩⟩
  | @close i c p hi hc hp =>
    have hmanned := h.manned.step hp
    cases WorkerPool.close_ok hp
    refine ⟨hmanned, h.whereabouts, fun s hs hoff => ⟨rfl, (h.apart s hs hoff).2⟩, fun _ _ _ => rfl, ?_⟩
    intro c' hc' left hleft
    rcases List.mem_or_eq_of_mem_set hc' with hc' | rfl
    · exact h.answered c' hc' left hleft
    · cases hleft
  | @expire i c hi hc hb =>
    refine h.ask fun c' hc' => (List.mem_or_eq_of_mem_set hc').imp_right fun heq => ?_
    subst heq
    refine ⟨fun _ => h.closed c (List.mem_of_getElem? hi) ?_, by rintro left ⟨⟩⟩
    rw [hc]
    decide
  | @answer i c hi hc =>
    refine h.ask fun c' hc' => (List.mem_or_eq_of_mem_set hc').imp_right fun heq => ?_
    subst heq
    refine ⟨fun _ => h.closed c (List.mem_of_getElem? hi) ?_, fun left hleft => ?_⟩
    · rcases hc with hc | ⟨hc, -⟩ <;> rw [hc] <;> decide
    · cases hleft
      exact Nat.le_refl _

theorem reaches (h : t.Sound n) (hr : t.Reaches t') : t'.Sound n := by
  induction hr with
  | refl => exact h
  | tail _ hs ih => exact ih.step hs

end Sound

theorem Reachable.sound (h : t.Reachable n) : t.Sound n := (Sound.create n).reaches h

end Traffic

end Vivarium
