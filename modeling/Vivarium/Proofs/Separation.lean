import Vivarium.Proofs.Outstanding

/-! # Ticks apart

Whatever the number of workers and however the threads interleave, no tick begins and no last action
runs before all that was handed out earlier has arrived. Only a stop releases the control thread while
tasks are still running, and then no further tick begins.
-/

namespace Vivarium

namespace Crew

variable {β : Type} {c c' : Crew β}

/-! ## The barrier -/

/-- What a step does to the barrier. -/
theorem Step.barrier (hs : c.Step c') :
    c'.engine.barrier = c.engine.barrier ∨ c'.engine.barrier = c.engine.barrier.register.2 ∨
      c'.engine.barrier = c.engine.barrier.arrive ∨ c'.engine.barrier = c.engine.barrier.terminate ∨
        ∃ passed, c.engine.barrier.await? = some (passed, c'.engine.barrier) := by
  cases hs with
  | call a ha => exact Or.inl (Engine.SameControl.effect ha _).barrier
  | enter hn he =>
    obtain ⟨-, rfl⟩ := Engine.enter_ok he
    exact Or.inl rfl
  | terminate => exact Or.inr (Or.inr (Or.inr (Or.inl rfl)))
  | again hp he =>
    obtain ⟨-, -, rfl⟩ := Engine.continues_true he
    exact Or.inl rfl
  | leave hp he =>
    obtain ⟨-, rfl⟩ := Engine.continues_false he
    exact Or.inl rfl
  | ignore | settle => exact Or.inl (Engine.SameControl.settleBoundary _ _ _).barrier
  | register => exact Or.inr (Or.inl rfl)
  | retire | arrive => exact Or.inr (Or.inr (Or.inl rfl))
  | advance hp hb => exact Or.inr (Or.inr (Or.inr (Or.inr ⟨true, hb⟩)))
  | dismiss hp hb => exact Or.inr (Or.inr (Or.inr (Or.inr ⟨false, hb⟩)))
  | park => exact Or.inl (Engine.control_endTick _ _).1
  | @complete w p =>
    refine Or.inl ?_
    change (c.engine.complete p.task).barrier = _
    rw [Engine.complete_eq]
  | _ => exact Or.inl rfl

theorem Step.terminated (hs : c.Step c') (h : c.engine.barrier.terminated = true) :
    c'.engine.barrier.terminated = true ∧
      c'.engine.barrier.generation = c.engine.barrier.generation := by
  rcases hs.barrier with heq | heq | heq | heq | ⟨passed, hpass⟩
  · rw [heq]
    exact ⟨h, rfl⟩
  · rw [heq]
    exact ⟨h, rfl⟩
  · rw [heq]
    exact ⟨h, rfl⟩
  · rw [heq]
    exact ⟨rfl, rfl⟩
  · cases passed with
    | true => exact absurd (h.symm.trans (TickBarrier.await?_true hpass).1) (by rintro ⟨⟩)
    | false =>
      rw [(TickBarrier.await?_false hpass).2]
      exact ⟨h, rfl⟩

theorem Reaches.terminated (hr : c.Reaches c') (h : c.engine.barrier.terminated = true) :
    c'.engine.barrier.terminated = true ∧
      c'.engine.barrier.generation = c.engine.barrier.generation := by
  induction hr with
  | refl => exact ⟨h, rfl⟩
  | tail _ hs ih =>
    obtain ⟨hterm, hgen⟩ := ih
    exact (hs.terminated hterm).imp_right fun hsame => hsame.trans hgen

/-! ## Ticks apart -/

namespace Orderly

theorem split (h : c.Orderly) : (c.arrivals ++ c.outstanding).Nodup :=
  h.accounted.nodup_iff.mp (List.nodup_append.mp h.distinct).1

theorem awaited (h : c.Orderly) : c.awaited.Perm c.outstanding := by
  have hdisjoint := (List.nodup_append.mp h.split).2.2
  refine (h.accounted.filter _).trans (List.Perm.of_eq ?_)
  rw [List.filter_append, List.filter_eq_nil_iff.mpr, List.filter_eq_self.mpr, List.nil_append]
  · exact fun turn hturn =>
      decide_eq_true ⟨h.current turn hturn, fun harrived => hdisjoint turn harrived turn hturn rfl⟩
  · exact fun turn harrived hturn => (of_decide_eq_true hturn).2 harrived

/-- The tasks whose turns are outstanding are different ones. -/
theorem outstanding_ids (h : c.Orderly) : (c.outstanding.map (·.id)).Nodup := by
  refine (List.nodup_append.mp h.split).2.1.map_on ?_
  rintro ⟨tick, id⟩ hturn ⟨tick', id'⟩ hturn' (rfl : id = id')
  exact congrArg (Turn.mk · id) ((h.current _ hturn).trans (h.current _ hturn').symm)

theorem bodies (h : c.Orderly) : c.bodies.Nodup := by
  have hpool : c.pool.owed.Sublist c.outstanding := List.sublist_append_right _ _
  have hsub : c.pool.bodies.Sublist (c.outstanding.map (·.id)) :=
    c.pool.bodies_sublist.trans (hpool.map _)
  cases hp : c.place with
  | boundary k which t =>
    -- While the control thread runs a boundary action nothing is outstanding.
    have hnil : c.outstanding = [] := by
      refine (h.settled ?_).resolve_right ?_ <;> rw [hp] <;> cases which
      · rintro ⟨⟩
      · rintro ⟨⟩
      · rintro ⟨-, ⟨⟩⟩
      · rintro ⟨-, ⟨⟩⟩
    rw [hnil, List.map_nil, List.sublist_nil] at hsub
    rw [Crew.bodies, hp, hsub]
    exact List.nodup_singleton _
  | _ =>
    rw [Crew.bodies, hp]
    exact h.outstanding_ids.sublist hsub

end Orderly

end Crew

/-- The barrier misses those that were handed out in this tick and have not arrived. A body starts only
when all that was handed out in earlier ticks has arrived, the last action of a tick also after all of
its own tick. No two bodies of one task are in progress together. Once the barrier is terminated nobody
is held up at it, and it stays where it is. Every call may come now and do what it does where nobody else
moves. -/
theorem crew_keeps_ticks_apart {β : Type} {c : Crew β} (h : c.Reachable) :
    (c.engine.barrier.arrived ≤ c.engine.barrier.registered ∧
        c.engine.barrier.registered - c.engine.barrier.arrived = c.awaited.length) ∧
      (∀ before note after, c.journal = before ++ note :: after →
        ∀ turn ∈ c.handed, note.WaitsFor turn → turn ∈ before.filterMap CrewNote.arrived?) ∧
      c.bodies.Nodup ∧
      (∀ c', c.Reaches c' → c.engine.barrier.terminated = true →
        c'.engine.barrier.generation = c.engine.barrier.generation ∧
          c'.engine.barrier.await? = some (false, c'.engine.barrier)) ∧
      (∀ a : EngineCall β, c.Reaches (c.serve (a.effect c.engine))) ∧
      ∀ drives e, c.engine.start = .ok (drives, e) →
        c.Reaches (if drives then c.go e .starting [] else c.serve e) := by
  have hc := h.orderly
  have hregistered := hc.registered
  refine ⟨⟨by omega, ?_⟩, hc.apart, hc.bodies, fun c' hreach hterm => ?_, (Crew.reaches_call · c),
    fun drives e => Crew.reaches_start⟩
  · rw [hc.awaited.length_eq]
    omega
  · obtain ⟨hterm', hgen⟩ := hreach.terminated hterm
    exact ⟨hgen, TickBarrier.await?_of_terminated hterm'⟩

namespace Crew

/-- An engine with two workers and two tasks that are due, the first of them periodic. -/
def pair : Crew Unit :=
  ({ engine := { config := .standard 2, meter := { ticksPerSecond := 30 } }
     pool := WorkerPool.create 2 } : Crew Unit).serve
    (EngineCall.effect (EngineCall.effect { config := .standard 2, meter := { ticksPerSecond := 30 } }
      (.schedule () 0 1)) (.schedule () 0 0))

theorem pair_reachable : pair.Reachable :=
  ⟨.standard 2, _, rfl, .tail (.single (.call (.schedule () 0 1) rfl)) (.call (.schedule () 0 0) rfl)⟩

/-- The task that was handed out last arrives first, and a stop finds the other one still running. -/
theorem overtaking : ∃ c : Crew Unit, c.Reachable ∧ c.engine.barrier.registered = 2 ∧
    c.engine.barrier.arrived = 1 ∧ c.engine.barrier.terminated = true ∧ c.arrivals = [⟨1, ⟨1⟩⟩] ∧
    c.bodies = [⟨0⟩] := by
  have hdue : (pair.engine.launch (pair.engine.frame true).deadline).1 =
      [⟨⟨0⟩, (), 1, 0⟩, ⟨⟨1⟩, (), 0, 0⟩] := Engine.launch_fst pair_reachable.orderly.queue _
  obtain ⟨config, e, he, hw⟩ := pair_reachable
  have hw := hw.tail (.enter (Or.inl rfl) (Engine.enter_ticking (by decide)))
  have hw := hw.tail (.start rfl)
  have hw := hw.tail (.spawn rfl)
  have hw := hw.tail (.again rfl rfl)
  have hw := hw.tail (.absent rfl rfl)
  have hw := hw.tail (.launch rfl)
  have hw := hw.tail (.register (congrArg (Station.handing _) hdue))
  have hw := hw.tail (.offer rfl rfl)
  have hw := hw.tail (.receive (w := 0) rfl rfl)
  have hw := hw.tail (.free (s := .begin 0) rfl rfl)
  have hw := hw.tail (.body (w := 0) rfl rfl (by decide +kernel))
  have hw := hw.tail (.register rfl)
  have hw := hw.tail (.offer rfl rfl)
  have hw := hw.tail (.receive (w := 1) rfl rfl)
  have hw := hw.tail (.free (s := .begin 1) rfl rfl)
  have hw := hw.tail (.body (w := 1) rfl rfl (by decide +kernel))
  have hw := hw.tail (.finish (w := 1) rfl rfl)
  have hw := hw.tail (.complete (w := 1) rfl rfl)
  have hw := hw.tail (.arrive (w := 1) rfl rfl)
  have hw := hw.trans (reaches_call .stop _)
  exact ⟨_, ⟨config, e, he, hw⟩, by decide +kernel, by decide +kernel, by decide +kernel,
    by decide +kernel, by decide +kernel⟩

theorem overtaking_keeps_apart : ∃ c : Crew Unit, c.Reachable ∧ c.arrivals = [⟨1, ⟨1⟩⟩] ∧
    c.bodies = [⟨0⟩] ∧ c.awaited.length = 1 ∧
    c.engine.barrier.await? = some (false, c.engine.barrier) := by
  obtain ⟨c, hreach, hregistered, harrived, hterm, harrivals, hbodies⟩ := overtaking
  obtain ⟨⟨-, hawaited⟩, -, -, hafter, -⟩ := crew_keeps_ticks_apart hreach
  rw [hregistered, harrived] at hawaited
  exact ⟨c, hreach, harrivals, hbodies, hawaited.symm, (hafter c .refl hterm).2⟩

end Crew

end Vivarium
