import Vivarium.Proofs.Notes

/-! # What is told of those who come

Reports that are made while a tree grows, as listeners begin to deal with an event and as they are done
with it. Whoever is reported dead is never reported alive after that, and the listeners of a container
are told of each of its new entities one after the other.
-/

namespace Vivarium

namespace Report

/-- It is about the creation of the entity. -/
def heralds (x : EntityRef) (r : Report) : Bool := r.event = .created x

theorem heralds_iff {x : EntityRef} {r : Report} : r.heralds x = true ↔ r.event = .created x :=
  decide_eq_true_iff

theorem ref_of_heralds {x : EntityRef} {r : Report} (h : r.heralds x = true) : r.event.ref = x := by
  rw [heralds_iff.mp h]
  rfl

end Report

/-! ## From one listener to the next -/

/-- Listeners are told one after the other that an entity was created. The first finds it alive or
not as it is; each later one as the one before has left it. -/
inductive Relay (x : EntityRef) : Bool → List ListenerId → List Report → Prop
  | nil (b : Bool) : Relay x b [] []
  | cons (b : Bool) {b' : Bool} (id : ListenerId) (children children' : List EntityRef)
    {ids : List ListenerId} {rs : List Report} (h : Relay x b' ids rs) :
    Relay x b (id :: ids) (⟨.told, id, .created x, b, children⟩ ::
      ⟨.done, id, .created x, b', children'⟩ :: rs)

namespace Relay

variable {x : EntityRef} {b : Bool} {ids : List ListenerId} {rs before after : List Report} {r : Report}

theorem told (h : Relay x b ids rs) : (rs.filter (·.stage = .told)).map (·.listener) = ids := by
  induction h with
  | nil => rfl
  | cons b id children children' _ ih => simpa using ih

/-- Whoever is told too late comes after a listener in whose turn the entity died. -/
theorem late (h : Relay x true ids (before ++ r :: after)) (hr : r.stage = .told)
    (hdead : r.alive = false) : ∃ k k', [k, k'].Sublist before ∧ k.stage = .told ∧ k.alive = true ∧
      k'.stage = .done ∧ k'.alive = false ∧ k.listener = k'.listener := by
  generalize hb : true = b at h
  generalize hrs : before ++ r :: after = rs at h
  induction h generalizing before with
  | nil => simp at hrs
  | @cons b b' id children children' ids rs hrest ih =>
    subst hb
    rcases before with _ | ⟨first, _ | ⟨second, before⟩⟩
    · obtain ⟨rfl, -⟩ := List.cons.inj hrs
      cases hdead
    · obtain ⟨-, hrs⟩ := List.cons.inj hrs
      obtain ⟨rfl, -⟩ := List.cons.inj hrs
      cases hr
    · simp only [List.cons_append, List.cons.injEq] at hrs
      obtain ⟨rfl, rfl, hrs⟩ := hrs
      cases b' with
      | false => exact ⟨_, _, .cons_cons _ (.cons_cons _ (List.nil_sublist _)), rfl, rfl, rfl, rfl, rfl⟩
      | true =>
        obtain ⟨k, k', hsub, hfacts⟩ := ih rfl hrs
        exact ⟨k, k', hsub.trans (by simp), hfacts⟩

end Relay

namespace Forest

variable {β : Type} {f f' f'' : Forest β} {rs rs' : List Report} {x e p : EntityRef}

/-! ## True reports -/

/-- The reports are true of the tree on its way from `f` to `f'`; of a killing, only the dead are
told. -/
structure Witnesses (f f' : Forest β) (rs : List Report) : Prop where
  grows : f.Grows f'
  made : ∀ r ∈ rs, r.event.ref.index < f'.size
  alive : ∀ r ∈ rs, r.event.ref.index < f.size → r.alive = true → f.isAlive r.event.ref = true
  dead : ∀ r ∈ rs, r.alive = false → f'.isAlive r.event.ref = false
  fading : rs.Pairwise fun r r' => r.event.ref = r'.event.ref → r'.alive = true → r.alive = true
  killed : ∀ r ∈ rs, ∀ x, r.event = .killed x → r.alive = false

namespace Witnesses

theorem nothing (h : f.Grows f') : f.Witnesses f' [] where
  grows := h
  made := by simp
  alive := by simp
  dead := by simp
  fading := List.Pairwise.nil
  killed := by simp

theorem append (h : f.Witnesses f' rs) (h' : f'.Witnesses f'' rs') : f.Witnesses f'' (rs ++ rs') := by
  constructor
  · exact h.grows.trans h'.grows
  · intro r hr
    rcases List.mem_append.mp hr with hr | hr
    · exact Nat.lt_of_lt_of_le (h.made r hr) h'.grows.size
    · exact h'.made r hr
  · intro r hr hold ha
    rcases List.mem_append.mp hr with hr | hr
    · exact h.alive r hr hold ha
    · exact h.grows.alive _ hold (h'.alive r hr (Nat.lt_of_lt_of_le hold h.grows.size) ha)
  · intro r hr hdead
    rcases List.mem_append.mp hr with hr | hr
    · exact h'.grows.dead (h.made r hr) (h.dead r hr hdead)
    · exact h'.dead r hr hdead
  · rw [List.pairwise_append]
    refine ⟨h.fading, h'.fading, ?_⟩
    intro r hr r' hr' heq ha
    cases hr₀ : r.alive with
    | true => rfl
    | false =>
      have hnow := h.dead r hr hr₀
      have hmade := h.made r hr
      rw [heq] at hnow hmade
      rw [h'.alive r' hr' hmade ha] at hnow
      cases hnow
  · intro r hr
    rcases List.mem_append.mp hr with hr | hr
    · exact h.killed r hr
    · exact h'.killed r hr

theorem sameTree (h : f.Witnesses f' rs) (hs : f'.SameTree f'') : f.Witnesses f'' rs := by
  have happend := h.append (.nothing hs.grows)
  rwa [List.append_nil] at happend

end Witnesses

/-! ## Everybody who comes -/

/-- Creations are told of nobody who was there before, and of everybody who comes, to one listener of
the container after the other. -/
structure Relays (f f' : Forest β) (rs : List Report) : Prop where
  fresh : ∀ r ∈ rs, ∀ x, r.event = .created x → f.size ≤ x.index
  whole : ∀ x, f.size ≤ x.index → x.index < f'.size → ∃ p, f'.parent? x = some p ∧
    Relay x true ((f'.entity p).listeners.map (·.id)) (rs.filter (Report.heralds x))

namespace Relays

theorem nothing (h : f'.size = f.size) : f.Relays f' [] := by
  constructor
  · simp
  · intro x hnew hmade
    omega

theorem filter_eq_nil (h : f.Relays f' rs) (hx : x.index < f.size) :
    rs.filter (Report.heralds x) = [] := by
  apply List.filter_eq_nil_iff.mpr
  intro r hr htold
  have hnew := h.fresh r hr x (Report.heralds_iff.mp htold)
  omega

theorem append (hw : f.Witnesses f' rs) (h : f.Relays f' rs) (hgrows : f'.Grows f'')
    (hsame : ∀ p, (f''.entity p).listeners = (f'.entity p).listeners) (h' : f'.Relays f'' rs') :
    f.Relays f'' (rs ++ rs') := by
  constructor
  · intro r hr x hx
    rcases List.mem_append.mp hr with hr | hr
    · exact h.fresh r hr x hx
    · exact Nat.le_trans hw.grows.size (h'.fresh r hr x hx)
  · intro x hnew hmade
    rw [List.filter_append]
    by_cases hx : x.index < f'.size
    · obtain ⟨p, hp, hrelay⟩ := h.whole x hnew hx
      refine ⟨p, (hgrows.parent x hx).trans hp, ?_⟩
      rw [hsame, h'.filter_eq_nil hx, List.append_nil]
      exact hrelay
    · have hnone : rs.filter (Report.heralds x) = [] := by
        apply List.filter_eq_nil_iff.mpr
        intro r hr htold
        have hlt := hw.made r hr
        rw [Report.ref_of_heralds htold] at hlt
        exact hx hlt
      rw [hnone, List.nil_append]
      exact h'.whole x (Nat.le_of_not_lt hx) hmade

/-- A creation is told in full: what is told of the one who comes, and what is told meanwhile. -/
theorem insert {y : Entity β} (hp : p.index < f.size)
    (hw : (f.insertChild p y).2.Witnesses f' rs)
    (hmeanwhile : (f.insertChild p y).2.Relays f' (rs.filter fun r => !r.heralds ⟨f.size⟩))
    (htold : Relay ⟨f.size⟩ true ((f'.entity p).listeners.map (·.id))
      (rs.filter (Report.heralds ⟨f.size⟩))) : f.Relays f' rs := by
  have hsize : (f.insertChild p y).2.size = f.size + 1 := size_insertChild p y f
  constructor
  · intro r hr x hx
    by_cases heq : x = ⟨f.size⟩
    · subst heq
      exact Nat.le_refl _
    · have hother : r.heralds ⟨f.size⟩ = false := by
        apply Bool.eq_false_iff.mpr
        intro h
        rw [Report.heralds_iff, hx] at h
        exact heq (EntityEvent.created.inj h)
      have hnew := hmeanwhile.fresh r (List.mem_filter.mpr ⟨hr, by rw [hother]; rfl⟩) x hx
      omega
  · intro x hnew hmade
    by_cases heq : x = ⟨f.size⟩
    · subst heq
      refine ⟨p, ?_, htold⟩
      have hlt : (⟨f.size⟩ : EntityRef).index < (f.insertChild p y).2.size := by
        rw [hsize]
        exact Nat.lt_succ_self f.size
      rw [hw.grows.parent _ hlt]
      exact congrArg Entity.parent (entity_insertChild_new hp y)
    · have hlater : (f.insertChild p y).2.size ≤ x.index := by
        have hne : x.index ≠ f.size := fun h => heq (congrArg EntityRef.mk h)
        omega
      obtain ⟨q, hq, hrelay⟩ := hmeanwhile.whole x hlater hmade
      refine ⟨q, hq, ?_⟩
      rw [List.filter_filter] at hrelay
      have hsame : rs.filter (fun r => r.heralds x && !r.heralds ⟨f.size⟩) =
          rs.filter (Report.heralds x) := by
        apply List.filter_congr
        intro r _
        cases hx : r.heralds x with
        | false => rfl
        | true =>
          have hother : r.heralds ⟨f.size⟩ = false := by
            apply Bool.eq_false_iff.mpr
            intro h
            exact heq ((Report.ref_of_heralds hx).symm.trans (Report.ref_of_heralds h))
          rw [hother]
          rfl
      rw [hsame] at hrelay
      exact hrelay

end Relays

end Forest

/-! ## Told in good time -/

/-- What is told of one entity in the course of a run: its creation exactly once to each of the
listeners `ids`, in this order, while it is alive and before any killing of it, unless it died in the
turn of a listener who was told before; its killing only when it is dead. -/
structure Heralded (x : EntityRef) (ids : List ListenerId) (rs : List Report) : Prop where
  once : (rs.filter fun r => r.heralds x && (r.stage = .told : Bool)).map (·.listener) = ids
  in_time : ∀ before r after, rs = before ++ r :: after → r.stage = .told → r.event = .created x →
    (r.alive = true ∧ ∀ k ∈ before, k.event ≠ .killed x) ∨
      r.alive = false ∧ ∃ k k', [k, k'].Sublist before ∧ k.event = .created x ∧ k'.event = .created x ∧
        k.listener = k'.listener ∧ k.stage = .told ∧ k.alive = true ∧ k'.stage = .done ∧ k'.alive = false
  killed : ∀ r ∈ rs, r.event = .killed x → r.alive = false

theorem Forest.Witnesses.heralded {β : Type} {f f' : Forest β} {x : EntityRef} {ids : List ListenerId}
    {rs : List Report} (hw : f.Witnesses f' rs) (h : Relay x true ids (rs.filter (Report.heralds x))) :
    Heralded x ids rs := by
  constructor
  · rw [← h.told, List.filter_filter]
    congr 2
    funext r
    exact Bool.and_comm _ _
  · rintro before r after rfl hr hx
    cases ha : r.alive with
    | true =>
      refine Or.inl ⟨rfl, ?_⟩
      intro k hk hkilled
      have hfading := (List.pairwise_append.mp hw.fading).2.2 k hk r List.mem_cons_self
      have halive := hfading (by rw [hkilled, hx]; rfl) ha
      rw [hw.killed k (List.mem_append_left _ hk) x hkilled] at halive
      cases halive
    | false =>
      rw [List.filter_append, List.filter_cons_of_pos (Report.heralds_iff.mpr hx)] at h
      obtain ⟨k, k', hsub, hk, hka, hk', hka', hsame⟩ := h.late hr ha
      have habout : ∀ r ∈ [k, k'], r.event = .created x := fun r hr =>
        Report.heralds_iff.mp (List.mem_filter.mp (hsub.subset hr)).2
      refine Or.inr ⟨rfl, k, k', hsub.trans List.filter_sublist, ?_, ?_, hsame, hk, hka, hk', hka'⟩
      · exact habout k (by simp)
      · exact habout k' (by simp)
  · exact fun r hr hx => hw.killed r hr x hx

end Vivarium
