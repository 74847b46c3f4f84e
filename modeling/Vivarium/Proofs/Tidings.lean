import Vivarium.Proofs.Notes
import Vivarium.Proofs.Perishing

/-! # What is told of the dead

Where listeners only look and take notes, a killing comes to its end, and every death is told once to
each listener of the container that the dead one was in.
-/

namespace Vivarium

namespace Forest

variable {β : Type} {f : Forest β} {p x : EntityRef}

/-- What these listeners note when they are told that an entity was killed. -/
def obituary (x : EntityRef) (ls : List (Listener β)) : List Report :=
  ls.map fun l => ⟨.told, l.id, .killed x, false, []⟩

def tidings (f : Forest β) (x : EntityRef) : List Report :=
  match f.parent? x with
  | none => []
  | some p => obituary x (f.entity p).listeners

theorem tidings_of_parent (h : f.parent? x = some p) :
    f.tidings x = obituary x (f.entity p).listeners := by
  rw [tidings, h]

end Forest

namespace Simulation

variable {μ : Type} {nb : Notebook μ Report} {f : Forest (Code μ)} {s s' : Simulation (Code μ) μ}
  {n depth : Nat} {bound : Bool} {e c p container : EntityRef} {event : EntityEvent}

/-- The listeners of containers look and take notes, and do nothing else. -/
def Observed (nb : Notebook μ Report) (s : Simulation (Code μ) μ) : Prop :=
  s.forest.Attended fun l : Listener (Code μ) =>
    ∀ event, l.code (.entityEvent event) = nb.look .told l.id event

theorem hear {l : Listener (Code μ)} (hl : l.code (.entityEvent event) = nb.look .told l.id event)
    (s : Simulation (Code μ) μ) : runCode (n + 1) (.entityEvent event) l.code s =
      .ok ((), s.remember (nb.note (s.report .told l.id event) s.memory)) := by
  change (l.code (.entityEvent event)).exec (runCode n) n s = _
  rw [hl]
  rfl

theorem tell_heard (ls : List (Listener (Code μ)))
    (hls : ∀ l ∈ ls, l.code (.entityEvent event) = nb.look .told l.id event)
    (s : Simulation (Code μ) μ) :
    ∃ m, (ForIn.forIn ls PUnit.unit fun l _ => runCode (n + 1) (.entityEvent event) l.code >>= fun _ =>
        Pure.pure (.yield PUnit.unit)) s = .ok (⟨⟩, s.remember m) ∧
      nb.heard m = nb.heard s.memory ++ ls.map fun l => s.report .told l.id event := by
  induction ls generalizing s with
  | nil => exact ⟨s.memory, rfl, by simp⟩
  | cons l ls ih =>
    obtain ⟨hl, hls⟩ := List.forall_mem_cons.mp hls
    obtain ⟨m, hrest, hheard⟩ := ih hls (s.remember (nb.note (s.report .told l.id event) s.memory))
    refine ⟨m, ?_, ?_⟩
    · rw [List.forIn_cons, bind_assoc]
      exact (bind_of_ok (hear hl s)).trans hrest
    · rw [hheard]
      simp [remember, nb.heard_note, report]

theorem tellEach_heard (ls : List (Listener (Code μ))) (cs : List EntityRef)
    (hls : ∀ l ∈ ls, ∀ event, l.code (.entityEvent event) = nb.look .told l.id event)
    (s : Simulation (Code μ) μ)
    (hdead : ∀ c ∈ cs, s.forest.isAlive c = false ∧ s.forest.children c = []) :
    ∃ m, (ForIn.forIn cs PUnit.unit fun c _ =>
        (ForIn.forIn ls PUnit.unit fun l _ => runCode (n + 1) (.entityEvent (.killed c)) l.code >>=
          fun _ => Pure.pure (.yield PUnit.unit)) >>= fun _ => Pure.pure (.yield PUnit.unit)) s =
        .ok (⟨⟩, s.remember m) ∧
      nb.heard m = nb.heard s.memory ++ cs.flatMap fun c => Forest.obituary c ls := by
  induction cs generalizing s with
  | nil => exact ⟨s.memory, rfl, by simp⟩
  | cons c cs ih =>
    obtain ⟨⟨hc, hbare⟩, hcs⟩ := List.forall_mem_cons.mp hdead
    obtain ⟨m, hfirst, hheard⟩ := tell_heard (n := n) ls (fun l hl => hls l hl (.killed c)) s
    obtain ⟨m', hrest, hheard'⟩ := ih (s.remember m) hcs
    refine ⟨m', ?_, ?_⟩
    · rw [List.forIn_cons, bind_assoc]
      exact (bind_of_ok hfirst).trans hrest
    · rw [hheard']
      simp [remember, hheard, report, EntityEvent.ref, hc, hbare, Forest.obituary]

/-! ## Who dies and what is told -/

/-- From `s` to `s'` everybody within `tops` dies, and what is noted is told of `told`, as it is fit for
the tree `f`. Of the others only `gate` may lose children. -/
structure Razes (nb : Notebook μ Report) (f : Forest (Code μ)) (gate : Option EntityRef)
    (tops told : List EntityRef) (s s' : Simulation (Code μ) μ) : Prop where
  heard : nb.heard s'.memory = nb.heard s.memory ++ told.flatMap f.tidings
  size : s'.forest.size = s.forest.size
  listeners : ∀ x, (s'.forest.entity x).listeners = (s.forest.entity x).listeners
  ids : ∀ x, s'.forest.idOf x = s.forest.idOf x
  inside : ∀ e ∈ tops, ∀ x, f.Within e x → s'.forest.isAlive x = false ∧ s'.forest.children x = []
  outside : ∀ x, (∀ e ∈ tops, ¬f.Within e x) → s'.forest.isAlive x = s.forest.isAlive x ∧
    (gate ≠ some x → s'.forest.entity x = s.forest.entity x)
  aside : ∀ x, gate = some x → ∀ e ∈ tops, ¬f.Within e x

namespace Razes

variable {gate : Option EntityRef} {tops tops' told told' : List EntityRef}
  {s'' : Simulation (Code μ) μ}

theorem nothing (gate : Option EntityRef) (s : Simulation (Code μ) μ) : Razes nb f gate [] [] s s where
  heard := (List.append_nil _).symm
  size := rfl
  listeners _ := rfl
  ids _ := rfl
  inside := by simp
  outside _ _ := ⟨rfl, fun _ => rfl⟩
  aside := by simp

theorem observed (h : Razes nb f gate tops told s s') (hobs : s.Observed nb) : s'.Observed nb :=
  hobs.of_listeners h.listeners

theorem append (h : Razes nb f gate tops told s s') (h' : Razes nb f gate tops' told' s' s'')
    (hapart : ∀ c ∈ tops, ∀ d ∈ tops', ∀ x, f.Within c x → ¬f.Within d x) :
    Razes nb f gate (tops ++ tops') (told ++ told') s s'' := by
  constructor
  · rw [h'.heard, h.heard, List.flatMap_append, List.append_assoc]
  · exact h'.size.trans h.size
  · intro x
    rw [h'.listeners, h.listeners]
  · intro x
    rw [h'.ids, h.ids]
  · intro e he x hx
    rcases List.mem_append.mp he with he | he
    · have hgate : gate ≠ some x := fun heq => h.aside x heq e he hx
      have hkept := (h'.outside x fun d hd => hapart e he d hd x hx).2 hgate
      rw [Forest.isAlive, Forest.children, hkept]
      exact h.inside e he x hx
    · exact h'.inside e he x hx
  · intro x hx
    obtain ⟨halive, hsame⟩ := h.outside x fun e he => hx e (List.mem_append_left _ he)
    obtain ⟨halive', hsame'⟩ := h'.outside x fun e he => hx e (List.mem_append_right _ he)
    exact ⟨halive'.trans halive, fun hgate => (hsame' hgate).trans (hsame hgate)⟩
  · intro x hx e he
    rcases List.mem_append.mp he with he | he
    · exact h.aside x hx e he
    · exact h'.aside x hx e he

end Razes

section

variable (hf : f.Rooted [])

include hf

theorem dies_tell (bound : Bool) (depth : Nat)
    (hdie : ∀ c ∈ f.children e, ∀ s : Simulation (Code μ) μ, s.Observed nb →
      (∀ x, f.Within c x → s.forest.entity x = f.entity x) →
      ∃ s', die (runCode (n + 1)) bound depth c s = .ok ((), s') ∧
        Razes nb f none [c] (f.perished depth c) s s')
    (cs : List EntityRef) (hcs : ∀ c ∈ cs, c ∈ f.children e) (hnodup : cs.Nodup)
    (s : Simulation (Code μ) μ) (hobs : s.Observed nb)
    (hsame : ∀ c ∈ cs, ∀ x, f.Within c x → s.forest.entity x = f.entity x) :
    ∃ s', (ForIn.forIn cs PUnit.unit fun c _ => die (runCode (n + 1)) bound depth c >>= fun _ =>
        Pure.pure (.yield PUnit.unit)) s = .ok (⟨⟩, s') ∧
      Razes nb f none cs (cs.flatMap (f.perished depth)) s s' := by
  induction cs generalizing s with
  | nil => exact ⟨s, rfl, .nothing none s⟩
  | cons c cs ih =>
    obtain ⟨hc, hcs⟩ := List.forall_mem_cons.mp hcs
    obtain ⟨hnot, hnodup⟩ := List.nodup_cons.mp hnodup
    obtain ⟨hfirst, hrest⟩ := List.forall_mem_cons.mp hsame
    have hapart : ∀ d ∈ cs, ∀ x, f.Within c x → ¬f.Within d x := by
      intro d hd x hxc hxd
      obtain rfl := hf.sibling_unique hc (hcs d hd) hxc hxd
      exact hnot hd
    obtain ⟨s₁, hact, hrazes⟩ := hdie c hc s hobs hfirst
    -- The first child takes nothing with it that is within a later one.
    have hsame₁ : ∀ d ∈ cs, ∀ x, f.Within d x → s₁.forest.entity x = f.entity x := by
      intro d hd x hx
      have hout : ∀ e ∈ [c], ¬f.Within e x := by
        simp only [List.mem_singleton, forall_eq]
        exact fun hxc => hapart d hd x hxc hx
      rw [(hrazes.outside x hout).2 (by simp)]
      exact hrest d hd x hx
    obtain ⟨s', hact', hrazes'⟩ := ih hcs hnodup s₁ (hrazes.observed hobs) hsame₁
    refine ⟨s', ?_, ?_⟩
    · rw [List.forIn_cons, bind_assoc]
      exact (bind_of_ok hact).trans hact'
    · apply hrazes.append hrazes'
      simpa using hapart

theorem Razes.bury {s₁ : Simulation (Code μ) μ} {m : μ} (he : e.index < s.forest.size)
    (hsame : ∀ x, f.Within e x → s.forest.entity x = f.entity x)
    (hchildren : Razes nb f none (f.children e) ((f.children e).flatMap (f.perished depth))
      (s.slay e bound) s₁)
    (hm : nb.heard m = nb.heard s₁.memory ++
      (f.children e).flatMap fun c => Forest.obituary c (f.entity e).listeners) :
    Razes nb f none [e] (f.perished (depth + 1) e) s (s₁.remember m) := by
  have htold : (f.children e).flatMap f.tidings =
      (f.children e).flatMap fun c => Forest.obituary c (f.entity e).listeners := by
    apply List.flatMap_congr
    intro c hc
    exact Forest.tidings_of_parent (hf.child e c hc).1
  have hself : (s.slay e bound).forest.isAlive e = false ∧ (s.slay e bound).forest.children e = [] := by
    rw [Forest.isAlive, Forest.children, slay, Forest.fell_self bound he]
    exact ⟨rfl, rfl⟩
  constructor
  · rw [Forest.perished, List.flatMap_append, htold, ← List.append_assoc]
    exact hm.trans (congrArg (· ++ _) hchildren.heard)
  · exact hchildren.size.trans (Forest.size_modify _ _ _)
  · intro x
    exact (hchildren.listeners x).trans (Forest.field_modify (·.listeners) fun _ => rfl)
  · intro x
    exact (hchildren.ids x).trans (Forest.field_modify (·.id) fun _ => rfl)
  · simp only [List.mem_singleton, forall_eq]
    intro x hx
    by_cases hbelow : ∃ c ∈ f.children e, f.Within c x
    · obtain ⟨c, hc, hxc⟩ := hbelow
      exact hchildren.inside c hc x hxc
    · have hkept := (hchildren.outside x fun c hc hxc => hbelow ⟨c, hc, hxc⟩).2 (by simp)
      rw [Forest.isAlive, Forest.children]
      change (s₁.forest.entity x).alive = false ∧ (s₁.forest.entity x).children = []
      rw [hkept]
      by_cases hxe : x = e
      · subst hxe
        exact hself
      · -- Whoever lives is reached through the children, so this one was dead before.
        have hdead : f.isAlive x = false := by
          apply Bool.eq_false_iff.mpr
          intro ha
          exact hbelow (hf.child_toward hx ha hxe)
        rw [slay, Forest.fell_of_ne bound hxe, hsame x hx]
        exact ⟨hdead, hf.childless hdead⟩
  · simp only [List.mem_singleton, forall_eq]
    intro x hx
    have hxe : x ≠ e := fun heq => hx (Or.inl heq)
    have hout : ∀ c ∈ f.children e, ¬f.Within c x :=
      fun c hc hxc => hx (hf.within_trans (hf.within_child hc) hxc)
    have hkept : s₁.forest.entity x = s.forest.entity x := by
      rw [(hchildren.outside x hout).2 (by simp), slay, Forest.fell_of_ne bound hxe]
    exact ⟨congrArg (·.alive) hkept, fun _ => hkept⟩
  · simp

theorem die_tells (bound : Bool) (hdepth : f.size ≤ e.index + depth) (he : f.isAlive e = true)
    (s : Simulation (Code μ) μ) (hobs : s.Observed nb)
    (hsame : ∀ x, f.Within e x → s.forest.entity x = f.entity x) :
    ∃ s', die (runCode (n + 1)) bound depth e s = .ok ((), s') ∧
      Razes nb f none [e] (f.perished depth e) s s' := by
  induction depth generalizing e s with
  | zero =>
    have hlt := Forest.index_lt_of_isAlive he
    omega
  | succ depth ih =>
    have hself := hsame e (Or.inl rfl)
    have hlive : s.forest.isAlive e = true := by rwa [Forest.isAlive, hself]
    have hcs : s.forest.children e = f.children e := congrArg (·.children) hself
    have hobs₀ : (s.slay e bound).Observed nb :=
      hobs.of_listeners fun x => Forest.field_modify (·.listeners) fun _ => rfl
    have hsame₀ : ∀ c ∈ f.children e, ∀ x, f.Within c x →
        (s.slay e bound).forest.entity x = f.entity x := by
      intro c hc x hx
      have hne : x ≠ e := by
        rintro rfl
        exact hf.not_within_child hc hx
      rw [slay, Forest.fell_of_ne bound hne]
      exact hsame x (hf.within_trans (hf.within_child hc) hx)
    -- Children are younger than their parent, so the depth that is left is enough for them.
    obtain ⟨s₁, hdies, hchildren⟩ := dies_tell hf (e := e) (n := n) bound depth
      (fun c hc s hobs hsame => ih (by have hlt := hf.index_lt_of_child hc; omega)
        (hf.child e c hc).2.1 s hobs hsame) (f.children e) (fun _ hc => hc) (hf.children_nodup e) _
      hobs₀ hsame₀
    have hls : (s₁.forest.entity e).listeners = (f.entity e).listeners := by
      rw [hchildren.listeners, ← hself]
      exact Forest.field_modify (·.listeners) fun _ => rfl
    obtain ⟨m, htells, hm⟩ := tellEach_heard (n := n) (s₁.forest.entity e).listeners (f.children e)
      ((hchildren.observed hobs₀) e) s₁ fun c hc => hchildren.inside c hc c (Or.inl rfl)
    refine ⟨s₁.remember m, ?_, .bury hf (Forest.index_lt_of_isAlive hlive) hsame hchildren (hls ▸ hm)⟩
    rw [die_of_alive hlive, hcs]
    exact (bind_of_ok hdies).trans ((bind_of_ok rfl).trans (bind_of_ok htells))

/-- A child dies with everybody below it, and its container is told last. -/
theorem killEntity_tells {id : EntityId} (hdepth : f.size ≤ depth) (hc : c ∈ f.children container)
    (s : Simulation (Code μ) μ) (hobs : s.Observed nb)
    (hchild : s.forest.child? container id = some c)
    (hls : (s.forest.entity container).listeners = (f.entity container).listeners)
    (hsame : ∀ x, f.Within c x → s.forest.entity x = f.entity x) :
    ∃ s', killEntity (runCode (n + 1)) depth container id s = .ok (true, s') ∧
      Razes nb f (some container) [c] (f.perishedWith depth c) s s' ∧
      s'.forest.children container = (s.forest.children container).filter (· ≠ c) := by
  have hout := hf.not_within_child hc
  obtain ⟨s₁, hdie, hrazes⟩ := die_tells hf (n := n) s.forest.bound
    (Nat.le_trans hdepth (Nat.le_add_left _ _)) (hf.child container c hc).2.1
    { s with forest := s.forest.removeChild container c }
    (hobs.of_listeners fun _ => Forest.field_modify (·.listeners) fun _ => rfl) (by
      intro x hx
      have hne : x ≠ container := by
        rintro rfl
        exact hout hx
      change (s.forest.removeChild container c).entity x = f.entity x
      rw [Forest.removeChild, Forest.entity_modify_of_ne _ hne]
      exact hsame x hx)
  have hobs₁ : s₁.Observed nb := hobs.of_listeners fun x =>
    (hrazes.listeners x).trans (Forest.field_modify (·.listeners) fun _ => rfl)
  have hls₁ : (s₁.forest.entity container).listeners = (f.entity container).listeners :=
    ((hrazes.listeners container).trans (Forest.field_modify (·.listeners) fun _ => rfl)).trans hls
  have hkept : ∀ x, ¬f.Within c x → s₁.forest.entity x = (s.forest.removeChild container c).entity x := by
    intro x hx
    exact (hrazes.outside x (by simpa using hx)).2 (by simp)
  obtain ⟨hdead, hbare⟩ := hrazes.inside c (by simp) c (Or.inl rfl)
  obtain ⟨m, htell, hm⟩ := tell_heard (n := n) (s₁.forest.entity container).listeners
    (fun l hl => hobs₁ container l hl (.killed c)) s₁
  have hreports : ((s₁.forest.entity container).listeners.map fun l =>
      s₁.report .told l.id (.killed c)) = f.tidings c := by
    rw [Forest.tidings_of_parent (hf.child container c hc).1, hls₁]
    simp [report, EntityEvent.ref, hdead, hbare, Forest.obituary]
  refine ⟨s₁.remember m, ?_, ?_, ?_⟩
  · rw [killEntity_of_some hchild]
    refine (bind_of_ok hdie).trans ?_
    exact bind_of_ok ((bind_of_ok rfl).trans (bind_of_ok htell))
  · constructor
    · change nb.heard m = _
      rw [hm, hreports, hrazes.heard, Forest.perishedWith]
      simp
    · exact hrazes.size.trans (Forest.size_removeChild _ _ _)
    · intro x
      exact (hrazes.listeners x).trans (Forest.field_modify (·.listeners) fun _ => rfl)
    · intro x
      exact (hrazes.ids x).trans (Forest.idOf_removeChild _ _ _ _)
    · exact hrazes.inside
    · simp only [List.mem_singleton, forall_eq]
      intro x hx
      constructor
      · change (s₁.forest.entity x).alive = _
        rw [hkept x hx]
        exact Forest.isAlive_removeChild _ _ _ _
      · intro hgate
        have hne : x ≠ container := fun heq => hgate (congrArg some heq.symm)
        change s₁.forest.entity x = _
        rw [hkept x hx, Forest.removeChild, Forest.entity_modify_of_ne _ hne]
    · simp only [List.mem_singleton, forall_eq, Option.some.injEq]
      rintro x rfl
      exact hout
  · change (s₁.forest.entity container).children = _
    rw [hkept container hout]
    exact (Forest.children_removeChild _ _ _ _).trans (if_pos rfl)

theorem killEach_tells (hdepth : f.size ≤ depth) (cs : List EntityRef)
    (hcs : ∀ c ∈ cs, c ∈ f.children container) (hnodup : cs.Nodup) (s : Simulation (Code μ) μ)
    (hobs : s.Observed nb) (hchildren : s.forest.children container = cs)
    (hids : ∀ x, s.forest.idOf x = f.idOf x)
    (hls : (s.forest.entity container).listeners = (f.entity container).listeners)
    (hsame : ∀ c ∈ cs, ∀ x, f.Within c x → s.forest.entity x = f.entity x) :
    ∃ s', (ForIn.forIn cs PUnit.unit fun c _ =>
        killEntity (runCode (n + 1)) depth container (f.idOf c) >>= fun _ =>
          Pure.pure (.yield PUnit.unit)) s = .ok (⟨⟩, s') ∧
      Razes nb f (some container) cs (cs.flatMap (f.perishedWith depth)) s s' := by
  induction cs generalizing s with
  | nil => exact ⟨s, rfl, .nothing _ s⟩
  | cons c cs ih =>
    obtain ⟨hc, hcs⟩ := List.forall_mem_cons.mp hcs
    obtain ⟨hnot, hnodup⟩ := List.nodup_cons.mp hnodup
    obtain ⟨hfirst, hrest⟩ := List.forall_mem_cons.mp hsame
    have hapart : ∀ d ∈ cs, ∀ x, f.Within c x → ¬f.Within d x := by
      intro d hd x hxc hxd
      obtain rfl := hf.sibling_unique hc (hcs d hd) hxc hxd
      exact hnot hd
    have hchild : s.forest.child? container (f.idOf c) = some c := by
      rw [Forest.child?, hchildren, List.find?_cons, hids]
      simp
    obtain ⟨s₁, hact, hrazes, hchildren₁⟩ := killEntity_tells hf (n := n) hdepth hc s hobs hchild hls hfirst
    have hleft : s₁.forest.children container = cs := by
      rw [hchildren₁, hchildren, List.filter_cons]
      simp only [ne_eq, not_true_eq_false, decide_false, Bool.false_eq_true, if_false]
      apply List.filter_eq_self.mpr
      intro d hd
      simp only [decide_not, Bool.not_eq_true', decide_eq_false_iff_not]
      rintro rfl
      exact hnot hd
    have hsame₁ : ∀ d ∈ cs, ∀ x, f.Within d x → s₁.forest.entity x = f.entity x := by
      intro d hd x hx
      have hout : ∀ e ∈ [c], ¬f.Within e x := by
        simp only [List.mem_singleton, forall_eq]
        exact fun hxc => hapart d hd x hxc hx
      have hgate : some container ≠ some x := by
        intro heq
        obtain rfl := Option.some.inj heq
        exact hf.not_within_child (hcs d hd) hx
      rw [(hrazes.outside x hout).2 hgate]
      exact hrest d hd x hx
    obtain ⟨s', hact', hrazes'⟩ := ih hcs hnodup s₁ (hrazes.observed hobs) hleft
      (fun x => (hrazes.ids x).trans (hids x)) ((hrazes.listeners container).trans hls) hsame₁
    refine ⟨s', ?_, ?_⟩
    · rw [List.forIn_cons, bind_assoc]
      exact (bind_of_ok hact).trans hact'
    · apply hrazes.append hrazes'
      simpa using hapart

end

end Simulation

end Vivarium
