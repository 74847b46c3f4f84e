import Vivarium.Proofs.Killing

/-! # Who dies

When a killing ends, everybody within the one who was killed is dead. If the listeners kill nobody, so
that whoever was alive before a listener ran is alive after it, nobody else has died.
-/

namespace Vivarium

namespace Forest

variable {β : Type} {f f' f'' : Forest β} {top x : EntityRef}

/-- Whoever is alive stays alive. -/
def Spares (f f' : Forest β) : Prop := ∀ x, f.isAlive x = true → f'.isAlive x = true

theorem Spares.refl (f : Forest β) : Spares f f := fun _ ha => ha

theorem Spares.trans (h : Spares f f') (h' : Spares f' f'') : Spares f f'' := fun x ha => h' x (h x ha)

def spares (f f' : Forest β) : Bool :=
  (List.range f.size).all fun i => !f.isAlive ⟨i⟩ || f'.isAlive ⟨i⟩

theorem spares_iff : f.spares f' = true ↔ f.Spares f' := by
  rw [spares, List.all_eq_true]
  constructor
  · intro h x ha
    have hx := h x.index (List.mem_range.mpr (index_lt_of_isAlive ha))
    rw [Bool.or_eq_true, Bool.not_eq_true'] at hx
    refine hx.resolve_left fun hdead => ?_
    rw [ha] at hdead
    cases hdead
  · intro h i _
    cases ha : f.isAlive ⟨i⟩ with
    | false => rfl
    | true => exact h ⟨i⟩ ha

/-- Everybody within `top` is dead, and nobody else has died. -/
structure Slain (top : EntityRef) (f f' : Forest β) : Prop where
  within : ∀ x, f'.Within top x → f'.isAlive x = false
  others : ∀ x, x.index < f.size → ¬f.Within top x → f'.isAlive x = f.isAlive x

theorem Slain.intro (hg : f.Grows f') (hwithin : ∀ x, f'.Within top x → f'.isAlive x = false)
    (hspares : ∀ x, f.isAlive x = true → ¬f.Within top x → f'.isAlive x = true) : Slain top f f' := by
  refine ⟨hwithin, fun x hx hout => Bool.eq_iff_iff.mpr ⟨hg.alive x hx, fun ha => ?_⟩⟩
  exact hspares x ha hout

namespace Rooted

variable {cut : List EntityRef} {e p c d : EntityRef}

theorem index_le_of_within (h : f.Rooted cut) (hw : f.Within top x) : top.index ≤ x.index := by
  induction hi : x.index using Nat.strongRecOn generalizing x with
  | ind i ih =>
    subst hi
    rcases h.within_iff.mp hw with rfl | ⟨p, -, hlt, hw'⟩
    · exact Nat.le_refl _
    · exact Nat.le_trans (ih p.index hlt hw' rfl) (Nat.le_of_lt hlt)

theorem not_within_sibling (h : f.Rooted cut) (hc : c ∈ f.children p) (hd : d ∈ f.children p)
    (hne : d ≠ c) : ¬f.Within c d := by
  intro hw
  obtain ⟨q, hq, hlt⟩ := h.older c (h.made_of_child hc)
  rcases h.within_iff.mp hw with heq | ⟨r, hr, -, hw'⟩
  · exact hne heq
  · obtain rfl := Option.some.inj (hq.symm.trans (h.child p c hc).1)
    obtain rfl := Option.some.inj (hr.symm.trans (h.child q d hd).1)
    exact Nat.lt_irrefl _ (Nat.lt_of_lt_of_le hlt (h.index_le_of_within hw'))

theorem within_root (h : f.Rooted cut) (hx : x.index < f.size) : f.Within root x := by
  induction hi : x.index using Nat.strongRecOn generalizing x with
  | ind i ih =>
    subst hi
    by_cases hroot : x = root
    · exact Or.inl hroot
    · obtain ⟨p, hp, hlt⟩ := h.older x ⟨hroot, hx⟩
      exact h.within_iff.mpr (Or.inr ⟨p, hp, hlt, ih p.index hlt (Nat.lt_trans hlt hx) rfl⟩)

end Rooted

end Forest

namespace Simulation

variable {β μ α γ ι : Type} {ok : Deed → Prop} {run run' : Run β μ} {s s' : Simulation β μ}
  {bound : Bool} {depth : Nat} {e c container : EntityRef} {id : EntityId}

/-! ## Listeners that kill nobody -/

def Spares (act : Act β μ α) : Prop := ∀ s a s', act s = .ok (a, s') → s.forest.Spares s'.forest

namespace Spares

theorem bind {act : Act β μ α} {next : α → Act β μ γ} (h : Spares act) (hn : ∀ a, Spares (next a)) :
    Spares (act >>= next) := by
  intro s c s'' hact
  obtain ⟨a, s', hact, hnext⟩ := bind_ok hact
  exact (h s a s' hact).trans (hn a s' c s'' hnext)

theorem pure (a : α) : Spares (Pure.pure a : Act β μ α) := by
  intro s _ s' hact
  cases hact
  exact .refl _

theorem ask (f : Simulation β μ → α) : Spares (Simulation.ask f) := by
  intro s _ s' hact
  cases hact
  exact .refl _

theorem forIn {f : ι → PUnit → Act β μ (ForInStep PUnit)} (xs : List ι) (h : ∀ x, Spares (f x ⟨⟩)) :
    Spares (ForIn.forIn xs ⟨⟩ f) := by
  induction xs with
  | nil => exact .pure _
  | cons x xs ih =>
    rw [List.forIn_cons]
    refine .bind (h x) fun step => ?_
    cases step with
    | done => exact .pure _
    | yield => exact ih

end Spares

def ListenersSpare (run : Run β μ) : Prop := ∀ event code, Spares (run (.entityEvent event) code)

theorem Spares.tell (h : ListenersSpare run) (event : EntityEvent) (listeners : List (Listener β)) :
    Spares (ForIn.forIn listeners PUnit.unit fun l _ => run (.entityEvent event) l.code >>= fun _ =>
      Pure.pure (.yield PUnit.unit)) :=
  .forIn _ fun l => .bind (h event l.code) fun _ => .pure _

theorem Spares.announce (h : ListenersSpare run) (container : EntityRef) (event : EntityEvent) :
    Spares (Simulation.announce run container event) :=
  .bind (.ask _) fun listeners => .bind (.tell h event listeners) fun _ => .pure _

/-- Runs code that kills nobody; other code has no end. -/
def sparing (run : Run β μ) : Run β μ := fun o code s =>
  match run o code s with
  | .ok (a, s') => if s.forest.spares s'.forest then .ok (a, s') else .error .exhausted
  | .error why => .error why

theorem sparing_ok {o : Occasion} {code : β} {a : o.role.Answer}
    (h : sparing run o code s = .ok (a, s')) :
    run o code s = .ok (a, s') ∧ s.forest.Spares s'.forest := by
  unfold sparing at h
  split at h
  · next heq =>
    split at h
    · next hspares =>
      cases h
      exact ⟨heq, Forest.spares_iff.mp hspares⟩
    · cases h
  · cases h

theorem ListenersSpare.sparing (run : Run β μ) : ListenersSpare (sparing run) :=
  fun _ _ _ _ _ hact => (sparing_ok hact).2

theorem ListenersFollow.sparing (h : ListenersFollow ok run run') :
    ListenersFollow ok (Simulation.sparing run) run' :=
  fun event code s a s' hact => h event code s a s' (sparing_ok hact).1

/-! ## Who dies with whom -/

theorem FollowsAt.grows {ds : List (EntityRef × Bool)} {act act' : Act β μ α} {a : α}
    (h : FollowsAt ok ds act act' s) (hact : act s = .ok (a, s')) : s.forest.Grows s'.forest := by
  obtain ⟨w', hr, hw', -⟩ := (h a s' hact).2 { engine := s.engine, forest := s.forest, doomed := ds } []
    ⟨rfl, rfl⟩ (List.append_nil _).symm
  rw [hw'.forest]
  exact hr.grows

/-- No operation on entities is in progress. -/
def Quiet (s : Simulation β μ) : Prop := ∃ w : World β, w.Sound ∧ w.Rests s

theorem Quiet.rooted (h : s.Quiet) : s.forest.Rooted [] := by
  obtain ⟨w, hsound, hw⟩ := h
  have hrooted := hsound.rooted
  rw [hw.calm] at hrooted
  rw [hw.forest]
  exact hrooted

theorem Quiet.after {act act' : Act β μ α} {a : α} (h : s.Quiet) (hact : act s = .ok (a, s'))
    (hfollows : Follows ok act act') : s'.Quiet := by
  obtain ⟨w, hsound, hw⟩ := h
  obtain ⟨w', hr, hw'⟩ := hfollows.rests hw hact
  exact ⟨w', hsound.reaches hr, hw'⟩

theorem Quiet.cut (h : s.Quiet) (hc : s.forest.child? container id = some c) :
    ∃ w : World β, w.Sound ∧ w.Shows { s with forest := s.forest.removeChild container c } ∧
      w.doomed = [(c, s.forest.bound)] := by
  obtain ⟨⟨engine, forest, doomed, ahead, bodies, begun, owners, released⟩, hsound, ⟨rfl, rfl⟩, hcalm⟩ := h
  obtain rfl : doomed = [] := hcalm
  exact ⟨_, hsound.step (.cut (Forest.mem_of_child? hc).1), ⟨rfl, rfl⟩, rfl⟩

section

variable (hrun : ListenersFollow ok run run') (hdeath : ok .death)

include hrun hdeath

theorem die_dead (hact : die run bound depth e s = .ok ((), s')) (he : e.index < s.forest.size) :
    s'.forest.isAlive e = false := by
  have hgrows := (FollowsAt.die hrun hdeath bound depth e s).grows hact
  cases depth with
  | zero => cases hact
  | succ depth =>
    cases hlive : s.forest.isAlive e with
    | false =>
      rw [die_of_dead hlive] at hact
      cases hact
      exact hlive
    | true =>
      rw [die_of_alive hlive] at hact
      have hbury := (FollowsAt.bury hrun (fun c s => FollowsAt.die hrun hdeath bound depth c s) _ _).grows
        hact
      refine hbury.dead (by rwa [slay, Forest.fell, Forest.size_modify]) (Bool.eq_false_iff.mpr fun ha => ?_)
      exact ((Forest.isAlive_fell e bound e s.forest).mp ha).1 rfl

theorem dies_spare (hdie : ∀ c (w : World β) (rest : List (EntityRef × Bool)) s s',
      w.Sound → w.Shows s → w.doomed = (c, bound) :: rest →
      die run bound depth c s = .ok ((), s') →
      ∀ x, s.forest.isAlive x = true → ¬s.forest.Within c x → s'.forest.isAlive x = true)
    (cs : List EntityRef) (w : World β) (rest : List (EntityRef × Bool)) (hsound : w.Sound)
    (hw : w.Shows s) (hd : w.doomed = cs.map (·, bound) ++ rest) {u : PUnit}
    (hact : (ForIn.forIn cs PUnit.unit fun c _ => die run bound depth c >>= fun _ =>
      Pure.pure (.yield PUnit.unit)) s = .ok (u, s'))
    {x : EntityRef} (ha : s.forest.isAlive x = true) (hout : ∀ c ∈ cs, ¬s.forest.Within c x) :
    s'.forest.isAlive x = true := by
  induction cs generalizing s w with
  | nil =>
    cases hact
    exact ha
  | cons c cs ih =>
    simp only [List.forIn_cons, bind_assoc, pure_bind] at hact
    obtain ⟨_, s₁, hfirst, hlater⟩ := bind_ok hact
    obtain ⟨hc, hcs⟩ := List.forall_mem_cons.mp hout
    obtain ⟨-, hgoes⟩ := FollowsAt.die hrun hdeath bound depth c s _ s₁ hfirst
    obtain ⟨w₁, hr, hw₁, hd₁, -⟩ := hgoes w _ hw hd
    have hgrows : s.forest.Grows s₁.forest := by
      rw [hw.forest, hw₁.forest]
      exact hr.grows
    -- A listener may have made entities by now, but who is within whom is as it was for the older ones.
    refine ih w₁ (hsound.reaches hr) hw₁ hd₁ hlater (hdie c w _ s s₁ hsound hw hd hfirst x ha hc) ?_
    intro d hd hin
    exact hcs d hd ((hgrows.within (Forest.index_lt_of_isAlive ha)).mp hin)

theorem die_spares (hspare : ListenersSpare run) (e : EntityRef) (w : World β)
    (rest : List (EntityRef × Bool)) (s s' : Simulation β μ) (hsound : w.Sound) (hw : w.Shows s)
    (hd : w.doomed = (e, bound) :: rest) (hact : die run bound depth e s = .ok ((), s')) (x : EntityRef)
    (ha : s.forest.isAlive x = true) (hout : ¬s.forest.Within e x) : s'.forest.isAlive x = true := by
  induction depth generalizing e w rest s s' x with
  | zero => cases hact
  | succ depth ih =>
    cases hlive : s.forest.isAlive e with
    | false =>
      rw [die_of_dead hlive] at hact
      cases hact
      exact ha
    | true =>
      rw [die_of_alive hlive] at hact
      obtain ⟨_, s₁, hdies, htold⟩ := bind_ok hact
      obtain ⟨engine, forest, doomed, ahead, bodies, begun, owners, released⟩ := w
      obtain ⟨rfl, rfl⟩ := hw
      have hrooted := hsound.rooted
      have hslain : (s.slay e bound).forest.isAlive x = true :=
        (Forest.isAlive_fell e bound x s.forest).mpr ⟨fun heq => hout (Or.inl heq), ha⟩
      have hx := Forest.index_lt_of_isAlive ha
      -- The world after the fall owes the death of the children, which is what the loop asks for.
      have hkept : s₁.forest.isAlive x = true := by
        refine dies_spare hrun hdeath (fun c w rest s s' => ih c w rest s s') _ _ rest
          (hsound.step (.fall hd hlive)) ⟨rfl, rfl⟩ rfl hdies hslain fun c hc hin => hout ?_
        exact hrooted.within_trans (hrooted.within_child hc)
          (((Forest.grows_fell e bound s.forest).within hx).mp hin)
      have htell : Spares (do
          let listeners ← ask fun s => (s.forest.entity e).listeners
          for c in s.forest.children e do
            for l in listeners do
              run (.entityEvent (.killed c)) l.code) :=
        .bind (.ask _) fun listeners => .bind
          (.forIn _ fun c => .bind (.tell hspare (.killed c) listeners) fun _ => .pure _) fun _ => .pure _
      exact htell s₁ _ s' htold x hkept

/-! ## Killings -/

omit hrun hdeath in
theorem killEntity_ok {b : Bool} (hc : s.forest.child? container id = some c)
    (hact : killEntity run depth container id s = .ok (b, s')) : b = true ∧ ∃ s₁,
      die run s.forest.bound depth c { s with forest := s.forest.removeChild container c } =
        .ok ((), s₁) ∧ announce run container (.killed c) s₁ = .ok ((), s') := by
  rw [killEntity_of_some hc] at hact
  obtain ⟨_, s₁, hdie, hact⟩ := bind_ok hact
  obtain ⟨_, s₂, htold, hact⟩ := bind_ok hact
  cases hact
  exact ⟨rfl, s₁, hdie, htold⟩

/-- Whatever the listeners do, everybody within the one who was killed is dead. -/
theorem killEntity_within (hquiet : s.Quiet) {b : Bool} (hc : s.forest.child? container id = some c)
    (hact : killEntity run depth container id s = .ok (b, s')) {x : EntityRef}
    (hin : s'.forest.Within c x) : s'.forest.isAlive x = false := by
  have hlt := (hquiet.rooted.made_of_child (Forest.mem_of_child? hc).1).2
  have hrooted := (hquiet.after hact (Follows.killEntity hrun hdeath depth container id)).rooted
  obtain ⟨-, s₁, hdie, htold⟩ := killEntity_ok hc hact
  have hlt' : c.index < (s.forest.removeChild container c).size := by
    rwa [Forest.size_removeChild]
  have hdead := die_dead hrun hdeath hdie hlt'
  have hgrows := (FollowsAt.die hrun hdeath s.forest.bound depth c _).grows hdie
  have hgrows' := (Follows.announce hrun container (.killed c) s₁).grows htold
  exact hrooted.dead_of_within hin (hgrows'.dead (Nat.lt_of_lt_of_le hlt' hgrows.size) hdead)

theorem killEntity_slays (hspare : ListenersSpare run) (hquiet : s.Quiet) {b : Bool}
    (hc : s.forest.child? container id = some c)
    (hact : killEntity run depth container id s = .ok (b, s')) : s.forest.Slain c s'.forest := by
  have hgrows := (Follows.killEntity hrun hdeath depth container id s).grows hact
  refine .intro hgrows (fun x hin => killEntity_within hrun hdeath hquiet hc hact hin) fun x ha hout => ?_
  obtain ⟨-, s₁, hdie, htold⟩ := killEntity_ok hc hact
  obtain ⟨w, hsound, hw, hd⟩ := hquiet.cut hc
  have hkept := die_spares hrun hdeath hspare c w [] _ s₁ hsound hw hd hdie x
    ((Forest.isAlive_removeChild container c x s.forest).trans ha) fun hin => hout ?_
  · exact Spares.announce hspare container (.killed c) s₁ _ s' htold x hkept
  · exact ((Forest.grows_removeChild container c s.forest).within (Forest.index_lt_of_isAlive ha)).mp hin

/-- Whatever the listeners do, nobody is alive after a shutdown. -/
theorem shutdown_dead (hquiet : s.Quiet) (hact : shutdown run depth s = .ok ((), s')) (x : EntityRef) :
    s'.forest.isAlive x = false := by
  have hrooted := (hquiet.after hact (Follows.shutdown hrun hdeath depth)).rooted
  have hdead := die_dead hrun hdeath hact hquiet.rooted.nonempty
  by_cases hx : x.index < s'.forest.size
  · exact hrooted.dead_of_within (hrooted.within_root hx) hdead
  · exact Bool.eq_false_iff.mpr fun ha => hx (Forest.index_lt_of_isAlive ha)

/-! ## Killing all children -/

omit hrun hdeath in
theorem killEntities_eq (s : Simulation β μ) :
    killEntities run depth container s = (do
      for c in s.forest.children container do
        let _ ← killEntity run depth container (s.forest.idOf c)) s := by
  unfold killEntities
  refine (bind_of_ok rfl).trans ?_
  simp only [Forest.childIds]
  rw [List.forIn_map]

/-- A child of the container is dead after its turn, also if it has died before. -/
theorem killEntity_turn (hquiet : s.Quiet) {b : Bool} (hparent : s.forest.parent? c = some container)
    (hc : c.index < s.forest.size)
    (hact : killEntity run depth container (s.forest.idOf c) s = .ok (b, s')) :
    s'.forest.isAlive c = false := by
  cases hlive : s.forest.isAlive c with
  | true =>
    have hchild := (hquiet.rooted.child?_of_alive hlive hparent).1
    exact killEntity_within hrun hdeath hquiet hchild hact (Or.inl rfl)
  | false => exact ((Follows.killEntity hrun hdeath depth container _ s).grows hact).dead hc hlive

theorem Follows.killEach (ids : EntityRef → EntityId) (cs : List EntityRef) :
    Follows ok (do for c in cs do let _ ← Simulation.killEntity run depth container (ids c))
      (do for c in cs do let _ ← Simulation.killEntity run' depth container (ids c)) :=
  .bind (.forIn _ fun c _ => .bind (.killEntity hrun hdeath depth container (ids c)) fun _ => .pure _)
    fun _ => .pure _

theorem killEach_dead (ids : EntityRef → EntityId) (cs : List EntityRef) (hquiet : s.Quiet)
    (hcs : ∀ c ∈ cs, s.forest.parent? c = some container ∧ c.index < s.forest.size ∧
      s.forest.idOf c = ids c) {u : PUnit}
    (hact : (do for c in cs do let _ ← killEntity run depth container (ids c)) s = .ok (u, s')) :
    ∀ c ∈ cs, s'.forest.isAlive c = false := by
  induction cs generalizing s with
  | nil => rintro _ ⟨⟩
  | cons c cs ih =>
    simp only [List.forIn_cons, bind_assoc, pure_bind] at hact
    obtain ⟨b, s₁, hturn, hlater⟩ := bind_ok hact
    obtain ⟨⟨hparent, hlt, hid⟩, hcs⟩ := List.forall_mem_cons.mp hcs
    have hgrows := (Follows.killEntity hrun hdeath depth container (ids c) s).grows hturn
    have hquiet₁ := hquiet.after hturn (Follows.killEntity hrun hdeath depth container (ids c))
    have hdead := killEntity_turn hrun hdeath hquiet hparent hlt (hid.symm ▸ hturn)
    refine List.forall_mem_cons.mpr ⟨?_, ih hquiet₁ (fun d hd => ?_) hlater⟩
    · exact (Follows.killEach hrun hdeath ids cs s₁ |>.grows hlater).dead
        (Nat.lt_of_lt_of_le hlt hgrows.size) hdead
    · obtain ⟨hparent, hlt, hid⟩ := hcs d hd
      exact ⟨(hgrows.parent d hlt).trans hparent, Nat.lt_of_lt_of_le hlt hgrows.size,
        (hgrows.id d hlt).trans hid⟩

theorem killEach_spares (hspare : ListenersSpare run) (ids : EntityRef → EntityId) (cs : List EntityRef)
    (hquiet : s.Quiet) (hnodup : cs.Nodup)
    (hcs : ∀ c ∈ cs, c ∈ s.forest.children container ∧ s.forest.idOf c = ids c) {u : PUnit}
    (hact : (do for c in cs do let _ ← killEntity run depth container (ids c)) s = .ok (u, s'))
    {x : EntityRef} (ha : s.forest.isAlive x = true) (hout : ∀ c ∈ cs, ¬s.forest.Within c x) :
    s'.forest.isAlive x = true := by
  induction cs generalizing s with
  | nil =>
    cases hact
    exact ha
  | cons c cs ih =>
    simp only [List.forIn_cons, bind_assoc, pure_bind] at hact
    obtain ⟨b, s₁, hturn, hlater⟩ := bind_ok hact
    obtain ⟨⟨hc, hid⟩, hcs⟩ := List.forall_mem_cons.mp hcs
    obtain ⟨hnot, hnodup⟩ := List.nodup_cons.mp hnodup
    obtain ⟨hout, houts⟩ := List.forall_mem_cons.mp hout
    have hrooted := hquiet.rooted
    have hgrows := (Follows.killEntity hrun hdeath depth container (ids c) s).grows hturn
    have hquiet₁ := hquiet.after hturn (Follows.killEntity hrun hdeath depth container (ids c))
    have hchild := Forest.child?_of_mem (hrooted.distinct container) hc
    rw [hid] at hchild
    have hslain := killEntity_slays hrun hdeath hspare hquiet hchild hturn
    have hkept : ∀ y, s.forest.isAlive y = true → ¬s.forest.Within c y → s₁.forest.isAlive y = true :=
      fun y hy hy' => (hslain.others y (Forest.index_lt_of_isAlive hy) hy').trans hy
    -- The children whose turn comes later are not within this one, so they are children still.
    refine ih hquiet₁ hnodup (fun d hd => ?_) hlater (hkept x ha hout) fun d hd hin => ?_
    · obtain ⟨hmem, hid'⟩ := hcs d hd
      obtain ⟨hparent, hlive, -⟩ := hrooted.child container d hmem
      have hlt := Forest.index_lt_of_isAlive hlive
      have hsibling := hrooted.not_within_sibling hc hmem fun heq => hnot (heq ▸ hd)
      have hstays := hquiet₁.rooted.child?_of_alive (hkept d hlive hsibling)
        ((hgrows.parent d hlt).trans hparent)
      exact ⟨(Forest.mem_of_child? hstays.1).1, (hgrows.id d hlt).trans hid'⟩
    · exact houts d hd ((hgrows.within (Forest.index_lt_of_isAlive ha)).mp hin)

/-- Everybody within a child is dead; if the listeners kill nobody, nobody else has died. -/
theorem killEntities_slays (hquiet : s.Quiet) (hact : killEntities run depth container s = .ok ((), s')) :
    (∀ c ∈ s.forest.children container, ∀ x, s'.forest.Within c x → s'.forest.isAlive x = false) ∧
      (ListenersSpare run → ∀ x, s.forest.isAlive x = true →
        (∀ c ∈ s.forest.children container, ¬s.forest.Within c x) → s'.forest.isAlive x = true) := by
  have hrooted := hquiet.rooted
  have hrooted' := (hquiet.after hact (Follows.killEntities hrun hdeath depth container)).rooted
  rw [killEntities_eq] at hact
  refine ⟨fun c hc x hin => ?_, fun hspare x ha hout => ?_⟩
  · have hdead := killEach_dead hrun hdeath s.forest.idOf (s.forest.children container) hquiet
      (fun c hc => ⟨(hrooted.child container c hc).1, (hrooted.made_of_child hc).2, rfl⟩) hact c hc
    exact hrooted'.dead_of_within hin hdead
  · have hnodup : (s.forest.children container).Nodup :=
      List.Pairwise.of_map _ (fun _ _ hne heq => hne (congrArg s.forest.idOf heq)) (hrooted.distinct container)
    exact killEach_spares hrun hdeath hspare s.forest.idOf (s.forest.children container) hquiet hnodup
      (fun c hc => ⟨hc, rfl⟩) hact ha hout

end

end Simulation

end Vivarium
