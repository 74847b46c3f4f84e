import Mathlib.Data.List.Nodup
import Vivarium.Proofs.Tidings

/-! # Deaths are told once

Whatever is killed and however deep the tree is: each death is told exactly once to each listener of the
container that the dead one was in and to nobody else, those below it first.
-/

namespace Vivarium

namespace Forest

variable {β : Type} {f f' : Forest β} {p x y : EntityRef} {id : ListenerId} {told : List EntityRef}

theorem mem_tidings {r : Report} : r ∈ f.tidings x ↔ ∃ p id, f.parent? x = some p ∧ f.Listens id p ∧
    r = ⟨.told, id, .killed x, false, []⟩ := by
  cases hp : f.parent? x with
  | none => simp [tidings, hp]
  | some p =>
    rw [tidings_of_parent hp]
    simp only [obituary, List.mem_map, Listens]
    constructor
    · rintro ⟨l, hl, rfl⟩
      exact ⟨p, l.id, rfl, ⟨l, hl, rfl⟩, rfl⟩
    · rintro ⟨_, _, ⟨⟩, ⟨l, hl, rfl⟩, rfl⟩
      exact ⟨l, hl, rfl⟩

/-- How often a listener is told of an entity. -/
def tellings (id : ListenerId) (x : EntityRef) (rs : List Report) : Nat :=
  rs.countP fun r => r.listener = id ∧ r.event.ref = x

theorem tellings_of_ne (hne : y ≠ x) : tellings id x (f.tidings y) = 0 := by
  apply List.countP_eq_zero.mpr
  intro r hr
  obtain ⟨p, id', -, -, rfl⟩ := mem_tidings.mp hr
  simp [EntityEvent.ref, hne]

theorem tellings_self (hp : f.parent? x = some p) (hid : f.Listens id p)
    (hnodup : ((f.entity p).listeners.map (·.id)).Nodup) : tellings id x (f.tidings x) = 1 := by
  have hcount := List.count_eq_one_of_mem hnodup hid
  rw [tidings_of_parent hp, tellings, obituary, List.countP_map]
  rw [List.count, List.countP_map] at hcount
  rw [← hcount]
  apply List.countP_congr
  intro l _
  simp [EntityEvent.ref]

theorem tellings_flatMap (hnodup : told.Nodup) (hx : x ∈ told) :
    tellings id x (told.flatMap f.tidings) = tellings id x (f.tidings x) := by
  induction told with
  | nil => cases hx
  | cons y told ih =>
    obtain ⟨hnot, hnodup⟩ := List.nodup_cons.mp hnodup
    have hsplit : tellings id x ((y :: told).flatMap f.tidings) =
        tellings id x (f.tidings y) + tellings id x (told.flatMap f.tidings) := by
      rw [List.flatMap_cons, tellings, List.countP_append]
      rfl
    rw [hsplit]
    rcases List.mem_cons.mp hx with rfl | hx
    · have hnone : tellings id x (told.flatMap f.tidings) = 0 := by
        apply List.countP_eq_zero.mpr
        intro r hr
        obtain ⟨z, hz, hr⟩ := List.mem_flatMap.mp hr
        obtain ⟨p, id', -, -, rfl⟩ := mem_tidings.mp hr
        have hne : z ≠ x := by
          rintro rfl
          exact hnot hz
        simp [EntityEvent.ref, hne]
      omega
    · have hne : y ≠ x := by
        rintro rfl
        exact hnot hx
      rw [tellings_of_ne hne, ih hnodup hx]
      omega

/-- What is told from `f` to `f'`: each death once to each listener of its container, when the dead one
is dead and has no children; nothing else; nobody before those below, and siblings by age. -/
structure Announces (f f' : Forest β) (rs : List Report) : Prop where
  once : ∀ x p id, f.isAlive x = true → f'.isAlive x = false → f.parent? x = some p → f.Listens id p →
    tellings id x rs = 1
  only : ∀ r ∈ rs, ∃ x p, r = ⟨.told, r.listener, .killed x, false, []⟩ ∧ f.isAlive x = true ∧
    f'.isAlive x = false ∧ f.parent? x = some p ∧ f.Listens r.listener p
  below : rs.Pairwise fun r r' => f.isDescendant r'.event.ref r.event.ref = false
  siblings : rs.Pairwise fun r r' => f.parent? r.event.ref = f.parent? r'.event.ref →
    r.event.ref.index ≤ r'.event.ref.index

theorem Rooted.announces {cut : List EntityRef} (h : f.Rooted cut)
    (hapart : ∀ p, ((f.entity p).listeners.map (·.id)).Nodup) (htold : told.Pairwise f.Precedes)
    (hmem : ∀ x, x ∈ told ↔ x ≠ root ∧ f.isAlive x = true ∧ f'.isAlive x = false) :
    f.Announces f' (told.flatMap f.tidings) := by
  have hpairs : ∀ {R : EntityRef → EntityRef → Prop}, (∀ x, R x x) →
      (∀ x y, f.Precedes x y → R x y) →
      (told.flatMap f.tidings).Pairwise fun r r' => R r.event.ref r'.event.ref := by
    intro R hself hlater
    rw [List.pairwise_flatMap]
    constructor
    · intro x _
      apply List.pairwise_of_forall_mem_list
      intro r hr r' hr'
      obtain ⟨_, _, -, -, rfl⟩ := mem_tidings.mp hr
      obtain ⟨_, _, -, -, rfl⟩ := mem_tidings.mp hr'
      exact hself x
    · apply htold.imp
      intro x y hxy r hr r' hr'
      obtain ⟨_, _, -, -, rfl⟩ := mem_tidings.mp hr
      obtain ⟨_, _, -, -, rfl⟩ := mem_tidings.mp hr'
      exact hlater x y hxy
  constructor
  · intro x p id ha hdead hp hid
    have hx : x ∈ told := by
      refine (hmem x).mpr ⟨?_, ha, hdead⟩
      rintro rfl
      rw [h.parentless] at hp
      cases hp
    rw [tellings_flatMap (htold.imp Precedes.ne) hx]
    exact tellings_self hp hid (hapart p)
  · intro r hr
    obtain ⟨x, hx, hr⟩ := List.mem_flatMap.mp hr
    obtain ⟨p, id, hp, hid, rfl⟩ := mem_tidings.mp hr
    obtain ⟨-, ha, hdead⟩ := (hmem x).mp hx
    exact ⟨x, p, rfl, ha, hdead, hp, hid⟩
  · refine hpairs (fun x => ?_) fun x y hxy => hxy.1
    apply Bool.eq_false_iff.mpr
    intro hx
    exact Nat.lt_irrefl _ (h.index_lt_of_descendant hx)
  · exact hpairs (fun x _ => Nat.le_refl _) fun x y hxy hparent => Nat.le_of_lt (hxy.2 hparent)

end Forest

/-- The request kills. -/
def Request.kills : Request → Bool
  | .killEntity _ _ | .killEntities _ | .kill _ | .shutdown => true
  | _ => false

namespace Simulation

variable {μ : Type} {nb : Notebook μ Report} {s s' : Simulation (Code μ) μ} {n depth : Nat}
  {container : EntityRef}

/-- Deaths from `s` to `s'` become known in good order, each told to the listeners of its container. -/
def Tolls (nb : Notebook μ Report) (s s' : Simulation (Code μ) μ) : Prop :=
  ∃ told : List EntityRef, nb.heard s'.memory = nb.heard s.memory ++ told.flatMap s.forest.tidings ∧
    told.Pairwise s.forest.Precedes ∧
    ∀ x, x ∈ told ↔ x ≠ Forest.root ∧ s.forest.isAlive x = true ∧ s'.forest.isAlive x = false

theorem Tolls.nobody (nb : Notebook μ Report) (s : Simulation (Code μ) μ) : s.Tolls nb s := by
  refine ⟨[], (List.append_nil _).symm, List.Pairwise.nil, ?_⟩
  intro x
  simp only [List.not_mem_nil, false_iff]
  rintro ⟨-, ha, hdead⟩
  rw [ha] at hdead
  cases hdead

theorem Razes.tolls {gate : Option EntityRef} {tops told : List EntityRef}
    (h : Razes nb s.forest gate tops told s s') (hsorted : told.Pairwise s.forest.Precedes)
    (hmem : ∀ x, x ∈ told ↔ x ≠ Forest.root ∧ s.forest.isAlive x = true ∧
      ∃ e ∈ tops, s.forest.Within e x) : s.Tolls nb s' := by
  refine ⟨told, h.heard, hsorted, ?_⟩
  intro x
  rw [hmem]
  refine and_congr_right fun _ => and_congr_right fun ha => ?_
  constructor
  · rintro ⟨e, he, hx⟩
    exact (h.inside e he x hx).1
  · intro hdead
    by_contra hout
    have hkept := (h.outside x fun e he hx => hout ⟨e, he, hx⟩).1
    rw [hdead, ha] at hkept
    cases hkept

section

variable (hf : s.forest.Rooted []) (hsorted : s.forest.Ascending) (hobs : s.Observed nb)

include hf hsorted hobs

theorem killEntity_tolls (hdepth : s.forest.size ≤ depth) (container : EntityRef) (id : EntityId) :
    ∃ b s', killEntity (runCode (n + 1)) depth container id s = .ok (b, s') ∧ s.Tolls nb s' := by
  cases hchild : s.forest.child? container id with
  | none => exact ⟨false, s, killEntity_of_none hchild, .nobody nb s⟩
  | some c =>
    have hc := (Forest.mem_of_child? hchild).1
    have hlive := (hf.child container c hc).2.1
    have hdepth' : s.forest.size ≤ c.index + depth := by omega
    obtain ⟨s', hact, hrazes, -⟩ := killEntity_tells hf (n := n) hdepth hc s hobs hchild rfl
      fun _ _ => rfl
    refine ⟨true, s', hact, hrazes.tolls (hf.pairwise_perishedWith hsorted hdepth') ?_⟩
    intro x
    rw [hf.mem_perishedWith hdepth' hlive]
    simp only [List.mem_singleton, exists_eq_left]
    constructor
    · rintro ⟨hw, ha⟩
      refine ⟨?_, ha, hw⟩
      rintro rfl
      exact hf.not_root_within hc hw
    · rintro ⟨-, ha, hw⟩
      exact ⟨hw, ha⟩

theorem killEntities_tolls (hdepth : s.forest.size ≤ depth) (container : EntityRef) :
    ∃ s', killEntities (runCode (n + 1)) depth container s = .ok ((), s') ∧ s.Tolls nb s' := by
  have hdepth' : ∀ c : EntityRef, s.forest.size ≤ c.index + depth := by
    intro c
    omega
  have hlive : ∀ c ∈ s.forest.children container, s.forest.isAlive c = true :=
    fun c hc => (hf.child container c hc).2.1
  obtain ⟨s', hact, hrazes⟩ := killEach_tells hf (n := n) hdepth (s.forest.children container)
    (fun _ hc => hc) (hf.children_nodup container) s hobs rfl (fun _ => rfl) rfl fun _ _ _ _ => rfl
  refine ⟨s', ?_, hrazes.tolls ?_ ?_⟩
  · rw [killEntities_eq]
    exact bind_of_ok hact
  · apply hf.pairwise_flatMap hsorted
    intro c hc
    refine ⟨hf.pairwise_perishedWith hsorted (hdepth' c), ?_⟩
    intro x hx
    exact ((hf.mem_perishedWith (hdepth' c) (hlive c hc)).mp hx).1
  · intro x
    rw [List.mem_flatMap]
    constructor
    · rintro ⟨c, hc, hx⟩
      obtain ⟨hw, ha⟩ := (hf.mem_perishedWith (hdepth' c) (hlive c hc)).mp hx
      refine ⟨?_, ha, c, hc, hw⟩
      rintro rfl
      exact hf.not_root_within hc hw
    · rintro ⟨-, ha, c, hc, hw⟩
      exact ⟨c, hc, (hf.mem_perishedWith (hdepth' c) (hlive c hc)).mpr ⟨hw, ha⟩⟩

theorem kill_tolls (hdepth : s.forest.size ≤ depth) (e : EntityRef) :
    ∃ b s', kill (runCode (n + 1)) depth e s = .ok (b, s') ∧ s.Tolls nb s' := by
  cases hp : s.forest.parent? e with
  | none => exact ⟨false, s, kill_of_parentless hp, .nobody nb s⟩
  | some p =>
    rw [kill_of_parent hp]
    exact killEntity_tolls hf hsorted hobs hdepth p _

theorem shutdown_tolls (hdepth : s.forest.size ≤ depth) :
    ∃ s', shutdown (runCode (n + 1)) depth s = .ok ((), s') ∧ s.Tolls nb s' := by
  cases hlive : s.forest.isAlive Forest.root with
  | false =>
    obtain ⟨depth, rfl⟩ : ∃ k, depth = k + 1 := ⟨depth - 1, by have := hf.nonempty; omega⟩
    exact ⟨s, (bind_of_ok rfl).trans (die_of_dead hlive), .nobody nb s⟩
  | true =>
    have hdepth' : s.forest.size ≤ Forest.root.index + depth := by omega
    obtain ⟨s', hact, hrazes⟩ := die_tells hf (n := n) s.forest.bound hdepth' hlive s hobs
      fun _ _ => rfl
    refine ⟨s', (bind_of_ok rfl).trans hact, hrazes.tolls (hf.pairwise_perished hsorted hdepth') ?_⟩
    intro x
    rw [hf.mem_perished hdepth']
    simp only [List.mem_singleton, exists_eq_left]
    exact and_congr_right fun _ => and_comm

theorem answer_tolls (hn : s.forest.size ≤ n) {q : Request} (hq : q.kills = true) :
    ∃ a s', answer (runCode n) n q s = .ok (a, s') ∧ s.Tolls nb s' := by
  obtain ⟨k, rfl⟩ : ∃ k, n = k + 1 := ⟨n - 1, by have := hf.nonempty; omega⟩
  cases q with
  | killEntity container id => exact killEntity_tolls hf hsorted hobs hn container id
  | killEntities container =>
    obtain ⟨s', hact, htolls⟩ := killEntities_tolls hf hsorted hobs (n := k) hn container
    exact ⟨(), s', hact, htolls⟩
  | kill e => exact kill_tolls hf hsorted hobs hn e
  | shutdown =>
    obtain ⟨s', hact, htolls⟩ := shutdown_tolls hf hsorted hobs (n := k) hn
    exact ⟨(), s', hact, htolls⟩
  | _ => cases hq

end

end Simulation

open Simulation

/-- Where the listeners of containers only look and take notes, every killing comes to its end, and
each death is told exactly once to each listener of the container that the dead one was in, and to
nobody else. A listener is attached at most once, also when it was attached again, and not any more
after it was detached. -/
theorem deaths_are_told_once {μ : Type} {nb : Notebook μ Report} {s : Simulation (Code μ) μ}
    (hs : s.Lived) (hobs : s.Observed nb) :
    (∀ q : Request, q.kills = true → ∀ n, s.forest.size ≤ n → ∃ a s' rs,
      answer (runCode n) n q s = .ok (a, s') ∧ nb.heard s'.memory = nb.heard s.memory ++ rs ∧
        s.forest.Announces s'.forest rs) ∧
      (∀ p, ((s.forest.entity p).listeners.map (·.id)).Nodup) ∧
      (∀ p l, p.index < s.forest.size → ∀ id q, (s.forest.subscribe p l).2.Listens id q ↔
        s.forest.Listens id q ∨ q = p ∧ id = l.id) ∧
      ∀ p out id q, (s.forest.unsubscribe p out).2.Listens id q ↔
        s.forest.Listens id q ∧ ¬(q = p ∧ id = out) := by
  have hrooted := hs.settled.quiet.rooted
  refine ⟨?_, hs.apart.containers, fun p l hp id q => Forest.listens_subscribe hp l,
    fun p out id q => Forest.listens_unsubscribe p out⟩
  intro q hq n hn
  obtain ⟨a, s', hact, told, hheard, hsorted, hmem⟩ := answer_tolls hrooted hs.ascending hobs hn hq
  exact ⟨a, s', _, hact, hheard, hrooted.announces hs.apart.containers hsorted hmem⟩

/-- Code that looks and takes notes, whatever it is told. -/
def looker (l : ListenerId) : Code (List Report) :=
  .ofEntityListener fun event => (Notebook.plain Report).look .told l event

/-- Makes an entity with a child. -/
def household : Program (List Report) .listener :=
  .request (.create Forest.root none none) fun
    | .error _ => .done ()
    | .ok e => .request (.create e none none) fun _ => .done ()

def attach (p : EntityRef) (l : ListenerId) : Program (List Report) .listener :=
  .subscribe p l (looker l) fun _ => .done ()

/-- An engine and a root, and nothing noted yet. -/
def unheard (ρ : Type) : Simulation (Code (List ρ)) (List ρ) :=
  create { config := (EngineConfig.standard 1).withTicksPerSecond 10, meter := { ticksPerSecond := 10 } }
    false none []

theorem unheard_lived (ρ : Type) : (unheard ρ).Lived :=
  .new (show (unheard ρ).New false from
    ⟨(EngineConfig.standard 1).withTicksPerSecond 10, _, none, rfl, rfl, rfl⟩) rfl

theorem attach_keeps {s : Simulation (Code (List Report)) (List Report)} (hs : s.Lived)
    (hobs : s.Observed (.plain Report)) {p : EntityRef} (hp : p.index < s.forest.size) (l : ListenerId) :
    ∃ s' : Simulation (Code (List Report)) (List Report), s'.Lived ∧ s'.Observed (.plain Report) ∧
      s.forest.SameTree s'.forest ∧
      ∀ id q, s'.forest.Listens id q ↔ s.forest.Listens id q ∨ q = p ∧ id = l := by
  have hact : execute 0 (attach p l) s =
      .ok ((), { s with forest := (s.forest.subscribe p ⟨l, looker l⟩).2 }) := rfl
  refine ⟨_, hs.run hact, hobs.subscribe p ?_, (Forest.SameWork.relisten p _ _).toSameTree, ?_⟩
  · intro event
    rfl
  · intro id q
    exact Forest.listens_subscribe hp _

theorem household_is_told : ∃ (s s' : Simulation (Code (List Report)) (List Report)) (rs : List Report),
    s.Lived ∧ s.Observed (.plain Report) ∧ (∃ a, answer (runCode 3) 3 .shutdown s = .ok (a, s')) ∧
      s'.memory = s.memory ++ rs ∧ s.forest.Announces s'.forest rs ∧
      Forest.tellings ⟨1⟩ ⟨1⟩ rs = 1 ∧ Forest.tellings ⟨2⟩ ⟨2⟩ rs = 1 := by
  obtain ⟨_, s, hact, hholds⟩ := endsWith_iff.mp (show endsWith (execute 4 household) (unheard Report)
    (fun _ s => s.forest.size == 3 && s.forest.isAlive ⟨1⟩ && s.forest.isAlive ⟨2⟩ &&
      s.forest.parent? ⟨1⟩ == some Forest.root && s.forest.parent? ⟨2⟩ == some ⟨1⟩ &&
      s.forest.entities.all (·.listeners.isEmpty)) = true by decide +kernel)
  simp only [Bool.and_eq_true, beq_iff_eq] at hholds
  obtain ⟨⟨⟨⟨⟨hsize, hone⟩, htwo⟩, hparent⟩, hparent'⟩, hnone⟩ := hholds
  have hlt : Forest.root.index < s.forest.size := by
    rw [hsize]
    decide
  obtain ⟨s₁, hs₁, hobs₁, htree₁, hlistens₁⟩ :=
    attach_keeps ((unheard_lived _).run hact) (.of_none hnone) hlt ⟨1⟩
  have hlt₁ : EntityRef.index ⟨1⟩ < s₁.forest.size := by
    rw [htree₁.size, hsize]
    decide
  obtain ⟨s₂, hs₂, hobs₂, htree₂, hlistens₂⟩ := attach_keeps hs₁ hobs₁ hlt₁ ⟨2⟩
  have hsize₂ : s₂.forest.size ≤ 3 := Nat.le_of_eq (htree₂.size.trans (htree₁.size.trans hsize))
  obtain ⟨htells, -⟩ := deaths_are_told_once hs₂ hobs₂
  obtain ⟨a, s', rs, hdown, hheard, htold⟩ := htells .shutdown rfl 3 hsize₂
  have hdead : ∀ x, s'.forest.isAlive x = false :=
    shutdown_dead (runCode_follows 3).listeners trivial hs₂.settled.quiet hdown
  refine ⟨s₂, s', rs, hs₂, hobs₂, ⟨a, hdown⟩, hheard, htold, ?_, ?_⟩
  · apply htold.once ⟨1⟩ Forest.root ⟨1⟩ _ (hdead _)
    · rw [htree₂.parent, htree₁.parent, hparent]
    · exact (hlistens₂ _ _).mpr (Or.inl ((hlistens₁ _ _).mpr (Or.inr ⟨rfl, rfl⟩)))
    · rw [htree₂.alive, htree₁.alive, hone]
  · apply htold.once ⟨2⟩ ⟨1⟩ ⟨2⟩ _ (hdead _)
    · rw [htree₂.parent, htree₁.parent, hparent']
    · exact (hlistens₂ _ _).mpr (Or.inr ⟨rfl, rfl⟩)
    · rw [htree₂.alive, htree₁.alive, htwo]

end Vivarium
