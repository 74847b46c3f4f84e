import Vivarium.Proofs.Announcing
import Vivarium.Proofs.Chains
import Vivarium.Proofs.Writes

/-! # Listeners that write back

Listeners of attributes may change the attributes of the set that they listen to. The events that a
listener is told of about a key form a chain that ends with the value the key is left with, unless the
listener is told of a change in the turn of one who is told of changes of the key before it.
-/

namespace Vivarium

/-- The request changes an attribute of the set or changes nothing. -/
def Request.edits (h : Holder) : Request → Bool
  | .setAttribute h' _ _ | .removeAttribute h' _ => h' = h
  | q => q.looks

def Notebook.jot {μ ρ : Type} (nb : Notebook μ ρ) (r : ρ) : Program μ .listener :=
  .memory (nb.note r) fun _ => .done ()

/-- The listener notes every change, changes attributes of the set and looks around, and notes that it
is done. -/
def Notebook.Heeds {μ : Type} (nb : Notebook μ Hearing) (h : Holder) (l : Listener (Code μ)) : Prop :=
  ∀ event, ∃ p : Program μ .listener, p.Keeps (Request.edits h) nb ∧
    l.code (.attributeEvent event) = (nb.jot ⟨.told, l.id, event⟩).andThen fun _ => p.andThen fun _ =>
      nb.jot ⟨.done, l.id, event⟩

/-- A listener of a key of a set, between those who are told before it and those who are told after. -/
structure Seat (β : Type) where
  holder : Holder
  key : AttributeKey
  earlier : List (Listener β)
  listener : Listener β
  later : List (Listener β)

namespace Seat

variable {β : Type}

def all (t : Seat β) : List (Listener β) := t.earlier ++ t.listener :: t.later

def before (t : Seat β) : List ListenerId := t.earlier.map (·.id)

variable {t : Seat β}

theorem listener_not_before (h : (t.all.map (·.id)).Nodup) : t.listener.id ∉ t.before := by
  rw [all, List.map_append, List.nodup_append] at h
  intro hbefore
  exact h.2.2 _ hbefore _ List.mem_cons_self rfl

theorem later_apart (h : (t.all.map (·.id)).Nodup) {l : Listener β} (hl : l ∈ t.later) :
    l.id ∉ t.before ∧ l.id ≠ t.listener.id := by
  rw [all, List.map_append, List.nodup_append] at h
  constructor
  · intro hbefore
    exact h.2.2 _ hbefore _ (List.mem_cons_of_mem _ (List.mem_map_of_mem hl)) rfl
  · intro heq
    have hmem : l.id ∈ t.later.map (·.id) := List.mem_map_of_mem hl
    rw [heq] at hmem
    exact (List.nodup_cons.mp h.2.1).1 hmem

end Seat

namespace Simulation

variable {μ : Type} {nb : Notebook μ Hearing} {s s' s'' : Simulation (Code μ) μ} {n : Nat}
  {t : Seat (Code μ)} {l : Listener (Code μ)} {event : AttributeEvent} {rs rs' : List Hearing}

theorem withAttributes_memory (h : Holder) (a : AttributeSet (Code μ)) (s : Simulation (Code μ) μ) :
    (s.withAttributes h a).memory = s.memory := by
  cases h <;> rfl

def valueAt (t : Seat (Code μ)) (s : Simulation (Code μ) μ) : Option Value :=
  (s.attributesOf t.holder).get? t.key

/-- All listeners of the set heed its changes, and those of the key are the ones about the seat. -/
structure Heeding (nb : Notebook μ Hearing) (t : Seat (Code μ)) (s : Simulation (Code μ) μ) : Prop where
  heeded : ∀ k, ∀ l ∈ (s.attributesOf t.holder).listenersOf k, nb.Heeds t.holder l
  listed : (s.attributesOf t.holder).listenersOf t.key = t.all

theorem Heeding.listeners (hs : s.Heeding nb t) : (s.attributesOf t.holder).listeners ≠ [] := by
  intro hnone
  have hlisted := hs.listed
  rw [AttributeSet.listenersOf, hnone] at hlisted
  simp [Entries.get?, Seat.all] at hlisted

theorem Heeding.edit (hs : s.Heeding nb t) {a : AttributeSet (Code μ)}
    (ha : a.listeners = (s.attributesOf t.holder).listeners) :
    (s.withAttributes t.holder a).Heeding nb t ∧
      (s.withAttributes t.holder a).valueAt t = a.get? t.key := by
  have hget := attributesOf_edit_self (holds_of_listeners hs.listeners) a
  have hsame : ∀ k, a.listenersOf k = (s.attributesOf t.holder).listenersOf k := by
    intro k
    rw [AttributeSet.listenersOf, ha]
    rfl
  refine ⟨⟨?_, ?_⟩, congrArg (·.get? t.key) hget⟩
  · intro k l hl
    rw [hget, hsame] at hl
    exact hs.heeded k l hl
  · rw [hget, hsame]
    exact hs.listed

/-- What is heard about the key from `s` to `s'`. Where it is calm at the seat, what its listener is told
of is how the value has changed. -/
structure Tracks (t : Seat (Code μ)) (s : Simulation (Code μ) μ) (rs : List Hearing)
    (s' : Simulation (Code μ) μ) : Prop where
  nested : Nested t.key t.before rs
  chain : Calm t.key t.before t.listener.id rs →
    Chain (s.valueAt t) (received t.key t.listener.id rs) (s'.valueAt t)

namespace Tracks

theorem nothing (h : s'.valueAt t = s.valueAt t) : s.Tracks t [] s' := ⟨.nil, fun _ => h.symm⟩

theorem append (h : s.Tracks t rs s') (h' : s'.Tracks t rs' s'') : s.Tracks t (rs ++ rs') s'' := by
  refine ⟨h.nested.append h'.nested, fun hcalm => ?_⟩
  rw [received_append]
  exact (h.chain hcalm.left).append (h'.chain (hcalm.right h.nested.settled))

theorem aside {r : Hearing} (hr : r.Aside t.key t.before t.listener.id) (s : Simulation (Code μ) μ) :
    s.Tracks t [r] s := by
  refine ⟨.other hr.1 hr.2.1, fun _ => ?_⟩
  rw [received_eq_nil (by simpa using hr.2.2)]
  rfl

/-- A turn with another key, or the turn of a listener who is told later. -/
theorem turn_aside (h : s.Tracks t rs s')
    (haside : event.key ≠ t.key ∨ l.id ∉ t.before ∧ l.id ≠ t.listener.id) :
    s.Tracks t (⟨.told, l.id, event⟩ :: rs ++ [⟨.done, l.id, event⟩]) s' := by
  have hnote : ∀ stage : TurnStage, (⟨stage, l.id, event⟩ : Hearing).Aside t.key t.before t.listener.id := by
    intro stage
    simp only [Hearing.Aside, Hearing.begins, Hearing.ends, Hearing.reaches, decide_eq_false_iff_not]
    rcases haside with hkey | ⟨hbefore, hself⟩
    · simp [hkey]
    · simp [hbefore, hself]
  exact ((aside (hnote .told) s).append h).append (aside (hnote .done) s')

/-- In the turn of a listener who is told before, nothing is told at the seat if it is calm there. -/
theorem turn_before (h : s.Tracks t rs s') (hkey : event.key = t.key) (hl : l.id ∈ t.before)
    (hself : t.listener.id ∉ t.before) :
    s.Tracks t (⟨.told, l.id, event⟩ :: rs ++ [⟨.done, l.id, event⟩]) s' ∧
      (Calm t.key t.before t.listener.id (⟨.told, l.id, event⟩ :: rs ++ [⟨.done, l.id, event⟩]) →
        received t.key t.listener.id (⟨.told, l.id, event⟩ :: rs ++ [⟨.done, l.id, event⟩]) = []) := by
  have hne : l.id ≠ t.listener.id := fun heq => hself (heq ▸ hl)
  have hbegins : (⟨.told, l.id, event⟩ : Hearing).begins t.key t.before = true := by
    simp [Hearing.begins, hkey, hl]
  have hends : (⟨.done, l.id, event⟩ : Hearing).ends t.key t.before = true := by
    simp [Hearing.ends, hkey, hl]
  have hnone : Calm t.key t.before t.listener.id (⟨.told, l.id, event⟩ :: rs ++ [⟨.done, l.id, event⟩]) →
      (∀ q ∈ rs, q.reaches t.key t.listener.id = false) ∧
        received t.key t.listener.id (⟨.told, l.id, event⟩ :: rs ++ [⟨.done, l.id, event⟩]) = [] := by
    intro hcalm
    have hunreached := hcalm.unreached hbegins h.nested
    refine ⟨hunreached, received_eq_nil ?_⟩
    intro q hq
    simp only [List.cons_append, List.mem_cons, List.mem_append, List.not_mem_nil, or_false] at hq
    rcases hq with rfl | hq | rfl
    · simp [Hearing.reaches, hne]
    · exact hunreached q hq
    · simp [Hearing.reaches]
  refine ⟨⟨.turn hbegins h.nested hends, fun hcalm => ?_⟩, fun hcalm => (hnone hcalm).2⟩
  obtain ⟨hunreached, hreceived⟩ := hnone hcalm
  have hchain := h.chain (.of_unreached hunreached)
  rw [received_eq_nil hunreached] at hchain
  rw [hreceived]
  exact hchain

end Tracks

/-- What is heard of a change of the key of the seat. -/
structure Told (nb : Notebook μ Hearing) (t : Seat (Code μ)) (s s' : Simulation (Code μ) μ) : Prop where
  heeding : s'.Heeding nb t
  heard : ∃ rs, nb.heard s'.memory = nb.heard s.memory ++ rs ∧ s.Tracks t rs s' ∧
    (Calm t.key t.before t.listener.id rs → received t.key t.listener.id rs ≠ [])

theorem Told.logged (h : Told nb t s s') : s'.Heeding nb t ∧
    ∃ rs, nb.heard s'.memory = nb.heard s.memory ++ rs ∧ s.Tracks t rs s' := by
  obtain ⟨hs', rs, hheard, hrs, -⟩ := h
  exact ⟨hs', rs, hheard, hrs⟩

instance Heeding.composes (nb : Notebook μ Hearing) (t : Seat (Code μ)) :
    Composes (Heeding nb t) (Tracks t) where
  still hs _ := ⟨⟨hs.heeded, hs.listed⟩, .nothing rfl⟩
  append h h' := h.append h'

/-! ## One listener -/

/-- A listener who is told of a change notes it, and when it is done it notes that. -/
def TurnsTrack (nb : Notebook μ Hearing) (t : Seat (Code μ)) (run : Run (Code μ) μ) : Prop :=
  ∀ (l : Listener (Code μ)) (event : AttributeEvent) (s s' : Simulation (Code μ) μ),
    nb.Heeds t.holder l → s.Heeding nb t → run (.attributeEvent event) l.code s = .ok ((), s') →
      s'.Heeding nb t ∧ ∃ rs, nb.heard s'.memory =
        nb.heard s.memory ++ (⟨.told, l.id, event⟩ :: rs ++ [⟨.done, l.id, event⟩]) ∧ s.Tracks t rs s'

theorem turn_tracks (hn : ∀ p : Program μ .listener, p.Keeps (Request.edits t.holder) nb →
    Logs nb (Heeding nb t) (Tracks t) (p.exec (runCode n) n)) : TurnsTrack nb t (runCode (n + 1)) := by
  intro l event s s' hl hs hact
  obtain ⟨p, hp, hcode⟩ := hl event
  have hexec : runCode (n + 1) (.attributeEvent event) l.code s =
      Program.exec (r := .listener) (runCode n) n ((nb.jot ⟨.told, l.id, event⟩).andThen fun _ =>
        p.andThen fun _ => nb.jot ⟨.done, l.id, event⟩) s := by
    change (l.code (.attributeEvent event)).exec (runCode n) n s = _
    rw [hcode]
    rfl
  rw [hexec] at hact
  exact Logs.between (fun _ => ⟨.told, l.id, event⟩)
    (fun _ => ⟨.done, l.id, event⟩) (fun _ => rfl) (fun _ => rfl) (fun _ _ => rfl) (hn p hp) hs hact

section

variable (hturn : TurnsTrack nb t (runCode n)) (hapart : (t.all.map (·.id)).Nodup)

include hturn

/-! ## All listeners of a key -/

/-- The listeners of another key are told, or those who are told later. -/
theorem tell_aside (ls : List (Listener (Code μ))) (hs : s.Heeding nb t)
    (hls : ∀ l ∈ ls, nb.Heeds t.holder l ∧
      (event.key ≠ t.key ∨ l.id ∉ t.before ∧ l.id ≠ t.listener.id)) :
    LogsAt nb (Heeding nb t) (Tracks t) (ForIn.forIn ls PUnit.unit fun l _ =>
      runCode n (.attributeEvent event) l.code >>= fun _ => Pure.pure (.yield PUnit.unit)) s := by
  refine Logs.forIn ls (fun l hl => Logs.answers ?_ _) s hs
  intro s hs _ s' hact
  obtain ⟨hheeds, haside⟩ := hls l hl
  obtain ⟨hs', rs, hheard, hrs⟩ := hturn l event s s' hheeds hs hact
  exact ⟨hs', _, hheard, hrs.turn_aside haside⟩

include hapart

theorem tell_all (ls : List (Listener (Code μ))) (hls : ∀ l ∈ ls, l.id ∈ t.before) (hs : s.Heeding nb t)
    (hheeds : ∀ l ∈ ls ++ t.listener :: t.later, nb.Heeds t.holder l) (hkey : event.key = t.key) {u : PUnit}
    (hact : (ForIn.forIn (ls ++ t.listener :: t.later) PUnit.unit fun l _ =>
      runCode n (.attributeEvent event) l.code >>= fun _ => Pure.pure (.yield PUnit.unit)) s = .ok (u, s')) :
    s'.Heeding nb t ∧ ∃ rs, nb.heard s'.memory = nb.heard s.memory ++ rs ∧ Nested t.key t.before rs ∧
      (Calm t.key t.before t.listener.id rs → ∃ es, received t.key t.listener.id rs = event :: es ∧
        Chain (s.valueAt t) es (s'.valueAt t)) := by
  have hself := Seat.listener_not_before hapart
  -- The induction is on those who are told before the seat. In a calm course they leave the value as it is.
  induction ls generalizing s with
  | nil =>
    -- Its listener is told of a change that was made before, so the chain of this course begins after it.
    rw [List.nil_append, List.forIn_cons, bind_assoc] at hact
    obtain ⟨_, s₁, hfirst, hrest⟩ := bind_ok hact
    obtain ⟨hs₁, rs₁, hheard₁, hrs₁⟩ := hturn _ event s s₁ (hheeds _ (by simp)) hs hfirst
    have hlater : ∀ l ∈ t.later, nb.Heeds t.holder l ∧
        (event.key ≠ t.key ∨ l.id ∉ t.before ∧ l.id ≠ t.listener.id) := fun l hl =>
      ⟨hheeds l (by simp [hl]), Or.inr (Seat.later_apart hapart hl)⟩
    obtain ⟨hs', rs₂, hheard₂, hrs₂⟩ := tell_aside hturn t.later hs₁ hlater _ _ hrest
    have hbegins : (⟨.told, t.listener.id, event⟩ : Hearing).begins t.key t.before = false := by
      simp [Hearing.begins, hself]
    have hends : (⟨.told, t.listener.id, event⟩ : Hearing).ends t.key t.before = false := by
      simp [Hearing.ends]
    have hdone : (⟨.done, t.listener.id, event⟩ : Hearing).Aside t.key t.before t.listener.id := by
      simp [Hearing.Aside, Hearing.begins, Hearing.ends, Hearing.reaches, hself]
    have hlast : s.Tracks t (rs₁ ++ [⟨.done, t.listener.id, event⟩] ++ rs₂) s' :=
      (hrs₁.append (.aside hdone s₁)).append hrs₂
    refine ⟨hs', ⟨.told, t.listener.id, event⟩ :: (rs₁ ++ [⟨.done, t.listener.id, event⟩] ++ rs₂), ?_,
      (Nested.other hbegins hends).append hlast.nested, fun hcalm => ⟨_, ?_, hlast.chain ?_⟩⟩
    · rw [hheard₂, hheard₁]
      simp
    · apply received_cons_of_reaches
      simp [Hearing.reaches, hkey]
    · have hfirst : Calm t.key t.before t.listener.id ([⟨.told, t.listener.id, event⟩] ++
          (rs₁ ++ [⟨.done, t.listener.id, event⟩] ++ rs₂)) := hcalm
      exact hfirst.right (pending_other hbegins hends)
  | cons l ls ih =>
    rw [List.cons_append, List.forIn_cons, bind_assoc] at hact
    obtain ⟨_, s₁, hfirst, hrest⟩ := bind_ok hact
    obtain ⟨hl, hls⟩ := List.forall_mem_cons.mp hls
    obtain ⟨hheed, hheeds⟩ := List.forall_mem_cons.mp hheeds
    obtain ⟨hs₁, rs₁, hheard₁, hrs₁⟩ := hturn l event s s₁ hheed hs hfirst
    obtain ⟨hs', rs₂, hheard₂, hnested₂, htold₂⟩ := ih hls hs₁ hheeds hrest
    obtain ⟨hturn₁, hnone₁⟩ := hrs₁.turn_before hkey hl hself
    refine ⟨hs', _, by rw [hheard₂, hheard₁, List.append_assoc], hturn₁.nested.append hnested₂, ?_⟩
    intro hcalm
    obtain ⟨es, hreceived, hchain⟩ := htold₂ (hcalm.right hturn₁.nested.settled)
    have hkept := hturn₁.chain hcalm.left
    rw [hnone₁ hcalm.left] at hkept
    obtain hkept : s.valueAt t = s₁.valueAt t := hkept
    refine ⟨es, ?_, ?_⟩
    · rw [received_append, hnone₁ hcalm.left, hreceived]
      rfl
    · rw [hkept]
      exact hchain

/-! ## Changes -/

omit hapart in
theorem notify_other {k : AttributeKey} (hk : k ≠ t.key) (value previous : Option Value) :
    Logs nb (Heeding nb t) (Tracks t) (notify (runCode n) t.holder k value previous) := by
  intro s hs
  apply LogsAt.asked
  apply LogsAt.answers
  apply tell_aside hturn _ hs
  intro l hl
  exact ⟨hs.heeded k l hl, Or.inl hk⟩

/-- What is heard of a change from `previous` to `value`, which was made before it is told. -/
theorem notify_told {value previous : Option Value} (hs : s.Heeding nb t)
    (hact : notify (runCode n) t.holder t.key value previous s = .ok ((), s')) :
    s'.Heeding nb t ∧ ∃ rs, nb.heard s'.memory = nb.heard s.memory ++ rs ∧ Nested t.key t.before rs ∧
      (Calm t.key t.before t.listener.id rs → ∃ e es, received t.key t.listener.id rs = e :: es ∧
        e.previous = previous ∧ e.value = value ∧ Chain (s.valueAt t) es (s'.valueAt t)) := by
  obtain ⟨attributes, _, hask, hact⟩ := bind_ok hact
  cases hask
  obtain ⟨_, _, htell, hdone⟩ := bind_ok hact
  cases hdone
  rw [hs.listed] at htell
  have hheeds : ∀ l ∈ t.earlier ++ t.listener :: t.later, nb.Heeds t.holder l := by
    intro l hl
    apply hs.heeded t.key
    rw [hs.listed]
    exact hl
  obtain ⟨hs', rs, hheard, hnested, htold⟩ := tell_all hturn hapart t.earlier
    (fun l hl => List.mem_map_of_mem hl) hs hheeds rfl htell
  refine ⟨hs', rs, hheard, hnested, fun hcalm => ?_⟩
  obtain ⟨es, hreceived, hchain⟩ := htold hcalm
  exact ⟨_, es, hreceived, rfl, rfl, hchain⟩

theorem change_told {a : AttributeSet (Code μ)} {value : Option Value} (hs : s.Heeding nb t)
    (ha : a.listeners = (s.attributesOf t.holder).listeners) (hget : a.get? t.key = value)
    (hact : notify (runCode n) t.holder t.key value (s.valueAt t) (s.withAttributes t.holder a) =
      .ok ((), s')) : Told nb t s s' := by
  obtain ⟨hs₁, hvalue⟩ := hs.edit ha
  obtain ⟨hs', rs, hheard, hnested, htold⟩ := notify_told hturn hapart hs₁ hact
  rw [withAttributes_memory] at hheard
  refine ⟨hs', rs, hheard, ⟨hnested, fun hcalm => ?_⟩, fun hcalm => ?_⟩
  · obtain ⟨e, es, hreceived, hprevious, hnow, hchain⟩ := htold hcalm
    rw [hreceived]
    rw [hvalue, hget, ← hnow] at hchain
    exact ⟨hprevious, hchain⟩
  · obtain ⟨e, es, hreceived, -⟩ := htold hcalm
    rw [hreceived]
    exact List.cons_ne_nil e es

theorem setAttribute_told {v : Value} {previous : Option Value} (hs : s.Heeding nb t)
    (hact : setAttribute (runCode n) t.holder t.key v s = .ok (.ok previous, s')) : Told nb t s s' := by
  by_cases hv : v.type = t.key.type
  · rw [setAttribute_eq hv] at hact
    obtain ⟨_, _, hact, hdone⟩ := bind_ok hact
    cases hdone
    exact change_told (a := (s.attributesOf t.holder).put t.key v) hturn hapart hs rfl
      (Entries.get?_put_self _ _ _) hact
  · rw [setAttribute_of_mismatch hv] at hact
    cases hact

theorem removeAttribute_told {v : Value} (hs : s.Heeding nb t)
    (hact : removeAttribute (runCode n) t.holder t.key s = .ok (some v, s')) : Told nb t s s' := by
  rw [removeAttribute_eq] at hact
  obtain ⟨_, _, htell, hdone⟩ := bind_ok hact
  obtain ⟨heq, rfl⟩ := Prod.mk.inj (Except.ok.inj hdone)
  rw [heq, if_pos (by rfl), ← heq] at htell
  exact change_told (a := (s.attributesOf t.holder).erase t.key) hturn hapart hs rfl
    (Entries.get?_erase_self _ _) htell

omit hapart in
theorem change_other {k : AttributeKey} (hk : k ≠ t.key) (a : AttributeSet (Code μ)) {α : Type} (answer : α)
    {act : Act (Code μ) μ α} {value previous : Option Value} (hs : s.Heeding nb t)
    (ha : a.listeners = (s.attributesOf t.holder).listeners)
    (hget : a.get? t.key = (s.attributesOf t.holder).get? t.key)
    (hact : act s = (notify (runCode n) t.holder k value previous >>= fun _ => Pure.pure answer)
      (s.withAttributes t.holder a)) : LogsAt nb (Heeding nb t) (Tracks t) act s := by
  obtain ⟨hs₁, hvalue⟩ := hs.edit ha
  apply LogsAt.from_later (.nothing (hvalue.trans hget)) (withAttributes_memory _ _ s) hact
  exact (notify_other hturn hk value previous _ hs₁).answers _

theorem setAttribute_tracks (k : AttributeKey) (v : Value) :
    Logs nb (Heeding nb t) (Tracks t) (setAttribute (runCode n) t.holder k v) := by
  intro s hs
  by_cases hv : v.type = k.type
  · by_cases hk : k = t.key
    · subst hk
      intro answer s' hact
      have hset := hact
      rw [setAttribute_eq hv] at hset
      obtain ⟨_, _, -, hdone⟩ := bind_ok hset
      cases hdone
      exact (setAttribute_told hturn hapart hs hact).logged
    · exact change_other hturn hk ((s.attributesOf t.holder).put k v) _ hs rfl
        (Entries.get?_put_of_ne hk v _) (setAttribute_eq hv)
  · apply LogsAt.still hs
    intro _ s' hact
    rw [setAttribute_of_mismatch hv] at hact
    cases hact
    rfl

theorem removeAttribute_tracks (k : AttributeKey) :
    Logs nb (Heeding nb t) (Tracks t) (removeAttribute (runCode n) t.holder k) := by
  intro s hs
  cases hv : (s.attributesOf t.holder).get? k with
  | none =>
    intro answer s' hact
    rw [removeAttribute_eq, hv] at hact
    cases hact
    have ha : ((s.attributesOf t.holder).erase k).listeners = (s.attributesOf t.holder).listeners := rfl
    obtain ⟨hs₁, hvalue⟩ := hs.edit ha
    refine ⟨hs₁, [], ?_, .nothing (hvalue.trans ?_)⟩
    · rw [withAttributes_memory, List.append_nil]
    · by_cases hk : k = t.key
      · subst hk
        exact (Entries.get?_erase_self _ _).trans hv.symm
      · exact Entries.get?_erase_of_ne hk _
  | some v =>
    by_cases hk : k = t.key
    · subst hk
      intro answer s' hact
      have hremove := hact
      rw [removeAttribute_eq, hv] at hremove
      obtain ⟨_, _, -, hdone⟩ := bind_ok hremove
      cases hdone
      exact (removeAttribute_told hturn hapart hs hact).logged
    · apply change_other hturn hk ((s.attributesOf t.holder).erase k) (some v) hs rfl
        (Entries.get?_erase_of_ne hk _)
      rw [removeAttribute_eq, hv]
      rfl

theorem answer_tracks (bound : Nat) {q : Request} (hq : q.edits t.holder = true) :
    Logs nb (Heeding nb t) (Tracks t) (answer (runCode n) bound q) := by
  by_cases hlooks : q.looks = true
  · exact .looks hlooks
  · cases q with
    | setAttribute holder k v =>
      obtain rfl : holder = t.holder := decide_eq_true_iff.mp hq
      exact setAttribute_tracks hturn hapart k v
    | removeAttribute holder k =>
      obtain rfl : holder = t.holder := decide_eq_true_iff.mp hq
      exact removeAttribute_tracks hturn hapart k
    | _ => first | exact (hlooks rfl).elim | cases hq

end

theorem runCode_tracks (nb : Notebook μ Hearing) (hapart : (t.all.map (·.id)).Nodup) (n : Nat) :
    TurnsTrack nb t (runCode n) := by
  -- Code that runs within code runs less deep.
  induction n with
  | zero => rintro _ _ _ _ _ _ ⟨⟩
  | succ n ih =>
    exact turn_tracks fun p hp =>
      .exec (fun q hq => answer_tracks ih hapart n hq) hp

end Simulation

open Simulation

/-- When a call that changes a key returns, the events that a listener of the key was told of form a chain
from the value before the call, and the last one carries the value that the key has now, for the first
listener of the key and for every one who was never told in the turn of a listener before it. So it is
with the events of another key of the set, if there are any. -/
theorem listener_ends_with_current_value {μ : Type} {nb : Notebook μ Hearing}
    {s s' : Simulation (Code μ) μ} {h : Holder} {k : AttributeKey} {n : Nat} (hs : s.Lived)
    (hheeds : ∀ key, ∀ l ∈ (s.attributesOf h).listenersOf key, nb.Heeds h l)
    (hact : (∃ v previous, setAttribute (runCode n) h k v s = .ok (.ok previous, s')) ∨
      ∃ v, removeAttribute (runCode n) h k s = .ok (some v, s'))
    (key : AttributeKey) (earlier : List (Listener (Code μ))) (l : Listener (Code μ))
    (later : List (Listener (Code μ)))
    (hlisted : (s.attributesOf h).listenersOf key = earlier ++ l :: later) :
    (s'.attributesOf h).listenersOf key = earlier ++ l :: later ∧
      ∃ rs, nb.heard s'.memory = nb.heard s.memory ++ rs ∧
        (earlier = [] ∨ Calm key (earlier.map (·.id)) l.id rs →
          Chain ((s.attributesOf h).get? key) (received key l.id rs) ((s'.attributesOf h).get? key) ∧
          (key = k → ∃ es e, received key l.id rs = es ++ [e] ∧
            e.value = (s'.attributesOf h).get? key)) := by
  have hapart := (hs.apart.attributesOf h) key
  rw [hlisted] at hapart
  have hheeding : s.Heeding nb ⟨h, key, earlier, l, later⟩ := ⟨hheeds, hlisted⟩
  have hturn := runCode_tracks (t := ⟨h, key, earlier, l, later⟩) nb hapart n
  have hcalm : ∀ rs, earlier = [] ∨ Calm key (earlier.map (·.id)) l.id rs →
      Calm key (earlier.map (·.id)) l.id rs := by
    rintro rs (rfl | hcalm)
    · exact .of_first
    · exact hcalm
  by_cases hk : key = k
  · subst hk
    have htold : Told nb ⟨h, key, earlier, l, later⟩ s s' := by
      rcases hact with ⟨v, previous, hact⟩ | ⟨v, hact⟩
      · exact setAttribute_told hturn hapart hheeding hact
      · exact removeAttribute_told hturn hapart hheeding hact
    obtain ⟨hheeding', rs, hheard, htracks, hreceived⟩ := htold
    refine ⟨hheeding'.listed, rs, hheard, fun hfirst => ?_⟩
    have hchain : Chain ((s.attributesOf h).get? key) (received key l.id rs)
        ((s'.attributesOf h).get? key) := htracks.chain (hcalm rs hfirst)
    have hsome : received key l.id rs ≠ [] := hreceived (hcalm rs hfirst)
    refine ⟨hchain, fun _ => ?_⟩
    obtain ⟨es, e, heq⟩ := (List.eq_nil_or_concat _).resolve_left hsome
    rw [List.concat_eq_append] at heq
    rw [heq] at hchain
    exact ⟨es, e, heq, hchain.last⟩
  · have hlogged : s'.Heeding nb ⟨h, key, earlier, l, later⟩ ∧ ∃ rs,
        nb.heard s'.memory = nb.heard s.memory ++ rs ∧ s.Tracks ⟨h, key, earlier, l, later⟩ rs s' := by
      rcases hact with ⟨v, previous, hact⟩ | ⟨v, hact⟩
      · exact setAttribute_tracks hturn hapart k v s hheeding _ _ hact
      · exact removeAttribute_tracks hturn hapart k s hheeding _ _ hact
    obtain ⟨hheeding', rs, hheard, htracks⟩ := hlogged
    exact ⟨hheeding'.listed, rs, hheard, fun hfirst =>
      ⟨htracks.chain (hcalm rs hfirst), fun heq => (hk heq).elim⟩⟩

/-! ## A listener who takes back what is set -/

/-- Code of a listener that does as `p` says between its notes. -/
def heeding (l : ListenerId) (p : AttributeEvent → Program (List Hearing) .listener) :
    Listener (Code (List Hearing)) where
  id := l
  code := .ofAttributeListener fun event =>
    ((Notebook.plain Hearing).jot ⟨.told, l, event⟩).andThen fun _ =>
      (p event).andThen fun _ => (Notebook.plain Hearing).jot ⟨.done, l, event⟩

theorem heeds_heeding {h : Holder} {p : AttributeEvent → Program (List Hearing) .listener}
    (hp : ∀ event, (p event).Keeps (Request.edits h) (.plain Hearing)) (l : ListenerId) :
    (Notebook.plain Hearing).Heeds h (heeding l p) := fun event => ⟨p event, hp event, rfl⟩

def mark : AttributeKey := ⟨"mark", .int⟩

def eraser : Listener (Code (List Hearing)) :=
  heeding ⟨1⟩ fun _ => .request (.removeAttribute (.entity Forest.root) mark) fun _ => .done ()

def reader : Listener (Code (List Hearing)) := heeding ⟨2⟩ fun _ => .done ()

/-- Both listen to the mark of the root, the eraser first. -/
def disputed : Simulation (Code (List Hearing)) (List Hearing) :=
  (unheard Hearing).withAttributes (.entity Forest.root)
    { ((unheard Hearing).attributesOf (.entity Forest.root)) with listeners := [(mark, [eraser, reader])] }

theorem disputed_lived : disputed.Lived :=
  (unheard_lived _).run (n := 0) (r := .listener)
    (p := .subscribeTo (.entity Forest.root) mark ⟨1⟩ eraser.code fun _ =>
      .subscribeTo (.entity Forest.root) mark ⟨2⟩ reader.code fun _ => .done ()) rfl

theorem disputed_listenersOf (k : AttributeKey) :
    (disputed.attributesOf (.entity Forest.root)).listenersOf k =
      if mark = k then [eraser, reader] else [] := by
  change (Entries.get? k [(mark, [eraser, reader])]).getD [] = _
  by_cases hk : mark = k
  · simp [Entries.get?, hk]
  · simp [Entries.get?, hk]

theorem disputed_heeds (k : AttributeKey) :
    ∀ l ∈ (disputed.attributesOf (.entity Forest.root)).listenersOf k,
      (Notebook.plain Hearing).Heeds (.entity Forest.root) l := by
  have heraser : (Notebook.plain Hearing).Heeds (.entity Forest.root) eraser := by
    apply heeds_heeding
    intro _
    exact ⟨by decide, fun _ => trivial⟩
  have hreader : (Notebook.plain Hearing).Heeds (.entity Forest.root) reader := by
    apply heeds_heeding
    intro _
    trivial
  rw [disputed_listenersOf]
  split
  · simp [heraser, hreader]
  · simp

theorem disputed_set :
    ∃ a s', setAttribute (runCode 3) (.entity Forest.root) mark (.int 1) disputed = .ok (.ok a, s') ∧
      (s'.attributesOf (.entity Forest.root)).get? mark = none ∧
      (received mark reader.id s'.memory).map (fun e => (e.previous.isSome, e.value.isSome)) =
        [(true, false), (false, true)] := by
  obtain ⟨a, s', hact, hholds⟩ := endsWith_iff.mp (show endsWith
    (setAttribute (runCode 3) (.entity Forest.root) mark (.int 1)) disputed (fun a s =>
      a.isOk && ((s.attributesOf (.entity Forest.root)).get? mark).isNone &&
        (received mark reader.id s.memory).map (fun e => (e.previous.isSome, e.value.isSome)) ==
          [(true, false), (false, true)]) = true by decide +kernel)
  simp only [Bool.and_eq_true, beq_iff_eq, Option.isNone_iff_eq_none] at hholds
  obtain ⟨⟨hok, hnone⟩, hreceived⟩ := hholds
  cases a with
  | error e => cases hok
  | ok previous => exact ⟨previous, s', hact, hnone, hreceived⟩

/-- The reader is told last of the value that was set first, which has been removed by then. -/
theorem listener_may_end_with_old_value : disputed.Lived ∧
    (∀ key, ∀ l ∈ (disputed.attributesOf (.entity Forest.root)).listenersOf key,
      (Notebook.plain Hearing).Heeds (.entity Forest.root) l) ∧
    (disputed.attributesOf (.entity Forest.root)).listenersOf mark = [eraser, reader] ∧
    ∃ a s', setAttribute (runCode 3) (.entity Forest.root) mark (.int 1) disputed = .ok (.ok a, s') ∧
      (s'.attributesOf (.entity Forest.root)).get? mark = none ∧
      (received mark reader.id s'.memory).map (fun e => (e.previous.isSome, e.value.isSome)) =
        [(true, false), (false, true)] := by
  refine ⟨disputed_lived, disputed_heeds, ?_, disputed_set⟩
  rw [disputed_listenersOf, if_pos rfl]

theorem eraser_ends_with_current_value :
    ∃ a s', setAttribute (runCode 3) (.entity Forest.root) mark (.int 1) disputed = .ok (.ok a, s') ∧
      ∃ es e, received mark eraser.id s'.memory = es ++ [e] ∧ e.value = none ∧
        Chain none (es ++ [e]) none := by
  obtain ⟨a, s', hact, hnone, -⟩ := disputed_set
  have hlisted : (disputed.attributesOf (.entity Forest.root)).listenersOf mark =
      [] ++ eraser :: [reader] := by
    rw [disputed_listenersOf, if_pos rfl]
    rfl
  obtain ⟨-, rs, hheard, htold⟩ := listener_ends_with_current_value disputed_lived disputed_heeds
    (.inl ⟨_, _, hact⟩) mark [] eraser [reader] hlisted
  obtain ⟨hchain, hlast⟩ := htold (.inl rfl)
  obtain ⟨es, e, hreceived, hvalue⟩ := hlast rfl
  obtain rfl : s'.memory = rs := hheard
  rw [hnone, hreceived] at hchain
  exact ⟨a, s', hact, es, e, hreceived, hvalue.trans hnone, hchain⟩

end Vivarium
