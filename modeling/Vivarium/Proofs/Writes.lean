import Vivarium.Proofs.Listeners

/-! # Writing attributes

Of all that happens to a simulation, only a change of the set that an attribute is in touches the
attribute, and of these only one of its own key or the clearing of the set writes it. An attribute that
is not written keeps its value.
-/

namespace Vivarium

namespace AttributeSet

variable {β : Type} {a a' : AttributeSet β} {k : AttributeKey}

/-- A change of another key, or of who listens. -/
inductive EditBeside (k : AttributeKey) (a : AttributeSet β) : AttributeSet β → Prop
  | put {k' : AttributeKey} {v : Value} (hk : k' ≠ k) (hv : v.type = k'.type) : EditBeside k a (a.put k' v)
  | erase {k' : AttributeKey} (hk : k' ≠ k) : EditBeside k a (a.erase k')
  | subscribe (k' : AttributeKey) (l : Listener β) : EditBeside k a (a.subscribe k' l).2
  | unsubscribe (k' : AttributeKey) (id : ListenerId) : EditBeside k a (a.unsubscribe k' id).2

theorem EditBeside.edit (h : a.EditBeside k a') : a.Edit a' := by
  cases h with
  | put _ hv => exact .put hv
  | erase => exact .erase _
  | subscribe k' l => exact .subscribe k' l
  | unsubscribe k' id => exact .unsubscribe k' id

theorem EditBeside.get? (h : a.EditBeside k a') : a'.get? k = a.get? k := by
  cases h with
  | put hk => exact Entries.get?_put_of_ne hk _ _
  | erase hk => exact Entries.get?_erase_of_ne hk _
  | subscribe => rfl
  | unsubscribe k' id =>
    unfold AttributeSet.unsubscribe
    simp only
    split <;> rfl

end AttributeSet

namespace Simulation

variable {β μ : Type} {raw : EntityRef → Prop} {s s' s'' : Simulation β μ} {h h' : Holder} {k : AttributeKey}

/-- The holder was made. -/
def Holds (s : Simulation β μ) : Holder → Prop
  | .entity e => e.index < s.forest.size
  | .standalone i => i < s.standalone.size

theorem attributesOf_edit_self (hin : s.Holds h) (a : AttributeSet β) :
    (s.withAttributes h a).attributesOf h = a := by
  cases h with
  | entity e => exact congrArg Entity.attributes (Forest.entity_modify_self _ hin)
  | standalone i =>
    change (s.standalone.modify i fun _ => a).getD i _ = a
    rw [Array.getD_eq_getD_getElem?, Array.getElem?_modify, if_pos rfl, Array.getElem?_eq_getElem hin]
    rfl

/-- Who listens to something is there. -/
theorem holds_of_listeners (hl : (s.attributesOf h).listeners ≠ []) : s.Holds h := by
  apply Classical.byContradiction
  intro hout
  apply hl
  cases h with
  | entity e =>
    rw [attributesOf, Forest.entity_of_size_le (Nat.le_of_not_lt hout)]
    rfl
  | standalone i =>
    rw [attributesOf_standalone, Array.getD_eq_getD_getElem?,
      Array.getElem?_eq_none (Nat.le_of_not_lt hout)]
    rfl

theorem withAttributes_absent (hin : ¬s.Holds h) (a : AttributeSet β) :
    (s.withAttributes h a).attributesOf h = s.attributesOf h := by
  cases h with
  | entity e =>
    have hle : s.forest.size ≤ e.index := Nat.le_of_not_lt hin
    change ((s.forest.modify e _).entity e).attributes = (s.forest.entity e).attributes
    rw [Forest.entity_of_size_le hle, Forest.entity_of_size_le (by rwa [Forest.size_modify])]
  | standalone i =>
    have hle : s.standalone.size ≤ i := Nat.le_of_not_lt hin
    change (s.standalone.modify i fun _ => a).getD i _ = s.standalone.getD i _
    simp [Array.getD_eq_getD_getElem?, hle]

theorem attributesOf_edit_of_ne (hne : h' ≠ h) (a : AttributeSet β) :
    (s.withAttributes h' a).attributesOf h = s.attributesOf h := by
  cases h' with
  | entity e =>
    cases h with
    | entity e' =>
      have he : e' ≠ e := fun heq => hne (heq ▸ rfl)
      exact congrArg Entity.attributes (Forest.entity_modify_of_ne _ he)
    | standalone i => rfl
  | standalone i =>
    cases h with
    | entity e => rfl
    | standalone j =>
      have hi : i ≠ j := fun heq => hne (heq ▸ rfl)
      change (s.standalone.modify i fun _ => a).getD j _ = s.standalone.getD j _
      rw [Array.getD_eq_getD_getElem?, Array.getD_eq_getD_getElem?, Array.getElem?_modify, if_neg hi]

/-! ## Touches that write and touches that do not -/

/-- A touch that does not write the attribute. -/
inductive Bypasses (h : Holder) (k : AttributeKey) (s : Simulation β μ) : Simulation β μ → Prop
  | apart {s' : Simulation β μ} (ht : s.Touch (fun _ => True) s') (hsame : s'.attributesOf h = s.attributesOf h) :
    Bypasses h k s s'
  | beside {a : AttributeSet β} (ha : (s.attributesOf h).EditBeside k a) : Bypasses h k s (s.withAttributes h a)

inductive Writes (h : Holder) (k : AttributeKey) (s : Simulation β μ) : Simulation β μ → Prop
  | put {v : Value} (hv : v.type = k.type) : Writes h k s (s.withAttributes h ((s.attributesOf h).put k v))
  | erase : Writes h k s (s.withAttributes h ((s.attributesOf h).erase k))
  | clear : Writes h k s (s.withAttributes h (s.attributesOf h).clear)

theorem attributesOf_tree {f : Forest β} (hf : ∀ e, (f.entity e).attributes = (s.forest.entity e).attributes) :
    ({ s with forest := f } : Simulation β μ).attributesOf h = s.attributesOf h := by
  cases h with
  | entity e => exact hf e
  | standalone i => rfl

theorem attributesOf_modify {e : EntityRef} {g : Entity β → Entity β} (hg : ∀ x, (g x).attributes = x.attributes) :
    ({ s with forest := s.forest.modify e g } : Simulation β μ).attributesOf h = s.attributesOf h :=
  attributesOf_tree fun _ => Forest.field_modify (·.attributes) hg

/-- Whatever happens either spares an attribute or writes it. -/
theorem Touch.bypasses_or_writes (ht : s.Touch (fun _ => True) s') (hin : s.Holds h) (k : AttributeKey) :
    s.Bypasses h k s' ∨ s.Writes h k s' := by
  have hapart : s'.attributesOf h = s.attributesOf h → s.Bypasses h k s' ∨ s.Writes h k s' :=
    fun hsame => .inl (.apart ht hsame)
  cases ht with
  | engine | memory | register | resolve | validate | schedulers | drawId | bind =>
    apply hapart
    cases h <;> rfl
  | retask | cut | fall | mark | unmark | subscribe | unsubscribe =>
    apply hapart
    exact attributesOf_modify fun _ => rfl
  | markAs hact =>
    obtain ⟨change, rfl⟩ := remarks_of_mark hact
    exact hapart (attributesOf_modify fun _ => rfl)
  | unmarkAs hact =>
    obtain ⟨change, rfl⟩ := remarks_of_unmark hact
    exact hapart (attributesOf_modify fun _ => rfl)
  | newAttributes owner =>
    apply hapart
    cases h with
    | entity e => rfl
    | standalone i =>
      change (s.standalone.push _).getD i _ = s.standalone.getD i _
      rw [Array.getD_eq_getD_getElem?, Array.getD_eq_getD_getElem?, Array.getElem?_push_lt hin,
        Array.getElem?_eq_getElem hin]
  | create hp =>
    apply hapart
    cases h with
    | entity e =>
      exact Forest.field_insertChild (·.attributes) (fun _ _ => rfl) (Forest.index_lt_of_isAlive hp) hin _
    | standalone i => rfl
  | edit h' ha =>
    by_cases hh : h' = h
    · subst hh
      clear hapart
      cases ha with
      | @put k' v hv =>
        by_cases hk : k' = k
        · subst hk
          exact .inr (.put hv)
        · exact .inl (.beside (.put hk hv))
      | erase k' =>
        by_cases hk : k' = k
        · subst hk
          exact .inr .erase
        · exact .inl (.beside (.erase hk))
      | clear => exact .inr .clear
      | subscribe k' l => exact .inl (.beside (.subscribe k' l))
      | unsubscribe k' id => exact .inl (.beside (.unsubscribe k' id))
    · exact hapart (attributesOf_edit_of_ne hh _)

theorem Bypasses.touch (ht : s.Bypasses h k s') : s.Touch (fun _ => True) s' := by
  cases ht with
  | apart ht => exact ht
  | beside ha => exact .edit h ha.edit

theorem Bypasses.get? (ht : s.Bypasses h k s') : (s'.attributesOf h).get? k = (s.attributesOf h).get? k := by
  cases ht with
  | apart _ hsame => rw [hsame]
  | @beside a ha =>
    by_cases hin : s.Holds h
    · rw [attributesOf_edit_self hin]
      exact ha.get?
    · rw [withAttributes_absent hin]

/-! ## Courses without a write -/

/-- A course in which the attribute is not written. -/
def Unwritten (h : Holder) (k : AttributeKey) : Simulation β μ → Simulation β μ → Prop :=
  Relation.ReflTransGen (Bypasses h k)

namespace Unwritten

theorem touches (hc : s.Unwritten h k s') : s.Touches (fun _ => True) s' := by
  induction hc with
  | refl => exact .refl
  | tail _ ht ih => exact ih.tail ht.touch

theorem get? (hc : s.Unwritten h k s') : (s'.attributesOf h).get? k = (s.attributesOf h).get? k := by
  induction hc with
  | refl => rfl
  | tail _ ht ih => exact ht.get?.trans ih

end Unwritten

/-! ## Telling those who do not write -/

variable {run : Run β μ} {ls : List (Listener β)} {event : AttributeEvent} {value previous : Option Value}
  {v : Value} {why : Halt}

/-- The listener writes no attribute of the holder, wherever its code ends. -/
def ListensOnly (run : Run β μ) (h : Holder) (l : Listener β) : Prop :=
  ∀ event s s', run (.attributeEvent event) l.code s = .ok ((), s') → ∀ k, s.Unwritten h k s'

def tell (run : Run β μ) (event : AttributeEvent) (ls : List (Listener β)) : Act β μ PUnit :=
  ForIn.forIn ls PUnit.unit fun l _ =>
    run (.attributeEvent event) l.code >>= fun _ => Pure.pure (.yield PUnit.unit)

theorem tell_cons (l : Listener β) : tell run event (l :: ls) =
    run (.attributeEvent event) l.code >>= fun _ => tell run event ls := by
  unfold tell
  rw [List.forIn_cons, bind_assoc]
  rfl

theorem notify_eq (s : Simulation β μ) : notify run h k value previous s =
    (tell run ⟨(s.attributesOf h).owner, k, value, previous⟩ ((s.attributesOf h).listenersOf k) >>= fun _ =>
      Pure.pure ()) s := rfl

theorem tell_unwritten (hls : ∀ l ∈ ls, ListensOnly run h l) {u : PUnit}
    (hact : tell run event ls s = .ok (u, s')) (k : AttributeKey) : s.Unwritten h k s' := by
  induction ls generalizing s with
  | nil =>
    cases hact
    exact .refl
  | cons l ls ih =>
    obtain ⟨hl, hls⟩ := List.forall_mem_cons.mp hls
    rw [tell_cons] at hact
    obtain ⟨_, s₁, hfirst, hrest⟩ := bind_ok hact
    exact (hl event s s₁ hfirst k).trans (ih hls hrest)

theorem bind_error {α γ : Type} {act : Act β μ α} {next : α → Act β μ γ} (hact : (act >>= next) s = .error why) :
    act s = .error why ∨ ∃ a s₁, act s = .ok (a, s₁) ∧ next a s₁ = .error why := by
  cases hfirst : act s with
  | error why' =>
    rw [bind_of_error hfirst] at hact
    cases hact
    exact .inl rfl
  | ok p =>
    rw [bind_of_ok hfirst] at hact
    exact .inr ⟨p.1, p.2, rfl, hact⟩

/-- If telling has no result, then because the code of a listener has none. -/
theorem tell_fails (hact : tell run event ls s = .error why) :
    ∃ l ∈ ls, ∃ s₁, run (.attributeEvent event) l.code s₁ = .error why := by
  induction ls generalizing s with
  | nil => cases hact
  | cons l ls ih =>
    rw [tell_cons] at hact
    rcases bind_error hact with hfirst | ⟨_, _, -, hrest⟩
    · exact ⟨l, List.mem_cons_self, s, hfirst⟩
    · obtain ⟨l', hl', hfails⟩ := ih hrest
      exact ⟨l', List.mem_cons_of_mem _ hl', hfails⟩

theorem notify_fails (hact : notify run h k value previous s = .error why) :
    ∃ l ∈ (s.attributesOf h).listenersOf k, ∃ event s₁, run (.attributeEvent event) l.code s₁ = .error why := by
  rw [notify_eq] at hact
  rcases bind_error hact with htell | ⟨_, _, -, hdone⟩
  · obtain ⟨l, hl, s₁, hfails⟩ := tell_fails htell
    exact ⟨l, hl, _, s₁, hfails⟩
  · cases hdone

/-! ## Writing -/

theorem setAttribute_of_mismatch (hv : v.type ≠ k.type) :
    setAttribute run h k v s = .ok (.error (.typeMismatch k.name k.type v.type), s) := by
  unfold setAttribute
  rw [if_pos hv]
  rfl

theorem setAttribute_eq (hv : v.type = k.type) : setAttribute run h k v s =
    (notify run h k (some v) ((s.attributesOf h).get? k) >>= fun _ =>
      Pure.pure (.ok ((s.attributesOf h).get? k))) (s.withAttributes h ((s.attributesOf h).put k v)) := by
  unfold setAttribute
  rw [if_neg (fun hne => hne hv)]
  exact bind_of_ok (onAttributes_eq h _ s)

theorem removeAttribute_eq (h : Holder) (k : AttributeKey) (s : Simulation β μ) : removeAttribute run h k s =
    ((if ((s.attributesOf h).get? k).isSome then notify run h k none ((s.attributesOf h).get? k)
      else Pure.pure ()) >>= fun _ => Pure.pure ((s.attributesOf h).get? k))
        (s.withAttributes h ((s.attributesOf h).erase k)) := by
  unfold removeAttribute
  refine (bind_of_ok (onAttributes_eq h _ s)).trans ?_
  simp only
  split <;> rfl

/-- The attribute gets a value, or none, and no other attribute is written that the listeners do not
write. -/
structure Overwrites (run : Run β μ) (h : Holder) (k : AttributeKey) (value : Option Value)
    (s s' : Simulation β μ) : Prop where
  value : (s'.attributesOf h).get? k = value
  others : ∀ h' k', h' ≠ h ∨ k' ≠ k →
    (∀ l ∈ (s.attributesOf h).listenersOf k, ListensOnly run h' l) → s.Unwritten h' k' s'
  touches : s.Touches (fun _ => True) s'

theorem bypasses_other {a : AttributeSet β} {k' : AttributeKey} (ha : (s.attributesOf h).Edit a)
    (hbeside : ∀ k', k' ≠ k → (s.attributesOf h).EditBeside k' a) (hother : h' ≠ h ∨ k' ≠ k) :
    s.Bypasses h' k' (s.withAttributes h a) := by
  by_cases hh : h' = h
  · subst hh
    exact .beside (hbeside k' (hother.resolve_left (fun hne => hne rfl)))
  · exact .apart (.edit h ha) (attributesOf_edit_of_ne (Ne.symm hh) a)

section

variable (hin : s.Holds h) (hls : ∀ l ∈ (s.attributesOf h).listenersOf k, ListensOnly run h l)

include hin hls

theorem notify_overwrites {a : AttributeSet β} (ha : (s.attributesOf h).Edit a)
    (hbeside : ∀ k', k' ≠ k → (s.attributesOf h).EditBeside k' a)
    (hsame : a.listeners = (s.attributesOf h).listeners)
    (hact : notify run h k value previous (s.withAttributes h a) = .ok ((), s')) :
    s.Overwrites run h k (a.get? k) s' := by
  rw [notify_eq, attributesOf_edit_self hin] at hact
  obtain ⟨_, _, htell, hdone⟩ := bind_ok hact
  cases hdone
  -- The change leaves the listeners alone, so those are told who were there before it.
  have hlisteners : a.listenersOf k = (s.attributesOf h).listenersOf k := by
    rw [AttributeSet.listenersOf, hsame]
    rfl
  rw [hlisteners] at htell
  have hcourse := tell_unwritten hls htell k
  constructor
  · rw [hcourse.get?, attributesOf_edit_self hin]
  · intro h' k' hother hls'
    exact .head (bypasses_other ha hbeside hother) (tell_unwritten hls' htell k')
  · exact .head (.edit h ha) hcourse.touches

theorem setAttribute_overwrites (hv : v.type = k.type) {answer : Except EntityError (Option Value)}
    (hact : setAttribute run h k v s = .ok (answer, s')) :
    answer = .ok ((s.attributesOf h).get? k) ∧ s.Overwrites run h k (some v) s' := by
  rw [setAttribute_eq hv] at hact
  obtain ⟨_, _, hnotify, hdone⟩ := bind_ok hact
  cases hdone
  have hwritten := notify_overwrites hin hls (.put hv)
    (fun k' hk' => .put (Ne.symm hk') hv) rfl hnotify
  rw [AttributeSet.get?, AttributeSet.put, Entries.get?_put_self] at hwritten
  exact ⟨rfl, hwritten⟩

theorem removeAttribute_overwrites {answer : Option Value}
    (hact : removeAttribute run h k s = .ok (answer, s')) :
    answer = (s.attributesOf h).get? k ∧ s.Overwrites run h k none s' := by
  have herased : ((s.attributesOf h).erase k).get? k = none := Entries.get?_erase_self _ _
  have hbeside : ∀ k', k' ≠ k → (s.attributesOf h).EditBeside k' ((s.attributesOf h).erase k) :=
    fun k' hk' => .erase (Ne.symm hk')
  rw [removeAttribute_eq] at hact
  obtain ⟨_, _, htell, hdone⟩ := bind_ok hact
  cases hdone
  refine ⟨rfl, ?_⟩
  split at htell
  · have hwritten := notify_overwrites hin hls (.erase k) hbeside rfl htell
    rwa [herased] at hwritten
  · cases htell
    constructor
    · rw [attributesOf_edit_self hin, herased]
    · intro h' k' hother _
      exact .single (bypasses_other (.erase k) hbeside hother)
    · exact .single (.edit h (.erase k))

end

/-- A write has a result unless the code of a listener of the key has none. -/
theorem setAttribute_fails (hin : s.Holds h) (hact : setAttribute run h k v s = .error why) :
    ∃ l ∈ (s.attributesOf h).listenersOf k, ∃ event s₁, run (.attributeEvent event) l.code s₁ = .error why := by
  by_cases hv : v.type = k.type
  · rw [setAttribute_eq hv] at hact
    rcases bind_error hact with hnotify | ⟨_, _, -, hdone⟩
    · have hfails := notify_fails hnotify
      rwa [attributesOf_edit_self hin] at hfails
    · cases hdone
  · rw [setAttribute_of_mismatch hv] at hact
    cases hact

theorem removeAttribute_fails (hin : s.Holds h) (hact : removeAttribute run h k s = .error why) :
    ∃ l ∈ (s.attributesOf h).listenersOf k, ∃ event s₁, run (.attributeEvent event) l.code s₁ = .error why := by
  rw [removeAttribute_eq] at hact
  rcases bind_error hact with hnotify | ⟨_, _, -, hdone⟩
  · split at hnotify
    · have hfails := notify_fails hnotify
      rwa [attributesOf_edit_self hin] at hfails
    · cases hnotify
  · cases hdone

end Simulation

end Vivarium
