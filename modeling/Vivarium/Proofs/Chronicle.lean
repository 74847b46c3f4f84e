import Vivarium.Proofs.Mirrors

/-! # Sets of attributes keep to their history

Calls leave a set as its history says and answer what the history says, and listeners that leave the set
alone hear of exactly those calls that had an effect on their key.
-/

namespace Vivarium

namespace AttributeCall

variable {β μ : Type}

def carryOut (run : Run β μ) (h : Holder) : (c : AttributeCall β) → Act β μ c.Answer
  | .set k v => Simulation.setAttribute run h k v
  | .remove k => Simulation.removeAttribute run h k
  | .clear => Simulation.onAttributes h fun a => ((), a.clear)
  | .fire k => Simulation.fireAttribute run h k
  | .subscribe k l => Simulation.onAttributes h (·.subscribe k l)
  | .unsubscribe k id => Simulation.onAttributes h (·.unsubscribe k id)

def carryOutAll (run : Run β μ) (h : Holder) : List (AttributeCall β) → Act β μ Unit
  | [] => return ()
  | c :: cs => do
    let _ ← c.carryOut run h
    carryOutAll run h cs

end AttributeCall

open AttributeCall

namespace Simulation

variable {β μ : Type} {run : Run β μ} {heard : μ → List (ListenerId × AttributeEvent)} {h : Holder}
  {s s' s'' : Simulation β μ} {log log' : List (ListenerId × AttributeEvent)}

/-- The set is as it was, and this was heard. -/
structure Hears (heard : μ → List (ListenerId × AttributeEvent)) (h : Holder)
    (log : List (ListenerId × AttributeEvent)) (s s' : Simulation β μ) : Prop where
  holds : s.Holds h → s'.Holds h
  same : s'.attributesOf h = s.attributesOf h
  log : heard s'.memory = heard s.memory ++ log

theorem Hears.refl (s : Simulation β μ) : s.Hears heard h [] s :=
  ⟨id, rfl, (List.append_nil _).symm⟩

theorem Hears.trans (hfirst : s.Hears heard h log s') (hrest : s'.Hears heard h log' s'') :
    s.Hears heard h (log ++ log') s'' :=
  ⟨hrest.holds ∘ hfirst.holds, hrest.same.trans hfirst.same, by
    rw [hrest.log, hfirst.log, List.append_assoc]⟩

/-- The listener notes each event once, comes to an end and leaves the set alone. -/
def Attentive (run : Run β μ) (heard : μ → List (ListenerId × AttributeEvent)) (h : Holder)
    (l : Listener β) : Prop :=
  ∀ event s, ∃ s', run (.attributeEvent event) l.code s = .ok ((), s') ∧
    s.Hears heard h [(l.id, event)] s'

theorem tell_hears {ls : List (Listener β)} (hls : ∀ l ∈ ls, Attentive run heard h l) (event : AttributeEvent)
    (s : Simulation β μ) : ∃ s', tell run event ls s = .ok (⟨⟩, s') ∧
      s.Hears heard h ((ls.map (·.id)).map (·, event)) s' := by
  induction ls generalizing s with
  | nil => exact ⟨s, rfl, .refl s⟩
  | cons l ls ih =>
    obtain ⟨hl, hls⟩ := List.forall_mem_cons.mp hls
    obtain ⟨s₁, hfirst, hheard⟩ := hl event s
    obtain ⟨s₂, hrest, hheard'⟩ := ih hls s₁
    rw [tell_cons]
    exact ⟨s₂, (bind_of_ok hfirst).trans hrest, hheard.trans hheard'⟩

theorem notify_hears {k : AttributeKey}
    (hls : ∀ l ∈ (s.attributesOf h).listenersOf k, Attentive run heard h l)
    (value previous : Option Value) : ∃ s', notify run h k value previous s = .ok ((), s') ∧
      s.Hears heard h ((((s.attributesOf h).listenersOf k).map (·.id)).map
        (·, ⟨(s.attributesOf h).owner, k, value, previous⟩)) s' := by
  obtain ⟨s', htell, hheard⟩ := tell_hears hls ⟨(s.attributesOf h).owner, k, value, previous⟩ s
  rw [notify_eq]
  exact ⟨s', bind_of_ok htell, hheard⟩

/-- After these calls the set is as they say, and its listeners attend to it. -/
structure Keeps (run : Run β μ) (heard : μ → List (ListenerId × AttributeEvent)) (h : Holder)
    (owner : EntityId) (past : List (AttributeCall β)) (s : Simulation β μ) : Prop where
  holds : s.Holds h
  mirrors : (s.attributesOf h).Mirrors past owner
  attentive : ∀ k, ∀ l ∈ (s.attributesOf h).listenersOf k, Attentive run heard h l

theorem holds_withAttributes (h : Holder) (a : AttributeSet β) (s : Simulation β μ) :
    (s.withAttributes h a).Holds h ↔ s.Holds h := by
  cases h with
  | entity e =>
    change e.index < (s.forest.modify e _).size ↔ e.index < s.forest.size
    rw [Forest.size_modify]
  | standalone i =>
    change i < (s.standalone.modify i _).size ↔ i < s.standalone.size
    rw [Array.size_modify]

theorem memory_withAttributes (h : Holder) (a : AttributeSet β) (s : Simulation β μ) :
    (s.withAttributes h a).memory = s.memory := by
  cases h <;> rfl

theorem listenersOf_apply {c : AttributeCall β} {a : AttributeSet β} {k : AttributeKey} {l : Listener β}
    (hl : l ∈ (c.apply a).listenersOf k) : l ∈ a.listenersOf k ∨ ∃ k', c = .subscribe k' l := by
  have hput : ∀ (k' : AttributeKey) (ls : List (Listener β)),
      l ∈ AttributeSet.listenersOf k { a with listeners := Entries.put k' ls a.listeners } →
        l ∈ a.listenersOf k ∨ k' = k ∧ l ∈ ls := by
    intro k' ls hl
    rw [AttributeSet.listenersOf] at hl
    by_cases hk : k' = k
    · subst hk
      rw [Entries.get?_put_self] at hl
      exact Or.inr ⟨rfl, hl⟩
    · rw [Entries.get?_put_of_ne hk] at hl
      exact Or.inl hl
  cases c with
  | set k' v =>
    rw [AttributeCall.apply] at hl
    split at hl <;> exact Or.inl hl
  | remove | clear | fire => exact Or.inl hl
  | subscribe k' l' =>
    rcases hput k' _ hl with hold | ⟨rfl, hnew⟩
    · exact Or.inl hold
    · rcases Listener.mem_subscribe hnew with hold | rfl
      · exact Or.inl hold
      · exact Or.inr ⟨k', rfl⟩
  | unsubscribe k' id =>
    unfold AttributeCall.apply AttributeSet.unsubscribe at hl
    simp only at hl
    split at hl
    · rcases hput k' _ hl with hold | ⟨rfl, hleft⟩
      · exact Or.inl hold
      · exact Or.inl (List.mem_filter.mp hleft).1
    · exact Or.inl hl

variable {owner : EntityId} {past : List (AttributeCall β)} {c : AttributeCall β}

theorem Keeps.notifies (hs : s.Keeps run heard h owner past) (k : AttributeKey) {a : AttributeSet β}
    (hlisteners : a.listeners = (s.attributesOf h).listeners) (howner : a.owner = (s.attributesOf h).owner)
    (value previous : Option Value) :
    ∃ s', notify run h k value previous (s.withAttributes h a) = .ok ((), s') ∧ s'.Holds h ∧
      s'.attributesOf h = a ∧ heard s'.memory =
        heard s.memory ++ (subscribers k past).map (·, ⟨owner, k, value, previous⟩) := by
  have hsame : (s.withAttributes h a).attributesOf h = a := attributesOf_edit_self hs.holds a
  have hof : a.listenersOf k = (s.attributesOf h).listenersOf k := by
    rw [AttributeSet.listenersOf, hlisteners]
    rfl
  have hls : ∀ l ∈ ((s.withAttributes h a).attributesOf h).listenersOf k, Attentive run heard h l := by
    rw [hsame, hof]
    exact hs.attentive k
  obtain ⟨s', hact, hheard⟩ := notify_hears hls value previous
  refine ⟨s', hact, hheard.holds ((holds_withAttributes h a s).mpr hs.holds), hheard.same.trans hsame, ?_⟩
  rw [hheard.log, memory_withAttributes, hsame, hof, hs.mirrors.subscribed, howner, hs.mirrors.owner]

/-- A call is carried out, answered and heard of as the history says. -/
def Obliges (run : Run β μ) (heard : μ → List (ListenerId × AttributeEvent)) (h : Holder)
    (owner : EntityId) (past : List (AttributeCall β)) (s : Simulation β μ) (c : AttributeCall β) : Prop :=
  ∃ s', c.carryOut run h s = .ok (c.answered past, s') ∧ s'.Holds h ∧
    s'.attributesOf h = c.apply (s.attributesOf h) ∧
    heard s'.memory = heard s.memory ++ c.delivered owner past

namespace Keeps

variable (hs : s.Keeps run heard h owner past)

include hs

/-- A change of which nobody is told. -/
theorem silently {a : AttributeSet β}
    (hact : c.carryOut run h s = .ok (c.answered past, s.withAttributes h a))
    (ha : a = c.apply (s.attributesOf h)) (hc : c.delivered owner past = []) :
    s.Obliges run heard h owner past c := by
  refine ⟨_, hact, (holds_withAttributes h a s).mpr hs.holds,
    (attributesOf_edit_self hs.holds a).trans ha, ?_⟩
  rw [hc, memory_withAttributes, List.append_nil]

theorem set (k : AttributeKey) (v : Value) : s.Obliges run heard h owner past (.set k v) := by
  unfold Obliges AttributeCall.carryOut AttributeCall.answered AttributeCall.apply delivered
    AttributeCall.tells
  by_cases hv : v.type = k.type
  · obtain ⟨s', hact, hholds, happlied, hlog⟩ :=
      hs.notifies k (a := (s.attributesOf h).put k v) rfl rfl (some v) ((s.attributesOf h).get? k)
    simp only [hv, if_true]
    refine ⟨s', ?_, hholds, happlied, ?_⟩
    · rw [setAttribute_eq hv, bind_of_ok hact, ← hs.mirrors.get?]
      rfl
    · rw [hlog, hs.mirrors.get?, standing, if_pos ⟨rfl, hv⟩]
  · simp only [hv, if_false]
    exact ⟨s, setAttribute_of_mismatch hv, hs.holds, rfl, (List.append_nil _).symm⟩

theorem remove (k : AttributeKey) : s.Obliges run heard h owner past (.remove k) := by
  have hget := hs.mirrors.get? k
  cases hstanding : standing k past with
  | none =>
    apply hs.silently (a := (s.attributesOf h).erase k) _ rfl
    · rw [delivered, AttributeCall.tells, hstanding]
      rfl
    · rw [AttributeCall.carryOut, removeAttribute_eq, hget, hstanding, AttributeCall.answered, hstanding]
      rfl
  | some v =>
    obtain ⟨s', hact, hholds, happlied, hlog⟩ :=
      hs.notifies k (a := (s.attributesOf h).erase k) rfl rfl none ((s.attributesOf h).get? k)
    refine ⟨s', ?_, hholds, happlied, ?_⟩
    · rw [AttributeCall.carryOut, removeAttribute_eq, AttributeCall.answered, ← hget]
      rw [hget, hstanding] at hact ⊢
      exact bind_of_ok hact
    · have htells : AttributeCall.tells past (.remove k) = some k := by
        rw [AttributeCall.tells, hstanding]
        rfl
      rw [hlog, hget, delivered_of_tells htells, standing, if_pos rfl]

theorem fire (k : AttributeKey) : s.Obliges run heard h owner past (.fire k) := by
  have hget := hs.mirrors.get? k
  cases hstanding : standing k past with
  | none =>
    refine ⟨s, ?_, hs.holds, rfl, ?_⟩
    · refine (bind_of_ok rfl).trans ?_
      rw [hget, hstanding]
      rfl
    · rw [delivered, AttributeCall.tells, hstanding]
      exact (List.append_nil _).symm
  | some v =>
    obtain ⟨s', hact, hheard⟩ := notify_hears (hs.attentive k) (some v) (some v)
    refine ⟨s', ?_, hheard.holds hs.holds, hheard.same, ?_⟩
    · refine (bind_of_ok rfl).trans ?_
      rw [hget, hstanding]
      exact hact
    · have htells : AttributeCall.tells past (.fire k) = some k := by rw [AttributeCall.tells, hstanding]; rfl
      have hstays : standing k (.fire k :: past) = some v := hstanding
      rw [hheard.log, hs.mirrors.subscribed, hs.mirrors.owner, delivered_of_tells htells, hstays, hstanding]

theorem obliges (c : AttributeCall β) : s.Obliges run heard h owner past c := by
  cases c with
  | set k v => exact hs.set k v
  | remove k => exact hs.remove k
  | clear => exact hs.silently (onAttributes_eq h (fun a => ((), a.clear)) s) rfl rfl
  | fire k => exact hs.fire k
  | subscribe k l =>
    apply hs.silently (a := ((s.attributesOf h).subscribe k l).2) _ rfl rfl
    rw [AttributeCall.carryOut, onAttributes_eq, AttributeCall.answered, ← hs.mirrors.subscribed,
      ← Listener.subscribe_fst]
    rfl
  | unsubscribe k id =>
    apply hs.silently (a := ((s.attributesOf h).unsubscribe k id).2) _ rfl rfl
    rw [AttributeCall.carryOut, onAttributes_eq, AttributeCall.answered, ← hs.mirrors.subscribed,
      ← Listener.unsubscribe_fst]
    rfl

/-- After the call the set is as the longer history says. -/
theorem carryOut (c : AttributeCall β) (hc : ∀ k l, c = .subscribe k l → Attentive run heard h l) :
    ∃ s', c.carryOut run h s = .ok (c.answered past, s') ∧ s'.Keeps run heard h owner (c :: past) ∧
      heard s'.memory = heard s.memory ++ c.delivered owner past := by
  obtain ⟨s', hact, hholds, happlied, hlog⟩ := hs.obliges c
  refine ⟨s', hact, ⟨hholds, ?_, fun k l hl => ?_⟩, hlog⟩
  · rw [happlied]
    exact hs.mirrors.apply c
  · rw [happlied] at hl
    rcases listenersOf_apply hl with hold | ⟨k', heq⟩
    · exact hs.attentive k l hold
    · exact hc k' l heq

theorem carryOutAll (cs : List (AttributeCall β))
    (hcs : ∀ k l, .subscribe k l ∈ cs → Attentive run heard h l) {before : List (ListenerId × AttributeEvent)}
    (hbefore : heard s.memory = before ++ AttributeCall.log owner past) :
    ∃ s', AttributeCall.carryOutAll run h cs s = .ok ((), s') ∧
      s'.Keeps run heard h owner (cs.reverse ++ past) ∧
      heard s'.memory = before ++ AttributeCall.log owner (cs.reverse ++ past) := by
  induction cs generalizing s past with
  | nil => exact ⟨s, rfl, hs, hbefore⟩
  | cons c cs ih =>
    obtain ⟨s₁, hact, hs₁, hlog⟩ := hs.carryOut c fun k l hc => hcs k l (hc ▸ List.mem_cons_self)
    have hheard : heard s₁.memory = before ++ AttributeCall.log owner (c :: past) := by
      rw [hlog, hbefore, List.append_assoc]
      rfl
    obtain ⟨s₂, hrest, hs₂, hlog₂⟩ := ih hs₁ (fun k l hl => hcs k l (List.mem_cons_of_mem _ hl)) hheard
    rw [List.reverse_cons, List.append_assoc]
    exact ⟨s₂, (bind_of_ok hact).trans hrest, hs₂, hlog₂⟩

end Keeps

end Simulation

open Simulation

/-- A set of attributes that was new is as the calls on it say, whatever they are, if its listeners leave
it alone. It holds the values that were set last, each of the type of its key, in the order in which the
keys came in. A value of another type is refused and changes nothing. The listeners were told of the calls
that had an effect, each subscriber of the key once, in the order of subscription, with the values after
and before the call, and of nothing else. -/
theorem attribute_sets_keep_an_exact_log {β μ : Type} {run : Run β μ}
    {heard : μ → List (ListenerId × AttributeEvent)} {h : Holder} {owner : EntityId} {s : Simulation β μ}
    (hin : s.Holds h) (hnew : s.attributesOf h = ⟨owner, [], []⟩) (cs : List (AttributeCall β))
    (hcs : ∀ k l, .subscribe k l ∈ cs → Attentive run heard h l) :
    ∃ s', carryOutAll run h cs s = .ok ((), s') ∧
      (∀ k v, (k, v) ∈ (s'.attributesOf h).values ↔ standing k cs.reverse = some v) ∧
      (∀ k v, (k, v) ∈ (s'.attributesOf h).values → v.type = k.type) ∧
      ((Entries.keys (s'.attributesOf h).values).Pairwise fun k k' =>
        ∃ m n, since k cs.reverse = some m ∧ since k' cs.reverse = some n ∧ m < n) ∧
      (∀ k, ((s'.attributesOf h).listenersOf k).map (·.id) = subscribers k cs.reverse ∧
        (subscribers k cs.reverse).Nodup) ∧
      heard s'.memory = heard s.memory ++ log owner cs.reverse ∧
      ∀ c : AttributeCall β, (∀ k l, c = .subscribe k l → Attentive run heard h l) →
        ∃ s'', c.carryOut run h s' = .ok (c.answered cs.reverse, s'') ∧
          (∀ k v, c = .set k v → v.type ≠ k.type → s'' = s') ∧
          (c.tells cs.reverse = none → heard s''.memory = heard s'.memory) ∧
          ∀ k, c.tells cs.reverse = some k → ∃ event : AttributeEvent,
            heard s''.memory = heard s'.memory ++ (subscribers k cs.reverse).map (·, event) ∧
            event = ⟨owner, k, (s''.attributesOf h).get? k, (s'.attributesOf h).get? k⟩ ∧
            (event.change = .added ↔ (s'.attributesOf h).get? k = none) ∧
            (event.change = .removed ↔ (s''.attributesOf h).get? k = none) := by
  have hkeeps : s.Keeps run heard h owner [] := by
    refine ⟨hin, hnew ▸ .empty owner, fun k l hl => ?_⟩
    rw [hnew] at hl
    cases hl
  obtain ⟨s', hact, hs', hlog⟩ := hkeeps.carryOutAll cs hcs (List.append_nil _).symm
  rw [List.append_nil] at hs' hlog
  refine ⟨s', hact, fun _ _ => hs'.mirrors.mem_iff, fun k v hv => standing_type (hs'.mirrors.mem_iff.mp hv),
    hs'.mirrors.order, fun k => ⟨hs'.mirrors.subscribed k, nodup_subscribers k _⟩, hlog, fun c hc => ?_⟩
  obtain ⟨s'', hcall, hs'', hheard⟩ := hs'.carryOut c hc
  refine ⟨s'', hcall, ?_, fun hnone => ?_, fun k hk => ?_⟩
  · rintro k v rfl hv
    have hrefused : setAttribute run h k v s' = .ok (.error (.typeMismatch k.name k.type v.type), s') :=
      setAttribute_of_mismatch hv
    rw [AttributeCall.carryOut, hrefused] at hcall
    exact (congrArg Prod.snd (Except.ok.inj hcall)).symm
  · rw [hheard, delivered, hnone]
    exact List.append_nil _
  · refine ⟨_, hheard.trans (congrArg _ (delivered_of_tells hk)), ?_, ?_⟩
    · rw [hs''.mirrors.get?, hs'.mirrors.get?]
    · rw [hs''.mirrors.get?, hs'.mirrors.get?]
      exact change_of_tells hk owner

/-- A listener that writes down what it is told, and by which name it was told. -/
def scribe (id : ListenerId) : Code (List (ListenerId × AttributeEvent)) :=
  .ofAttributeListener fun event => .memory (· ++ [(id, event)]) fun _ => .done ()

theorem scribe_attentive (n : Nat) (h : Holder) (id : ListenerId) :
    Attentive (runCode (n + 1)) (fun notes => notes) h ⟨id, scribe id⟩ := by
  intro event s
  refine ⟨{ s with memory := s.memory ++ [(id, event)] }, rfl, fun hin => ?_, ?_, rfl⟩
  · cases h <;> exact hin
  · cases h <;> rfl

def ledger : Simulation (Code (List (ListenerId × AttributeEvent))) (List (ListenerId × AttributeEvent)) :=
  create { config := EngineConfig.standard 1, meter := { ticksPerSecond := 10 } } false none []

/-- A height is set, set anew, refused as a text, removed and set again; two listeners come in between. -/
def measurements : List (AttributeCall (Code (List (ListenerId × AttributeEvent)))) :=
  [.set ⟨"height", .int⟩ (.int 1), .subscribe ⟨"height", .int⟩ ⟨⟨7⟩, scribe ⟨7⟩⟩,
    .set ⟨"height", .int⟩ (.int 2), .set ⟨"height", .int⟩ (.string "tall"), .remove ⟨"height", .int⟩,
    .subscribe ⟨"height", .int⟩ ⟨⟨8⟩, scribe ⟨8⟩⟩, .fire ⟨"height", .int⟩, .set ⟨"height", .int⟩ (.int 3)]

theorem measurements_are_logged : ∃ s',
    carryOutAll (runCode 1) (.entity Forest.root) measurements ledger = .ok ((), s') ∧
    s'.memory = [(⟨7⟩, ⟨.drawn 0, ⟨"height", .int⟩, some (.int 2), some (.int 1)⟩),
      (⟨7⟩, ⟨.drawn 0, ⟨"height", .int⟩, none, some (.int 2)⟩),
      (⟨7⟩, ⟨.drawn 0, ⟨"height", .int⟩, some (.int 3), none⟩),
      (⟨8⟩, ⟨.drawn 0, ⟨"height", .int⟩, some (.int 3), none⟩)] := by
  have hin : ledger.Holds (.entity Forest.root) := Nat.zero_lt_one
  have hlisteners : ∀ k l, .subscribe k l ∈ measurements →
      Attentive (runCode 1) (fun notes => notes) (.entity Forest.root) l := by
    intro k l hl
    simp only [measurements, List.mem_cons, reduceCtorEq, subscribe.injEq, List.not_mem_nil, false_or,
      or_false] at hl
    rcases hl with ⟨-, rfl⟩ | ⟨-, rfl⟩ <;> exact scribe_attentive 0 _ _
  have hnew : ledger.attributesOf (.entity Forest.root) = ⟨.drawn 0, [], []⟩ := rfl
  obtain ⟨s', hact, -, -, -, -, hlog, -⟩ :=
    attribute_sets_keep_an_exact_log hin hnew measurements hlisteners
  exact ⟨s', hact, hlog⟩

end Vivarium
