import Mathlib.Data.List.Chain
import Mathlib.Data.List.Perm.Subperm
import Vivarium.Proofs.Inheritance

/-! # Ancestors

The ancestors of a type are looked for depth first, through the parents of each in the order of their
declaration, and a type that was met before is climbed to again. The search ends, as it climbs only
along paths without repetition in a finite registry. It succeeds for the founded types and no others,
and whatever it fails with is to be seen above the type.
-/

namespace Vivarium

namespace TypeRegistry

open Relation

variable {β : Type} {r : TypeRegistry β} {a b p type : TypeName} {depth : Nat} {e : TypeError}
  {path parents types ts found : List TypeName} {out : Except TypeError (List TypeName)}

/-! ## The order of first encounter -/

/-- Climbing from each of `types` in turn, depth first, meets `ts`. -/
inductive Climbs (r : TypeRegistry β) : (types ts : List TypeName) → Prop
  | nil : Climbs r [] []
  | cons {type : TypeName} {types above rest : List TypeName} (habove : Climbs r (r.parentsOf type) above)
    (hrest : Climbs r types rest) : Climbs r (type :: types) (type :: above ++ rest)

namespace Climbs

theorem unique {ts' : List TypeName} (h : r.Climbs types ts) (h' : r.Climbs types ts') : ts = ts' := by
  induction h generalizing ts' with
  | nil =>
    cases h'
    rfl
  | cons _ _ ihabove ihrest =>
    cases h' with
    | cons habove' hrest' => rw [ihabove habove', ihrest hrest']

theorem mem_iff (h : r.Climbs types ts) : a ∈ ts ↔ ∃ t ∈ types, r.IsA t a := by
  induction h with
  | nil => simp
  | @cons type types above rest _ _ ihabove ihrest =>
    rw [List.cons_append, List.mem_cons, List.mem_append, ihabove, ihrest]
    constructor
    · rintro (rfl | ⟨p, hp, ha⟩ | ⟨t, ht, ha⟩)
      · exact ⟨a, List.mem_cons_self, .refl⟩
      · exact ⟨type, List.mem_cons_self, .head hp ha⟩
      · exact ⟨t, List.mem_cons_of_mem _ ht, ha⟩
    · rintro ⟨t, ht, ha⟩
      rcases List.mem_cons.mp ht with rfl | ht
      · rcases ReflTransGen.cases_head_iff.mp ha with rfl | ⟨p, hp, ha⟩
        · exact Or.inl rfl
        · exact Or.inr (Or.inl ⟨p, hp, ha⟩)
      · exact Or.inr (Or.inr ⟨t, ht, ha⟩)

/-- Whoever is met above a type is one that it inherits from. -/
theorem inherits_iff (h : r.Climbs (r.parentsOf type) ts) : a ∈ ts ↔ r.Inherits type a := by
  rw [h.mem_iff]
  constructor
  · rintro ⟨p, hp, ha⟩
    exact .head' hp ha
  · intro ha
    obtain ⟨p, hp, ha⟩ := TransGen.head'_iff.mp ha
    exact ⟨p, hp, ha⟩

end Climbs

/-! ## The search ends -/

/-- At the end of `path`, the search through `parents` ends with `out`; `found` were found before it. -/
inductive Seeks (r : TypeRegistry β) :
    (path parents found : List TypeName) → (out : Except TypeError (List TypeName)) → Prop
  | done {path found : List TypeName} : Seeks r path [] found (.ok found)
  | loop {path ps found : List TypeName} {p : TypeName} (hp : p ∈ path) :
    Seeks r path (p :: ps) found (.error (.cyclicInheritance (path ++ [p])))
  | unknown {path ps found : List TypeName} {p : TypeName} (hp : p ∉ path)
    (hno : r.isRegistered p = false) : Seeks r path (p :: ps) found (.error (.unknownType p))
  | fail {path ps found : List TypeName} {p : TypeName} {e : TypeError} (hp : p ∉ path)
    (hreg : r.isRegistered p = true)
    (habove : Seeks r (path ++ [p]) (r.parentsOf p) (Distinct.add p found) (.error e)) :
    Seeks r path (p :: ps) found (.error e)
  | climb {path ps found found' : List TypeName} {p : TypeName} {out : Except TypeError (List TypeName)}
    (hp : p ∉ path) (hreg : r.isRegistered p = true)
    (habove : Seeks r (path ++ [p]) (r.parentsOf p) (Distinct.add p found) (.ok found'))
    (hrest : Seeks r path ps found' out) : Seeks r path (p :: ps) found out

/-- The search for the ancestors of a type ends with `out`. -/
def Settles (type : TypeName) (out : Except TypeError (List TypeName)) (r : TypeRegistry β) : Prop :=
  r.isRegistered type = false ∧ out = .error (.unknownType type) ∨
    r.isRegistered type = true ∧ r.Seeks [type] (r.parentsOf type) [] out

/-- The search at the end of `path`, no more than `depth` levels up. -/
def seek (depth : Nat) (path parents found : List TypeName) (r : TypeRegistry β) :
    Except TypeError (List TypeName) :=
  parents.foldlM (fun found p =>
    if path.contains p then .error (.cyclicInheritance (path ++ [p]))
    else r.ancestorsFrom depth p (path ++ [p]) (Distinct.add p found)) found

theorem lookup_of_unknown (h : r.isRegistered type = false) :
    r.lookup type = .error (.unknownType type) := by
  have hnone : r.decl? type = none := by
    cases hd : r.decl? type with
    | none => rfl
    | some d =>
      have hsome : r.isRegistered type = true := by
        change (r.decl? type).isSome = true
        rw [hd]
        rfl
      rw [h] at hsome
      cases hsome
  rw [lookup, hnone]

theorem ancestorsFrom_of_known (h : r.isRegistered type = true) :
    r.ancestorsFrom (depth + 1) type path found = r.seek depth path (r.parentsOf type) found := by
  obtain ⟨d, hlookup, hparents, -⟩ := lookup_of_known h
  rw [ancestorsFrom, hlookup, ← hparents]
  rfl

theorem ancestorsFrom_of_unknown (h : r.isRegistered type = false) :
    r.ancestorsFrom (depth + 1) type path found = .error (.unknownType type) := by
  rw [ancestorsFrom, lookup_of_unknown h]
  rfl

theorem seek_cons_of_mem (h : p ∈ path) : r.seek depth path (p :: parents) found =
    .error (.cyclicInheritance (path ++ [p])) := by
  rw [seek, List.foldlM_cons, if_pos (List.contains_iff_mem.mpr h)]
  rfl

theorem seek_cons (h : p ∉ path) : r.seek depth path (p :: parents) found =
    r.ancestorsFrom depth p (path ++ [p]) (Distinct.add p found) >>= fun found =>
      r.seek depth path parents found := by
  rw [seek, List.foldlM_cons, if_neg fun hin => h (List.contains_iff_mem.mp hin)]
  rfl

/-- Only registered types, each once. -/
structure Trail (path : List TypeName) (r : TypeRegistry β) : Prop where
  once : path.Nodup
  known : ∀ t ∈ path, r.isRegistered t = true

theorem Trail.length_le (h : r.Trail path) : path.length ≤ r.decls.length := by
  have hsub : path ⊆ r.registered := fun t ht => Entries.get?_isSome_iff.mp (h.known t ht)
  have hle := (List.subperm_of_subset h.once hsub).length_le
  rwa [registered, Entries.keys, List.length_map] at hle

theorem Trail.concat (h : r.Trail path) (hp : p ∉ path) (hreg : r.isRegistered p = true) :
    r.Trail (path ++ [p]) := by
  constructor
  · exact List.nodup_append.mpr ⟨h.once, List.pairwise_singleton _ p, by
      rintro t ht _ hp' rfl
      exact hp (List.mem_singleton.mp hp' ▸ ht)⟩
  · intro t ht
    rcases List.mem_append.mp ht with ht | ht
    · exact h.known t ht
    · rw [List.mem_singleton.mp ht]
      exact hreg

/-- Where path and depth are together longer than the registry, the depth is enough. -/
theorem Trail.seeks (h : r.Trail path) (hdepth : r.decls.length < depth + path.length)
    (parents found : List TypeName) : r.Seeks path parents found (r.seek depth path parents found) := by
  induction depth generalizing path parents found with
  | zero =>
    have hle := h.length_le
    omega
  | succ depth ih =>
    induction parents generalizing found with
    | nil => exact .done
    | cons p parents ihrest =>
      by_cases hp : p ∈ path
      · rw [seek_cons_of_mem hp]
        exact .loop hp
      rw [seek_cons hp]
      cases hreg : r.isRegistered p with
      | false =>
        rw [ancestorsFrom_of_unknown hreg]
        exact .unknown hp hreg
      | true =>
        have hlonger : r.decls.length < depth + (path ++ [p]).length := by
          rw [List.length_append, List.length_singleton]
          omega
        have habove := ih (h.concat hp hreg) hlonger (r.parentsOf p) (Distinct.add p found)
        rw [ancestorsFrom_of_known hreg]
        cases hout : r.seek depth (path ++ [p]) (r.parentsOf p) (Distinct.add p found) with
        | error e =>
          rw [hout] at habove
          exact .fail hp hreg habove
        | ok found' =>
          rw [hout] at habove
          exact .climb hp hreg habove (ihrest found')

theorem ancestors_settles (type : TypeName) (r : TypeRegistry β) : r.Settles type (r.ancestors type) := by
  rw [ancestors]
  cases hreg : r.isRegistered type with
  | false => exact Or.inl ⟨hreg, ancestorsFrom_of_unknown hreg⟩
  | true =>
    have htrail : r.Trail [type] := by
      constructor
      · exact List.pairwise_singleton _ type
      · intro t ht
        rwa [List.mem_singleton.mp ht]
    rw [ancestorsFrom_of_known hreg]
    exact Or.inr ⟨hreg, htrail.seeks (Nat.lt_succ_self _) _ _⟩

/-! ## What is found -/

theorem Founded.of_parents (hreg : r.isRegistered type = true)
    (h : ∀ p ∈ r.parentsOf type, r.Founded p ∧ ¬r.IsA p type) : r.Founded type := by
  have hcases : ∀ {a}, r.IsA type a → a = type ∨ ∃ p ∈ r.parentsOf type, r.IsA p a := by
    intro a ha
    rcases ReflTransGen.cases_head_iff.mp ha with rfl | ⟨p, hp, ha⟩
    · exact Or.inl rfl
    · exact Or.inr ⟨p, hp, ha⟩
  constructor
  · intro a ha
    rcases hcases ha with rfl | ⟨p, hp, ha⟩
    · exact hreg
    · exact (h p hp).1.registered a ha
  · intro a ha hback
    rcases hcases ha with rfl | ⟨p, hp, ha⟩
    · obtain ⟨p, hp, hback⟩ := TransGen.head'_iff.mp hback
      exact (h p hp).2 hback
    · exact (h p hp).1.acyclic a ha hback

/-- A search that succeeds has climbed to everybody above, and met nobody of its path. -/
theorem Seeks.climbs (h : r.Seeks path parents found out) {found' : List TypeName}
    (hout : out = .ok found') : ∃ ts, r.Climbs parents ts ∧ found' = Distinct.addAll ts found ∧
      ∀ p ∈ parents, r.Founded p ∧ ∀ a, r.IsA p a → a ∉ path := by
  induction h generalizing found' with
  | done =>
    cases hout
    exact ⟨[], .nil, rfl, by simp⟩
  | loop | unknown | fail => cases hout
  | @climb path ps found above p out hp hreg _ _ ihabove ihrest =>
    obtain ⟨ts, hts, rfl, hparents⟩ := ihabove rfl
    obtain ⟨rest, hrest, rfl, hps⟩ := ihrest hout
    have hfounded : r.Founded p := .of_parents hreg fun q hq =>
      ⟨(hparents q hq).1, fun hback => (hparents q hq).2 p hback (by simp)⟩
    refine ⟨p :: ts ++ rest, .cons hts hrest, ?_, List.forall_mem_cons.mpr ⟨⟨hfounded, ?_⟩, hps⟩⟩
    · rw [Distinct.addAll_append]
      rfl
    · intro a ha hin
      rcases ReflTransGen.cases_head_iff.mp ha with rfl | ⟨q, hq, ha⟩
      · exact hp hin
      · exact (hparents q hq).2 a ha (List.mem_append_left _ hin)

/-- The list has every type that `type` inherits from, once and in the order of first encounter. -/
structure Ancestry (type : TypeName) (as : List TypeName) (r : TypeRegistry β) : Prop where
  mem_iff : ∀ a, a ∈ as ↔ r.Inherits type a
  once : as.Nodup
  apart : type ∉ as
  order : ∃ ts, r.Climbs (r.parentsOf type) ts ∧ as = Distinct.addAll ts []

theorem Settles.founded {as : List TypeName} (h : r.Settles type (.ok as)) :
    r.Founded type ∧ r.Ancestry type as := by
  rcases h with ⟨-, hout⟩ | ⟨hreg, hseeks⟩
  · cases hout
  obtain ⟨ts, hts, rfl, hparents⟩ := hseeks.climbs rfl
  have hfounded : r.Founded type := .of_parents hreg fun p hp =>
    ⟨(hparents p hp).1, fun hback => (hparents p hp).2 type hback List.mem_cons_self⟩
  have hmem : ∀ a, a ∈ Distinct.addAll ts [] ↔ r.Inherits type a := by
    intro a
    rw [Distinct.mem_addAll, hts.inherits_iff]
    simp
  refine ⟨hfounded, hmem, Distinct.nodup_addAll .nil, ?_, ts, hts, rfl⟩
  intro hself
  exact hfounded.acyclic type .refl ((hmem type).mp hself)

/-! ## What the search fails with -/

/-- From parent to parent, the last type is met a second time. -/
structure Loop (path : List TypeName) (r : TypeRegistry β) : Prop where
  chain : path.IsChain r.Extends
  closes : ∃ init last, path = init ++ [last] ∧ last ∈ init

theorem Loop.inherits (h : r.Loop path) (hhead : path.head? = some type) :
    ∃ a, r.IsA type a ∧ r.Inherits a a := by
  obtain ⟨init, last, rfl, hlast⟩ := h.closes
  have htrans : Trans r.Inherits r.Inherits r.Inherits := ⟨TransGen.trans⟩
  have hpairs : (init ++ [last]).Pairwise r.Inherits :=
    List.IsChain.pairwise (h.chain.imp fun _ _ hp => TransGen.single hp)
  have hin : ∀ a ∈ init, r.Inherits a last := fun a ha =>
    (List.pairwise_append.mp hpairs).2.2 a ha last List.mem_cons_self
  cases init with
  | nil => cases hlast
  | cons first init =>
    obtain rfl : first = type := Option.some.inj hhead
    exact ⟨last, (hin first List.mem_cons_self).to_reflTransGen, hin last hlast⟩

/-- What an error about the ancestors of a type tells of it. -/
def Indicts (type : TypeName) (r : TypeRegistry β) : TypeError → Prop
  | .cyclicInheritance path => path.head? = some type ∧ r.Loop path
  | .unknownType u => r.IsA type u ∧ r.isRegistered u = false
  | _ => False

theorem Indicts.not_founded (h : r.Indicts type e) : ¬r.Founded type := by
  intro hfounded
  cases e with
  | cyclicInheritance path =>
    obtain ⟨a, ha, hback⟩ := h.2.inherits h.1
    exact hfounded.acyclic a ha hback
  | unknownType u =>
    have hreg := hfounded.registered u h.1
    rw [h.2] at hreg
    cases hreg
  | alreadyRegistered | invalidMethods => exact h.elim

/-- The chain goes on from each type to its parents. -/
theorem isChain_parents (h : (path ++ [p]).IsChain r.Extends) :
    ∀ q ∈ r.parentsOf p, (path ++ [p] ++ [q]).IsChain r.Extends := by
  intro q hq
  rw [List.append_assoc, List.singleton_append, List.isChain_append_cons_cons]
  exact ⟨h, hq, .singleton q⟩

theorem Seeks.fails (h : r.Seeks path parents found out)
    (hchain : ∀ p ∈ parents, (path ++ [p]).IsChain r.Extends) (hout : out = .error e) :
    (∃ path', e = .cyclicInheritance path' ∧ path <+: path' ∧ r.Loop path') ∨
      ∃ p ∈ parents, ∃ u, e = .unknownType u ∧ r.IsA p u ∧ r.isRegistered u = false := by
  induction h with
  | done => cases hout
  | @loop path ps found p hp =>
    cases hout
    exact Or.inl ⟨_, rfl, List.prefix_append _ _, hchain p List.mem_cons_self, path, p, rfl, hp⟩
  | @unknown path ps found p hp hno =>
    cases hout
    exact Or.inr ⟨p, List.mem_cons_self, p, rfl, .refl, hno⟩
  | @fail path ps found p e' hp hreg _ ih =>
    have hfurther := isChain_parents (hchain p List.mem_cons_self)
    rcases ih hfurther hout with ⟨path', he, hpre, hloop⟩ | ⟨q, hq, u, he, hu, hno⟩
    · exact Or.inl ⟨path', he, (List.prefix_append _ _).trans hpre, hloop⟩
    · exact Or.inr ⟨p, List.mem_cons_self, u, he, .head hq hu, hno⟩
  | climb _ _ _ _ _ ihrest =>
    rcases ihrest (fun p hp => hchain p (List.mem_cons_of_mem _ hp)) hout with hloop | ⟨q, hq, hu⟩
    · exact Or.inl hloop
    · exact Or.inr ⟨q, List.mem_cons_of_mem _ hq, hu⟩

theorem Settles.indicts (h : r.Settles type (.error e)) : r.Indicts type e := by
  rcases h with ⟨hreg, hout⟩ | ⟨-, hseeks⟩
  · cases hout
    exact ⟨.refl, hreg⟩
  have hchain : ∀ p ∈ r.parentsOf type, ([type] ++ [p]).IsChain r.Extends := by
    intro p hp
    exact List.isChain_pair.mpr hp
  rcases hseeks.fails hchain rfl with ⟨path, rfl, hpre, hloop⟩ | ⟨p, hp, u, rfl, hu, hno⟩
  · obtain ⟨rest, rfl⟩ := hpre
    exact ⟨rfl, hloop⟩
  · exact ⟨.head hp hu, hno⟩

theorem Founded.ancestors (h : r.Founded type) : ∃ as, r.ancestors type = .ok as ∧ r.Ancestry type as := by
  have hsettles := ancestors_settles type r
  cases hout : r.ancestors type with
  | error e =>
    rw [hout] at hsettles
    exact absurd h hsettles.indicts.not_founded
  | ok as =>
    rw [hout] at hsettles
    exact ⟨as, rfl, hsettles.founded.2⟩

theorem founded_of_ancestors {as : List TypeName} (h : r.ancestors type = .ok as) :
    r.Founded type ∧ r.Ancestry type as := by
  have hsettles := ancestors_settles type r
  rw [h] at hsettles
  exact hsettles.founded

end TypeRegistry

open TypeRegistry

/-- The search for the ancestors of a type ends. It finds them, all and only those that the type
inherits from, once each and in the order of their first encounter, if the type and its ancestors are
registered and none is its own ancestor; if not, it fails with a loop or an unregistered type that is
met above the type. -/
theorem ancestors_are_exact {β : Type} (type : TypeName) (r : TypeRegistry β) :
    r.Settles type (r.ancestors type) ∧
      ((∃ as, r.ancestors type = .ok as) ↔ r.Founded type) ∧
      (∀ as, r.ancestors type = .ok as → r.Ancestry type as) ∧
      ∀ e, r.ancestors type = .error e → r.Indicts type e := by
  refine ⟨ancestors_settles type r, ⟨?_, ?_⟩, ?_, ?_⟩
  · rintro ⟨as, has⟩
    exact (founded_of_ancestors has).1
  · intro hfounded
    obtain ⟨as, has, -⟩ := hfounded.ancestors
    exact ⟨as, has⟩
  · intro as has
    exact (founded_of_ancestors has).2
  · intro e he
    have hsettles := ancestors_settles type r
    rw [he] at hsettles
    exact hsettles.indicts

/-- A type that extends itself by way of another one, which has an unknown parent as well. -/
def knot : TypeRegistry Unit :=
  { decls := [("loop", ⟨"loop", ["detour"], []⟩), ("detour", ⟨"detour", ["loop", "nowhere"], []⟩)] }

theorem diamond_and_knot_are_exact :
    diamond.ancestors "both" = .ok ["left", "thing", "right"] ∧
      diamond.Ancestry "both" ["left", "thing", "right"] ∧
      knot.ancestors "loop" = .error (.cyclicInheritance ["loop", "detour", "loop"]) ∧
      knot.Indicts "loop" (.cyclicInheritance ["loop", "detour", "loop"]) := by
  have hdiamond : diamond.ancestors "both" = .ok ["left", "thing", "right"] := by rfl
  have hknot : knot.ancestors "loop" = .error (.cyclicInheritance ["loop", "detour", "loop"]) := by rfl
  exact ⟨hdiamond, (ancestors_are_exact "both" diamond).2.2.1 _ hdiamond, hknot,
    (ancestors_are_exact "loop" knot).2.2.2 _ hknot⟩

end Vivarium
