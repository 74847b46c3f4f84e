import Vivarium.Typing.Binding

/-! # The registry of entity types

The registry holds the declared types and the tables of those that were resolved. A type resolves
when its ancestors are known and acyclic and each of its methods, own and inherited, has exactly one
binding. A table that was built is kept; a failure is not.
-/

namespace Vivarium

structure MethodTable (β : Type) where
  type : TypeName
  ancestors : List TypeName
  methods : List (MethodKey × Binding β)

namespace MethodTable

variable {β : Type}

def get? (k : MethodKey) (t : MethodTable β) : Option (Binding β) := Entries.get? k t.methods

/-- The types that the methods hand out or mark, in the order of the methods. -/
def dependencies (t : MethodTable β) : List TypeName :=
  Distinct.addAll (t.methods.flatMap fun m => m.2.dependencies) []

end MethodTable

structure TypeRegistry (β : Type) where
  decls : List (TypeName × TypeDecl β) := []
  tables : List (TypeName × MethodTable β) := []

namespace TypeRegistry

variable {β : Type}

def register (d : TypeDecl β) (r : TypeRegistry β) : Except TypeError (TypeRegistry β) :=
  if Entries.has d.name r.decls then .error (.alreadyRegistered d.name)
  else .ok { r with decls := r.decls ++ [(d.name, d)] }

def registered (r : TypeRegistry β) : List TypeName := Entries.keys r.decls

def isRegistered (type : TypeName) (r : TypeRegistry β) : Bool := Entries.has type r.decls

def decl? (type : TypeName) (r : TypeRegistry β) : Option (TypeDecl β) := Entries.get? type r.decls

def table? (type : TypeName) (r : TypeRegistry β) : Option (MethodTable β) :=
  Entries.get? type r.tables

def isResolved (type : TypeName) (r : TypeRegistry β) : Bool := (r.table? type).isSome

def lookup (type : TypeName) (r : TypeRegistry β) : Except TypeError (TypeDecl β) :=
  match r.decl? type with
  | some d => .ok d
  | none => .error (.unknownType type)

/-- Adds the ancestors of `type` to `found`, each at its first encounter, depth first in the order of
declaration. `path` leads to `type` from where the search began. A path without a repetition has at
most one type that is not registered, its last, so `depth` is enough at the number of types and
one. -/
def ancestorsFrom (r : TypeRegistry β) :
    (depth : Nat) → (type : TypeName) → (path found : List TypeName) → Except TypeError (List TypeName)
  | 0, _, _, found => .ok found
  | depth + 1, type, path, found => do
    let d ← r.lookup type
    d.parents.foldlM (fun found parent =>
      if path.contains parent then .error (.cyclicInheritance (path ++ [parent]))
      else r.ancestorsFrom depth parent (path ++ [parent]) (Distinct.add parent found)) found

/-- Every type that `type` inherits from. -/
def ancestors (type : TypeName) (r : TypeRegistry β) : Except TypeError (List TypeName) :=
  r.ancestorsFrom (r.decls.length + 1) type [type] []

/-- The types whose methods were collected, and the methods. -/
structure Collected (β : Type) where
  visited : List TypeName := []
  methods : List (MethodKey × Method β) := []

/-- Adds the methods of `type`, after those of its parents; a later method replaces an earlier one of
the same key in its place. -/
def collectFrom (r : TypeRegistry β) :
    (depth : Nat) → (type : TypeName) → Collected β → Except TypeError (Collected β)
  | 0, _, c => .ok c
  | depth + 1, type, c =>
    if c.visited.contains type then .ok c
    else do
      let d ← r.lookup type
      let c ← d.parents.foldlM (fun c parent => r.collectFrom depth parent c)
        { c with visited := c.visited ++ [type] }
      .ok { c with methods := d.methods.foldl (fun ms m => Entries.put m.key m ms) c.methods }

/-- All methods of a type, inherited ones first. -/
def allMethods (type : TypeName) (r : TypeRegistry β) :
    Except TypeError (List (MethodKey × Method β)) :=
  Collected.methods <$> r.collectFrom (r.decls.length + 1) type {}

/-- The resolvers that bind a method and the first one that rejects it. -/
structure Claims (β : Type) where
  bindings : List (Resolver × Binding β) := []
  rejection : Option (Resolver × MethodError) := none

def claims (m : Method β) : Claims β :=
  Resolver.all.foldl (fun c resolver =>
    match resolver.apply m with
    | .ok (some b) => { c with bindings := c.bindings ++ [(resolver, b)] }
    | .ok none => c
    | .error e => { c with rejection := c.rejection <|> some (resolver, e) }) {}

/-- The binding of a method, if exactly one resolver binds it, none rejects it and the types that it
hands out are registered. -/
def bind (m : Method β) (r : TypeRegistry β) : Except ProblemKind (Binding β) :=
  let c := claims m
  match c.rejection, c.bindings with
  | some (resolver, e), _ => .error (.invalid resolver e)
  | none, [] => .error .unclaimed
  | none, [(_, b)] =>
    match b.dependencies.find? fun type => !r.isRegistered type with
    | some type => .error (.unknownType type)
    | none => .ok b
  | none, bs => .error (.ambiguous (bs.map (·.1)))

/-- Binds all methods, or lists the problem of each that cannot be bound. -/
def bindAll (r : TypeRegistry β) (ms : List (MethodKey × Method β)) :
    List (MethodKey × Binding β) × List MethodProblem :=
  ms.foldr (fun (k, m) (bs, ps) =>
    match r.bind m with
    | .ok b => ((k, b) :: bs, ps)
    | .error kind => (bs, ⟨k, kind⟩ :: ps)) ([], [])

def build (type : TypeName) (r : TypeRegistry β) : Except TypeError (MethodTable β) := do
  let ancestors ← r.ancestors type
  let ms ← r.allMethods type
  match r.bindAll ms with
  | (methods, []) => .ok { type, ancestors, methods }
  | (_, problems) => .error (.invalidMethods type problems)

/-- The table of a type, which is built when it is first asked for. -/
def resolve (type : TypeName) (r : TypeRegistry β) :
    Except TypeError (MethodTable β) × TypeRegistry β :=
  match r.table? type with
  | some t => (.ok t, r)
  | none =>
    match r.build type with
    | .ok t => (.ok t, { r with tables := r.tables ++ [(type, t)] })
    | .error e => (.error e, r)

theorem decls_resolve (type : TypeName) (r : TypeRegistry β) : (r.resolve type).2.decls = r.decls := by
  unfold resolve
  split
  · rfl
  · split <;> rfl

/-- The registered types that are not in `seen`. -/
def unseen (seen : List TypeName) (r : TypeRegistry β) : List TypeName :=
  r.registered.filter fun type => !seen.contains type

theorem registered_resolve (type : TypeName) (r : TypeRegistry β) :
    (r.resolve type).2.registered = r.registered := by
  unfold registered
  rw [decls_resolve]

theorem length_unseen_lt {type : TypeName} {seen : List TypeName} {r : TypeRegistry β}
    (hseen : seen.contains type = false) (hreg : r.isRegistered type = true) :
    (r.unseen (seen ++ [type])).length < (r.unseen seen).length := by
  have hmem : type ∈ r.registered := Entries.get?_isSome_iff.1 hreg
  have hsub : r.unseen (seen ++ [type]) = (r.unseen seen).filter (· != type) := by
    unfold unseen
    rw [List.filter_filter]
    congr 1
    funext x
    by_cases hx : x = type <;> simp [hx]
  have hnot : type ∉ seen := by simpa using hseen
  rw [hsub]
  apply List.length_filter_lt_length_iff_exists.2
  exact ⟨type, by simp [unseen, hmem, hnot], by simp⟩

/-- Resolves the types of the queue and those that their methods hand out, breadth first; `seen` are
the ones resolved before. -/
def validateFrom (r : TypeRegistry β) (seen queue : List TypeName) :
    Except TypeError (List TypeName) × TypeRegistry β :=
  match queue with
  | [] => (.ok seen, r)
  | type :: rest =>
    if _ : seen.contains type = true then r.validateFrom seen rest
    else if _ : r.isRegistered type = true then
      match _ : r.resolve type with
      | (.error e, r') => (.error e, r')
      | (.ok t, r') =>
        let seen' := seen ++ [type]
        r'.validateFrom seen' (rest ++ t.dependencies.filter fun d => !seen'.contains d)
    else (.error (.unknownType type), r)
termination_by ((r.unseen seen).length, queue.length)
decreasing_by
  · exact Prod.Lex.right _ (Nat.lt_succ_self _)
  · apply Prod.Lex.left
    have hr : r'.registered = r.registered := by
      rw [← registered_resolve type r, ‹r.resolve type = _›]
    have hu : r'.unseen (seen ++ [type]) = r.unseen (seen ++ [type]) := by
      unfold unseen
      rw [hr]
    rw [hu]
    exact length_unseen_lt (by simpa using ‹¬seen.contains type = true›) ‹r.isRegistered type = true›

/-- Resolves a type and all types that can be reached from it; they come in the order in which they
were resolved. -/
def validateTree (type : TypeName) (r : TypeRegistry β) :
    Except TypeError (List TypeName) × TypeRegistry β := r.validateFrom [] [type]

end TypeRegistry

end Vivarium
