import Vivarium.Simulation.State

/-! # A directory of names

Names for the things of a simulation, one space of names for each kind of thing. A name that is given
again goes to the new thing. Drawn identifiers are shown by the first name that was given to an
entity with the identifier, tasks by the name that is theirs now.
-/

namespace Vivarium

structure Directory where
  entities : List (String × EntityRef) := []
  sets : List (String × Holder) := []
  proxies : List (String × Proxy) := []
  tasks : List (String × TaskId) := []
  schedulers : List (String × SchedulerRef) := []
  drawnNames : List (Nat × String) := []

namespace Directory

/-- The root of a forest under two names; its drawn identifier is the first. -/
def ofRoot (first second : String) : Directory :=
  { entities := [(first, Forest.root), (second, Forest.root)], drawnNames := [(0, first)] }

def nameDrawn (id : EntityId) (name : String) (d : Directory) : Directory :=
  match id with
  | .drawn n =>
    if Entries.has n d.drawnNames then d else { d with drawnNames := d.drawnNames ++ [(n, name)] }
  | .chosen _ => d

def bindEntity (e : EntityRef) (name : String) (id : EntityId) (d : Directory) : Directory :=
  nameDrawn id name { d with entities := Entries.put name e d.entities }

/-- Names a proxy, and its entity as well if no entity has the name. -/
def bindProxy (p : Proxy) (name : String) (id : EntityId) (d : Directory) : Directory :=
  let d := { d with proxies := Entries.put name p d.proxies }
  nameDrawn id name
    (if Entries.has name d.entities then d
      else { d with entities := Entries.put name p.entity d.entities })

def bindTask (name : String) (id : TaskId) (d : Directory) : Directory :=
  { d with tasks := Entries.put name id d.tasks }

def bindSet (name : String) (h : Holder) (d : Directory) : Directory :=
  { d with sets := Entries.put name h d.sets }

def bindScheduler (name : String) (s : SchedulerRef) (d : Directory) : Directory :=
  { d with schedulers := Entries.put name s d.schedulers }

def dropScheduler (name : String) (d : Directory) : Directory :=
  { d with schedulers := Entries.erase name d.schedulers }

/-- The entity of a name, or the root. -/
def entity (name : String) (d : Directory) : EntityRef := (Entries.get? name d.entities).getD Forest.root

/-- The entity of a name, or the set of attributes that stands alone under it. -/
def holder (name : String) (d : Directory) : Holder :=
  match Entries.get? name d.entities with
  | some e => .entity e
  | none => (Entries.get? name d.sets).getD (.entity Forest.root)

def proxy (name : String) (d : Directory) : Proxy := (Entries.get? name d.proxies).getD default

def task? (name : String) (d : Directory) : Option TaskId := Entries.get? name d.tasks

def scheduler? (name : String) (d : Directory) : Option SchedulerRef := Entries.get? name d.schedulers

def taskName (d : Directory) (id : TaskId) : String :=
  ((d.tasks.find? fun (_, task) => task = id).map (·.1)).getD "?"

/-- The text of a drawn identifier. -/
def shown (d : Directory) (n : Nat) : String := "~" ++ (Entries.get? n d.drawnNames).getD "?"

end Directory

end Vivarium
