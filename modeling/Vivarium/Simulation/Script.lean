import Vivarium.Simulation.Program

/-! # Writing programs

A script is a part of a program that leaves open what comes after it. Scripts are written one after
the other in `do` blocks; a script that finishes drops what would come after it.
-/

namespace Vivarium

def Script (μ : Type) (r : Role) (α : Type) := (α → Program μ r) → Program μ r

namespace Script

variable {μ : Type} {r : Role} {α β : Type}

instance : Monad (Script μ r) where
  pure a next := next a
  bind s f next := s fun a => f a next

instance : LawfulMonad (Script μ r) :=
  LawfulMonad.mk' _ (fun _ => rfl) (fun _ _ => rfl) (fun _ _ _ => rfl)

instance : Inhabited (Program μ r) := ⟨.done r.idle⟩

instance : Inhabited (Script μ r α) := ⟨fun _ => default⟩

def ask (q : Request) : Script μ r q.Answer := .request q

/-- Reads the memory. -/
def look (f : μ → α) : Script μ r α := fun next => .memory id fun m => next (f m)

def remember (f : μ → μ) : Script μ r Unit := fun next => .memory f fun _ => next ()

def finish (answer : r.Answer) : Script μ r α := fun _ => .done answer

def schedule (owner : Owner) (actor : Actor) (code : Code μ) (delay period : Nat) :
    Script μ r (Except EngineError TaskId) := Program.schedule owner actor code delay period

def setBoundary (which : Boundary) (code : Code μ) : Script μ r Unit := fun next =>
  .setBoundary which code (next ())

def subscribe (container : EntityRef) (l : ListenerId) (code : Code μ) : Script μ r Bool :=
  Program.subscribe container l code

def subscribeTo (h : Holder) (k : AttributeKey) (l : ListenerId) (code : Code μ) : Script μ r Bool :=
  Program.subscribeTo h k l code

/-- A script with nothing after it. -/
def program (s : Script μ r r.Answer) : Program μ r := s .done

end Script

end Vivarium
