import EventMachines.Fault

/-!
Sagas: the actions that follow from a result. Whatever happens to a saga's actions is the business
of who runs it.
-/

namespace EventMachines

structure Saga (E A : Type) where
  react : E → Checked (List A)

namespace Saga

variable {E E' A A' : Type}

/-- The saga of a function that always answers. -/
def total (react : E → List A) : Saga E A := ⟨fun e => .ok (react e)⟩

def empty : Saga E A := total fun _ => []

def mapResult (g : Saga E A) (f : E' → Checked E) : Saga E' A :=
  ⟨fun e => do g.react (← f e)⟩

def mapAction (g : Saga E A) (f : A → Checked A') : Saga E A' :=
  ⟨fun e => do (← g.react e).mapM f⟩

/-- Two sagas side by side: each result belongs to one of them, and so do the actions it causes. -/
def combine (left : Saga E A) (right : Saga E' A') : Saga (E ⊕ E') (A ⊕ A') :=
  ⟨fun
    | .inl e => do return (← left.react e).map .inl
    | .inr e => do return (← right.react e).map .inr⟩

/-- Both sagas react to every result, the first one first. -/
def merge (first second : Saga E A) : Saga E A :=
  ⟨fun e => do return (← first.react e) ++ (← second.react e)⟩

end Saga

end EventMachines
