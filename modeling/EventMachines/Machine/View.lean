import EventMachines.Fault

/-!
Views: a state folded from events. The statement says that folding a history is folding its parts
one after the other.
-/

namespace EventMachines

structure View (S E : Type) where
  evolve : S → E → Checked S
  initial : Checked S

namespace View

variable {S S' E E' : Type}

/-- The view of functions that always answer. -/
def total (evolve : S → E → S) (initial : S) : View S E where
  evolve s e := .ok (evolve s e)
  initial := .ok initial

def empty : View Unit E := total (fun _ _ => ()) ()

def evolveAll (v : View S E) (s : S) (events : List E) : Checked S :=
  events.foldlM v.evolve s

/-- A stored state, or the initial one where nothing is stored. -/
def current (v : View S E) : Option S → Checked S
  | none => v.initial
  | some s => .ok s

def newState (v : View S E) (stored : Option S) (events : List E) : Checked S := do
  v.evolveAll (← v.current stored) events

def mapEvent (v : View S E) (f : E' → Checked E) : View S E' where
  evolve s e := do v.evolve s (← f e)
  initial := v.initial

def mapState (v : View S E) (into : S' → Checked S) (back : S → Checked S') : View S' E where
  evolve s e := do back (← v.evolve (← into s) e)
  initial := do back (← v.initial)

/-- Two views side by side: each event belongs to one of them. -/
def combine (left : View S E) (right : View S' E') : View (S × S') (E ⊕ E') where
  evolve s e := match e with
    | .inl e => do return (← left.evolve s.1 e, s.2)
    | .inr e => do return (s.1, ← right.evolve s.2 e)
  initial := do return (← left.initial, ← right.initial)

theorem evolveAll_cons (v : View S E) (s : S) (e : E) (events : List E) :
    v.evolveAll s (e :: events) = (do v.evolveAll (← v.evolve s e) events) :=
  List.foldlM_cons

theorem evolveAll_append (v : View S E) (s : S) (before after : List E) :
    v.evolveAll s (before ++ after) = (do v.evolveAll (← v.evolveAll s before) after) :=
  List.foldlM_append

end View

end EventMachines
