import EventMachines.Fault

/-!
Deciders: what a command decides in a state, and what an event makes of a state. The adapters
change the types a decider speaks, `combine` runs two of them side by side. The statements say that
folding a history is folding its parts one after the other, and that the adapters and `combine` of
total deciders are total.
-/

namespace EventMachines

/-- `decide` either refuses with a reason or lists the events that happen; a terminal state takes
no further command. -/
structure Decider (C S E R : Type) where
  decide : C → S → Checked (Except R (List E))
  evolve : S → E → Checked S
  initial : Checked S
  isTerminal : C → S → Checked Bool

namespace Decider

variable {C C' S S' E E' R R' : Type}

/-- The decider of functions that always answer. -/
def total (decide : C → S → Except R (List E)) (evolve : S → E → S) (initial : S)
    (isTerminal : C → S → Bool) : Decider C S E R where
  decide c s := .ok (decide c s)
  evolve s e := .ok (evolve s e)
  initial := .ok initial
  isTerminal c s := .ok (isTerminal c s)

/-- Decides nothing and remembers nothing. -/
def empty : Decider C Unit E R := total (fun _ _ => .ok []) (fun _ _ => ()) () (fun _ _ => false)

/-- Terminal exactly in the given states, whatever the command. -/
def withTerminal (d : Decider C S E R) (terminal : S → Checked Bool) : Decider C S E R :=
  { d with isTerminal := fun _ s => terminal s }

def evolveAll (d : Decider C S E R) (s : S) (events : List E) : Checked S :=
  events.foldlM d.evolve s

/-- The state that a history leads to. -/
def replay (d : Decider C S E R) (history : List E) : Checked S := do
  d.evolveAll (← d.initial) history

/-- A stored state, or the initial one where nothing is stored. -/
def current (d : Decider C S E R) : Option S → Checked S
  | none => d.initial
  | some s => .ok s

/-- What a command decides after a history. -/
def newEvents (d : Decider C S E R) (history : List E) (c : C) : Checked (Except R (List E)) := do
  d.decide c (← d.replay history)

/-- What a command makes of a stored state. -/
def newState (d : Decider C S E R) (stored : Option S) (c : C) : Checked (Except R S) := do
  let s ← d.current stored
  match ← d.decide c s with
  | .error reason => return .error reason
  | .ok events => return .ok (← d.evolveAll s events)

def mapCommand (d : Decider C S E R) (f : C' → Checked C) : Decider C' S E R where
  decide c s := do d.decide (← f c) s
  evolve := d.evolve
  initial := d.initial
  isTerminal c s := do d.isTerminal (← f c) s

def mapEvent (d : Decider C S E R) (into : E' → Checked E) (back : E → Checked E') :
    Decider C S E' R where
  decide c s := do
    match ← d.decide c s with
    | .error reason => return .error reason
    | .ok events => return .ok (← events.mapM back)
  evolve s e := do d.evolve s (← into e)
  initial := d.initial
  isTerminal := d.isTerminal

def mapState (d : Decider C S E R) (into : S' → Checked S) (back : S → Checked S') :
    Decider C S' E R where
  decide c s := do d.decide c (← into s)
  evolve s e := do back (← d.evolve (← into s) e)
  initial := do back (← d.initial)
  isTerminal c s := do d.isTerminal c (← into s)

def mapError (d : Decider C S E R) (f : R → R') : Decider C S E R' :=
  { d with decide := fun c s => do
      match ← d.decide c s with
      | .error reason => return .error (f reason)
      | .ok events => return .ok events }

/-- Two deciders side by side: each command, event and rejection belongs to one of them. -/
def combine (left : Decider C S E R) (right : Decider C' S' E' R) :
    Decider (C ⊕ C') (S × S') (E ⊕ E') R where
  decide c s := match c with
    | .inl c => do return (← left.decide c s.1).map (·.map .inl)
    | .inr c => do return (← right.decide c s.2).map (·.map .inr)
  evolve s e := match e with
    | .inl e => do return (← left.evolve s.1 e, s.2)
    | .inr e => do return (s.1, ← right.evolve s.2 e)
  initial := do return (← left.initial, ← right.initial)
  isTerminal c s := match c with
    | .inl c => left.isTerminal c s.1
    | .inr c => right.isTerminal c s.2

theorem evolveAll_cons (d : Decider C S E R) (s : S) (e : E) (events : List E) :
    d.evolveAll s (e :: events) = (do d.evolveAll (← d.evolve s e) events) :=
  List.foldlM_cons

theorem evolveAll_append (d : Decider C S E R) (s : S) (before after : List E) :
    d.evolveAll s (before ++ after) = (do d.evolveAll (← d.evolveAll s before) after) :=
  List.foldlM_append

theorem evolveAll_total (decide : C → S → Except R (List E)) (evolve : S → E → S) (initial : S)
    (isTerminal : C → S → Bool) (s : S) (events : List E) :
    (total decide evolve initial isTerminal).evolveAll s events = .ok (events.foldl evolve s) := by
  induction events generalizing s with
  | nil => rfl
  | cons e events ih =>
    rw [evolveAll_cons]
    exact ih (evolve s e)

theorem combine_total (decide : C → S → Except R (List E)) (evolve : S → E → S) (initial : S)
    (isTerminal : C → S → Bool) (decide' : C' → S' → Except R (List E')) (evolve' : S' → E' → S')
    (initial' : S') (isTerminal' : C' → S' → Bool) :
    (total decide evolve initial isTerminal).combine
        (total decide' evolve' initial' isTerminal') =
      total
        (fun c s => match c with
          | .inl c => (decide c s.1).map (·.map .inl)
          | .inr c => (decide' c s.2).map (·.map .inr))
        (fun s e => match e with
          | .inl e => (evolve s.1 e, s.2)
          | .inr e => (s.1, evolve' s.2 e))
        (initial, initial')
        (fun c s => match c with
          | .inl c => isTerminal c s.1
          | .inr c => isTerminal' c s.2) := by
  simp only [combine, total, mk.injEq]
  refine ⟨?_, ?_, rfl, ?_⟩ <;> funext a b
  · cases a <;> rfl
  · cases b <;> rfl
  · cases a <;> rfl

end Decider

end EventMachines
