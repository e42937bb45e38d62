import EventMachines.Machine.Saga
import EventMachines.Proofs.Machine.Part

/-!
Machines that do the same under other names. A relabelling translates the data of one decider into
that of another; where each function of the second does with the translated data what the first one
does, every run of the second is the translated run of the first. A machine may also be padded:
commands and events that come from elsewhere are accepted, and nothing happens. Views and sagas
likewise.

* `Decider.Relabelled.attempt`, `Decider.Relabelled.evolveAll`: from the functions of a decider to
  what it decides and what a history leads to;
* `Decider.Relabelled.course`, `Decider.Relabelled.run`: to every run, command by command;
* `Decider.Padded.course`, `Decider.Padded.evolveAll`: the same where other commands and events lie
  in between;
* `View.Relabelled.newState`, `View.Padded.newState`: what events make of a state.
-/

namespace EventMachines

variable {C C' S S' E E' R A A' : Type}

/-! ## Runs -/

/-- What came of a command, and the state after it. -/
structure Turn (C S E R : Type) where
  command : C
  result : Except (Failure C R) (List E)
  state : S

/-- The turn of a command that belongs to the machine. -/
def Turn.isOwn (command? : C → Option C') (t : Turn C S E R) : Bool :=
  (command? t.command).isSome

namespace Decider

/-- Refuses the command, or folds what it decides. -/
def turn (d : Decider C S E R) (c : C) (s : S) : Checked (Turn C S E R) := do
  match ← d.attempt c s with
  | .error e => return ⟨c, .error e, s⟩
  | .ok events => Turn.mk c (.ok events) <$> d.evolveAll s events

/-- Takes the commands one after the other, each in the state that the one before it has left. -/
def course (d : Decider C S E R) : List C → S → Checked (List (Turn C S E R))
  | [], _ => return []
  | c :: commands, s => do
    let t ← d.turn c s
    (t :: ·) <$> d.course commands t.state

/-- The course that begins in the initial state. -/
def run (d : Decider C S E R) (commands : List C) : Checked (List (Turn C S E R)) := do
  d.course commands (← d.initial)

theorem turn_command (d : Decider C S E R) {c : C} {s : S} {t : Turn C S E R}
    (h : d.turn c s = .ok t) : t.command = c := by
  obtain ⟨decided, -, h⟩ := Checked.bind_eq_ok.mp h
  cases decided with
  | error e =>
    obtain rfl := Except.ok.inj h
    rfl
  | ok events =>
    obtain ⟨next, -, rfl⟩ := Checked.map_eq_ok.mp h
    rfl

end Decider

/-! ## Other names -/

/-- How the data of one decider is told in that of another. -/
structure Relabelling (C S E C' S' E' : Type) where
  command : C → C'
  state : S → S'
  event : E → E'

namespace Relabelling

variable (ρ : Relabelling C S E C' S' E')

def result : Except (Failure C R) (List E) → Except (Failure C' R) (List E')
  | .ok events => .ok (events.map ρ.event)
  | .error e => .error (e.mapInput ρ.command)

def turn (t : Turn C S E R) : Turn C' S' E' R :=
  ⟨ρ.command t.command, ρ.result t.result, ρ.state t.state⟩

/-- The names are told back. -/
structure UndoneBy (σ : Relabelling C' S' E' C S E) : Prop where
  command : ∀ c, σ.command (ρ.command c) = c
  state : ∀ s, σ.state (ρ.state s) = s
  event : ∀ e, σ.event (ρ.event e) = e

end Relabelling

/-- Every function of the second decider does with translated data what that of the first does. -/
structure Decider.Relabelled (ρ : Relabelling C S E C' S' E') (d : Decider C S E R)
    (d' : Decider C' S' E' R) : Prop where
  decide : ∀ c s, d'.decide (ρ.command c) (ρ.state s) =
    (·.map (·.map ρ.event)) <$> d.decide c s
  isTerminal : ∀ c s, d'.isTerminal (ρ.command c) (ρ.state s) = d.isTerminal c s
  evolve : ∀ s e, d'.evolve (ρ.state s) (ρ.event e) = ρ.state <$> d.evolve s e
  initial : d'.initial = ρ.state <$> d.initial

theorem map_undone {f : S → S'} {g : S' → S} (h : ∀ s, g (f s) = s) (x : Checked S) :
    g <$> f <$> x = x := by
  rcases x with fault | s
  · rfl
  · exact congrArg Except.ok (h s)

theorem map_map_undone {f : E → E'} {g : E' → E} (h : ∀ e, g (f e) = e) (events : List E) :
    (events.map f).map g = events := by
  have hid : g ∘ f = id := funext h
  rw [List.map_map, hid, List.map_id]

theorem map_result_undone {f : E → E'} {g : E' → E} (h : ∀ e, g (f e) = e)
    (decided : Except R (List E)) : (decided.map (·.map f)).map (·.map g) = decided := by
  rcases decided with reason | events
  · rfl
  · exact congrArg Except.ok (map_map_undone h events)

theorem foldlM_relabelled {f : S → E → Checked S} {f' : S' → E' → Checked S'} {state : S → S'}
    {event : E → E'} (h : ∀ s e, f' (state s) (event e) = state <$> f s e) (events : List E)
    (s : S) : (events.map event).foldlM f' (state s) = state <$> events.foldlM f s := by
  induction events generalizing s with
  | nil => rfl
  | cons e events ih =>
    rw [List.map_cons, List.foldlM_cons, List.foldlM_cons, h]
    rcases f s e with x | next
    · rfl
    · exact ih next

namespace Decider.Relabelled

variable {ρ : Relabelling C S E C' S' E'} {d : Decider C S E R} {d' : Decider C' S' E' R}
  (h : Relabelled ρ d d')
include h

theorem attempt (c : C) (s : S) :
    d'.attempt (ρ.command c) (ρ.state s) = ρ.result <$> d.attempt c s := by
  rw [Decider.attempt, Decider.attempt, h.isTerminal, h.decide]
  rcases d.isTerminal c s with x | _ | _
  · rfl
  · rcases d.decide c s with x | reason | events <;> rfl
  · rfl

theorem evolveAll (s : S) (events : List E) :
    d'.evolveAll (ρ.state s) (events.map ρ.event) = ρ.state <$> d.evolveAll s events :=
  foldlM_relabelled h.evolve events s

theorem turn (c : C) (s : S) : d'.turn (ρ.command c) (ρ.state s) = ρ.turn <$> d.turn c s := by
  rw [Decider.turn, Decider.turn, h.attempt]
  rcases d.attempt c s with x | e | events
  · rfl
  · rfl
  · show Turn.mk (ρ.command c) (.ok (events.map ρ.event)) <$>
      d'.evolveAll (ρ.state s) (events.map ρ.event) =
      ρ.turn <$> Turn.mk c (.ok events) <$> d.evolveAll s events
    rw [h.evolveAll]
    rcases d.evolveAll s events with x | next <;> rfl

/-- **Run by run.** -/
theorem course (commands : List C) (s : S) :
    d'.course (commands.map ρ.command) (ρ.state s) = (·.map ρ.turn) <$> d.course commands s := by
  induction commands generalizing s with
  | nil => rfl
  | cons c commands ih =>
    rw [List.map_cons, Decider.course, Decider.course, h.turn]
    rcases d.turn c s with x | t
    · rfl
    · show (ρ.turn t :: ·) <$> d'.course (commands.map ρ.command) (ρ.state t.state) =
        (·.map ρ.turn) <$> (t :: ·) <$> d.course commands t.state
      rw [ih]
      rcases d.course commands t.state with x | turns <;> rfl

theorem run (commands : List C) :
    d'.run (commands.map ρ.command) = (·.map ρ.turn) <$> d.run commands := by
  rw [Decider.run, Decider.run, h.initial]
  rcases d.initial with x | s
  · rfl
  · exact h.course commands s

theorem replay (history : List E) :
    d'.replay (history.map ρ.event) = ρ.state <$> d.replay history := by
  rw [Decider.replay, Decider.replay, h.initial]
  rcases d.initial with x | s
  · rfl
  · exact h.evolveAll s history

/-- Names that can be told back relate the two machines in both directions. -/
theorem symm {σ : Relabelling C' S' E' C S E} (back : ρ.UndoneBy σ) (there : σ.UndoneBy ρ) :
    Relabelled σ d' d where
  decide c s := by
    have hwhole := h.decide (σ.command c) (σ.state s)
    rw [there.command, there.state] at hwhole
    rw [hwhole, map_undone (map_result_undone back.event)]
  isTerminal c s := by
    have hwhole := h.isTerminal (σ.command c) (σ.state s)
    rwa [there.command, there.state, eq_comm] at hwhole
  evolve s e := by
    have hwhole := h.evolve (σ.state s) (σ.event e)
    rw [there.state, there.event] at hwhole
    rw [hwhole, map_undone back.state]
  initial := by rw [h.initial, map_undone back.state]

end Decider.Relabelled

/-- A view that does the same with other states and events. -/
structure View.Relabelled (state : S → S') (event : E → E') (v : View S E) (v' : View S' E') :
    Prop where
  evolve : ∀ s e, v'.evolve (state s) (event e) = state <$> v.evolve s e
  initial : v'.initial = state <$> v.initial

namespace View.Relabelled

variable {state : S → S'} {event : E → E'} {v : View S E} {v' : View S' E'}
  (h : Relabelled state event v v')
include h

theorem current (stored : Option S) :
    v'.current (stored.map state) = state <$> v.current stored := by
  cases stored with
  | none => exact h.initial
  | some s => rfl

theorem newState (stored : Option S) (events : List E) :
    v'.newState (stored.map state) (events.map event) = state <$> v.newState stored events := by
  rw [View.newState, View.newState, h.current]
  rcases v.current stored with x | s
  · rfl
  · exact foldlM_relabelled h.evolve events s

theorem symm {state' : S' → S} {event' : E' → E} (hback : ∀ s, state' (state s) = s)
    (hstate : ∀ s, state (state' s) = s) (hevent : ∀ e, event (event' e) = e) :
    Relabelled state' event' v' v where
  evolve s e := by
    have hwhole := h.evolve (state' s) (event' e)
    rw [hstate, hevent] at hwhole
    rw [hwhole, map_undone hback]
  initial := by rw [h.initial, map_undone hback]

end View.Relabelled

/-- A saga that does the same with other results and actions. -/
def Saga.Relabelled (result : E → E') (action : A → A') (g : Saga E A) (g' : Saga E' A') : Prop :=
  ∀ e, g'.react (result e) = (·.map action) <$> g.react e

theorem Saga.Relabelled.symm {result : E → E'} {action : A → A'} {g : Saga E A} {g' : Saga E' A'}
    (h : Relabelled result action g g') {result' : E' → E} {action' : A' → A}
    (hresult : ∀ e, result (result' e) = e) (haction : ∀ a, action' (action a) = a) :
    Relabelled result' action' g' g := by
  intro e
  have hwhole := h (result' e)
  rw [hresult] at hwhole
  rw [hwhole, map_undone (map_map_undone haction)]

/-! ## Padding -/

/-- The larger decider does what the smaller one does, under other names; it also takes commands and
events that are none of the smaller one's, but nothing comes of them. -/
structure Decider.Padded (ρ : Relabelling C S E C' S' E') (command? : C' → Option C)
    (event? : E' → Option E) (d : Decider C S E R) (d' : Decider C' S' E' R) : Prop
    extends Relabelled ρ d d' where
  eq_command : ∀ {w c}, command? w = some c → w = ρ.command c
  eq_event : ∀ {f e}, event? f = some e → f = ρ.event e
  open_foreign : ∀ w t, command? w = none → d'.isTerminal w t = .ok false
  decide_foreign : ∀ w t, command? w = none → d'.decide w t = .ok (.ok [])
  evolve_foreign : ∀ f t, event? f = none → d'.evolve t f = .ok t

theorem foldlM_padded {f : S → E → Checked S} {f' : S' → E' → Checked S'} {state : S → S'}
    {event : E → E'} {event? : E' → Option E} (h : ∀ s e, f' (state s) (event e) = state <$> f s e)
    (eq_event : ∀ {f e}, event? f = some e → f = event e)
    (foreign : ∀ f t, event? f = none → f' t f = .ok t) (events : List E') (s : S) :
    events.foldlM f' (state s) = state <$> (events.filterMap event?).foldlM f s := by
  induction events generalizing s with
  | nil => rfl
  | cons e' events ih =>
    rw [List.foldlM_cons]
    cases he : event? e' with
    | none =>
      rw [List.filterMap_cons_none he, foreign e' _ he]
      exact ih s
    | some e =>
      rw [List.filterMap_cons_some he, List.foldlM_cons, eq_event he, h]
      rcases f s e with x | next
      · rfl
      · exact ih next

namespace Decider.Padded

variable {ρ : Relabelling C S E C' S' E'} {command? : C' → Option C} {event? : E' → Option E}
  {d : Decider C S E R} {d' : Decider C' S' E' R} (h : Padded ρ command? event? d d')
include h

theorem evolveAll (s : S) (events : List E') :
    d'.evolveAll (ρ.state s) events = ρ.state <$> d.evolveAll s (events.filterMap event?) :=
  foldlM_padded h.evolve h.eq_event h.evolve_foreign events s

theorem turn_foreign (w : C') (t : S') (hw : command? w = none) :
    d'.turn w t = .ok ⟨w, .ok [], t⟩ := by
  rw [Decider.turn, Decider.attempt, h.open_foreign w t hw, h.decide_foreign w t hw]
  rfl

/-- **Run by run.** Without the turns of foreign commands, a run is the smaller decider's. -/
theorem course (commands : List C') (s : S) :
    (·.filter (Turn.isOwn command?)) <$> d'.course commands (ρ.state s) =
      (·.map ρ.turn) <$> d.course (commands.filterMap command?) s := by
  induction commands generalizing s with
  | nil => rfl
  | cons w commands ih =>
    rw [Decider.course]
    cases hw : command? w with
    | none =>
      have hforeign (result : Except (Failure C' R) (List E')) :
          Turn.isOwn command? ⟨w, result, ρ.state s⟩ ≠ true := by
        rw [Turn.isOwn, hw]
        exact Bool.false_ne_true
      rw [List.filterMap_cons_none hw, h.turn_foreign w _ hw, ← ih s]
      show _ <$> (_ :: ·) <$> d'.course commands (ρ.state s) = _
      rcases d'.course commands (ρ.state s) with x | turns
      · rfl
      · exact congrArg Except.ok (List.filter_cons_of_neg (hforeign _))
    | some c =>
      obtain rfl := h.eq_command hw
      rw [List.filterMap_cons_some hw, h.turn, Decider.course]
      rcases hturn : d.turn c s with x | t
      · rfl
      · have hown : Turn.isOwn command? (ρ.turn t) = true := by
          rw [Turn.isOwn, Relabelling.turn, d.turn_command hturn, hw]
          rfl
        have hrest := ih t.state
        show _ <$> (ρ.turn t :: ·) <$> d'.course commands (ρ.state t.state) =
          _ <$> (t :: ·) <$> d.course (commands.filterMap command?) t.state
        rcases hcourse : d'.course commands (ρ.state t.state) with x | turns <;>
          rcases hcourse' : d.course (commands.filterMap command?) t.state with x' | turns' <;>
          rw [hcourse, hcourse'] at hrest
        case error.error => exact congrArg Except.error (Except.error.inj hrest)
        case ok.ok =>
          have hturns : turns.filter (Turn.isOwn command?) = turns'.map ρ.turn :=
            Except.ok.inj hrest
          exact congrArg Except.ok
            ((List.filter_cons_of_pos hown).trans (congrArg (ρ.turn t :: ·) hturns))
        all_goals cases hrest

theorem run (commands : List C') :
    (·.filter (Turn.isOwn command?)) <$> d'.run commands =
      (·.map ρ.turn) <$> d.run (commands.filterMap command?) := by
  rw [Decider.run, Decider.run, h.initial]
  rcases d.initial with x | s
  · rfl
  · exact h.course commands s

theorem replay (history : List E') :
    d'.replay history = ρ.state <$> d.replay (history.filterMap event?) := by
  rw [Decider.replay, Decider.replay, h.initial]
  rcases d.initial with x | s
  · rfl
  · exact h.evolveAll s history

end Decider.Padded

/-- A view that also takes events of others, and stays as it is. -/
structure View.Padded (state : S → S') (event : E → E') (event? : E' → Option E) (v : View S E)
    (v' : View S' E') : Prop extends Relabelled state event v v' where
  eq_event : ∀ {f e}, event? f = some e → f = event e
  evolve_foreign : ∀ f t, event? f = none → v'.evolve t f = .ok t

theorem View.Padded.newState {state : S → S'} {event : E → E'} {event? : E' → Option E}
    {v : View S E} {v' : View S' E'} (h : Padded state event event? v v') (stored : Option S)
    (events : List E') :
    v'.newState (stored.map state) events =
      state <$> v.newState stored (events.filterMap event?) := by
  rw [View.newState, View.newState, h.current]
  rcases v.current stored with x | s
  · rfl
  · exact foldlM_padded h.evolve h.eq_event h.evolve_foreign events s

/-- A saga that is also given results of others, and does not react to them. -/
structure Saga.Padded (result : E → E') (action : A → A') (result? : E' → Option E) (g : Saga E A)
    (g' : Saga E' A') : Prop where
  react : Relabelled result action g g'
  eq_result : ∀ {f e}, result? f = some e → f = result e
  react_foreign : ∀ f, result? f = none → g'.react f = .ok []

end EventMachines
