import EventMachines.Cascade
import EventMachines.Failure
import EventMachines.Machine.Decider
import EventMachines.Program

/-!
Engines. An engine works on an item in rounds: each round is a program, which ends with an answer or
with what is left to do. So a cascade without end is an engine that never answers, made of programs
that all end. The statements say what identifies a stored state, and when a command is accepted or
refused.
-/

namespace EventMachines

inductive Progress (Pending Answer : Type) where
  | answer (a : Answer)
  | again (rest : Pending)

structure Engine (P : Exchange) (ε Item Answer : Type) where
  Pending : Type
  start : Item → Program P ε (Progress Pending Answer)
  resume : Pending → Program P ε (Progress Pending Answer)

/-- An engine that needs a single round. -/
def Engine.ofProgram {P : Exchange} {ε Item Answer : Type} (body : Item → Program P ε Answer) :
    Engine P ε Item Answer where
  Pending := Empty
  start item := do return .answer (← body item)
  resume := nofun

/-- The stored state and what identifies it in the store, or the initial state with nothing. -/
def storedOr {S T : Type} (initial : Checked S) : Option (S × T) → Checked (S × Option T)
  | none => do return (← initial, none)
  | some (s, token) => .ok (s, some token)

theorem storedOr_token {S T : Type} {initial : Checked S} {stored : Option (S × T)} {s : S}
    {token : Option T} (h : storedOr initial stored = .ok (s, token)) :
    stored.map (·.2) = token := by
  cases stored with
  | none =>
    obtain ⟨s', -, h⟩ := Checked.bind_eq_ok.mp h
    obtain ⟨-, rfl⟩ := Prod.mk.inj (Except.ok.inj h)
    rfl
  | some stored =>
    obtain ⟨-, rfl⟩ := Prod.mk.inj (Except.ok.inj h)
    rfl

variable {C S E R : Type}

/-- What a command decides in a state, unless the state is terminal. -/
def Decider.attempt (d : Decider C S E R) (c : C) (s : S) :
    Checked (Except (Failure C R) (List E)) := do
  if ← d.isTerminal c s then
    return .error (.terminal c)
  match ← d.decide c s with
  | .error reason => return .error (.rejected c reason)
  | .ok events => return .ok events

theorem Decider.attempt_eq_ok {d : Decider C S E R} {c : C} {s : S} {events : List E} :
    d.attempt c s = .ok (.ok events) ↔
      d.isTerminal c s = .ok false ∧ d.decide c s = .ok (.ok events) := by
  rw [attempt, Checked.bind_eq_ok]
  constructor
  · rintro ⟨terminal, hterminal, h⟩
    cases terminal with
    | true => cases h
    | false =>
      obtain ⟨decided, hdecided, h⟩ := Checked.bind_eq_ok.mp h
      cases decided with
      | error reason => cases h
      | ok more =>
        obtain rfl := Except.ok.inj (Except.ok.inj h)
        exact ⟨hterminal, hdecided⟩
  · rintro ⟨hterminal, hdecided⟩
    refine ⟨false, hterminal, ?_⟩
    simp only [Bool.false_eq_true, if_false, hdecided]
    rfl

theorem Decider.attempt_eq_error {d : Decider C S E R} {c : C} {s : S} {e : Failure C R} :
    d.attempt c s = .ok (.error e) ↔
      d.isTerminal c s = .ok true ∧ e = .terminal c ∨
        d.isTerminal c s = .ok false ∧ ∃ reason, d.decide c s = .ok (.error reason) ∧
          e = .rejected c reason := by
  rw [attempt]
  rcases hterminal : d.isTerminal c s with x | _ | _
  · simp [bind, Except.bind]
  · rcases d.decide c s with x | reason | events <;>
      simp [bind, Except.bind, pure, Except.pure, eq_comm]
  · simp [bind, Except.bind, pure, Except.pure, eq_comm]

namespace Program

variable {P : Exchange} {O : Type}

def attempt (d : Decider C S E R) (c : C) (s : S) : Program P (Failure C R) (List E) := do
  ofExcept (← ofChecked (d.attempt c s))

/-- The next command of a cascade, unless it lies too deep. -/
def advance (limit : DepthLimit) (reaction : O → Checked (List C)) (k : Cascade C O) :
    Program P (Failure C R) (Cascade.Next C O) := do
  match ← ofChecked (k.next reaction) with
  | .finished outputs => return .finished outputs
  | .command c depth derived rest =>
    if derived ≠ 0 then
      tell (.followUps derived depth)
    if limit.allows depth then
      return .command c depth derived rest
    tell (.depthExceeded depth)
    fail (.depthExceeded c depth)

end Program

end EventMachines
