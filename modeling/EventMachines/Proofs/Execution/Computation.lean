import EventMachines.Engine.Projection
import EventMachines.Engine.StateStored
import EventMachines.Execution.Handle
import EventMachines.Proofs.Concurrency.Contract

/-!
Computations between two calls. A program that makes no call comes to one end, wherever it runs and
whatever has happened before; so a larger program that begins with it is known from there on.

* `Computes.quiet_run`, `Computes.keeps_bind`: what follows for runs and for contracts;
* `handle_ofProgram`: an engine of a single round runs its program;
* `compute_computes`, `becomes_eq_done`: what the engines over states make of a command.
-/

namespace EventMachines

variable {P : Exchange} {C S E R ε α β ω : Type}

/-- The program makes no call and comes to that end. -/
def Program.Computes : Program P ε α → Outcome ε α → Prop
  | halt o, o' => o = o'
  | note _ rest, o' => rest.Computes o'
  | _, _ => False

namespace Program.Computes

variable {p : Program P ε α} {o : Outcome ε α}

theorem quiet_run (h : p.Computes o) (b : Backend P ω) (w : ω) :
    (p.run b w).quiet = ⟨o, w, []⟩ := by
  induction p with
  | halt o' =>
    obtain rfl : o' = o := h
    rfl
  | note n rest ih => exact ih h
  | fetch i rest => exact h.elim
  | write d rest => exact h.elim
  | consult i rest => exact h.elim

theorem keeps_bind (h : p.Computes o) {k : Contract P ε β} {f : α → Program P ε β}
    {past : List (Happening P)} : (p >>= f).Keeps k past ↔ (k.before f).ends o past := by
  rw [Program.keeps_bind]
  induction p with
  | halt o' =>
    obtain rfl : o' = o := h
    rfl
  | note n rest ih => exact ih h
  | fetch i rest => exact h.elim
  | write d rest => exact h.elim
  | consult i rest => exact h.elim

end Program.Computes

/-- An engine of a single round runs its program. -/
theorem Engine.handle_ofProgram {Item : Type} (body : Item → Program P ε α) (b : Backend P ω)
    (fuel : Nat) (item : Item) (w : ω) :
    (Engine.ofProgram body).handle b fuel item w = some ((body item).run b w) := by
  show (Engine.ofProgram body).goOn b fuel
    ((body item >>= fun a => pure (Progress.answer a)).run b w) = _
  rw [Program.run_bind]
  rcases (body item).run b w with ⟨a | e | x, w', hs⟩
  · simp [Run.andThen, Program.pure_eq_halt, Program.run]
  · simp [Run.andThen]
  · simp [Run.andThen]

/-- The end of a checked computation. -/
def Outcome.ofChecked : Checked α → Outcome ε α
  | .ok a => .done a
  | .error x => .broken x

theorem Outcome.ofChecked_eq_done {x : Checked α} {a : α} :
    (ofChecked x : Outcome ε α) = .done a ↔ x = .ok a := by
  cases x <;> simp [ofChecked]

theorem Program.ofChecked_computes (x : Checked α) :
    (ofChecked x : Program P ε α).Computes (.ofChecked x) := by
  cases x <;> rfl

/-! ## Commands over a state -/

/-- What a command makes of a state. -/
def Decider.becomes (d : Decider C S E R) (c : C) (s : S) : Outcome (Failure C R) S :=
  match d.attempt c s with
  | .error x => .broken x
  | .ok (.error e) => .failed e
  | .ok (.ok events) => .ofChecked (d.evolveAll s events)

/-- The command, which finds the one state not terminal, decides events that lead to the other. -/
def Decider.Turns (d : Decider C S E R) (c : C) (s s' : S) : Prop :=
  ∃ events, d.isTerminal c s = .ok false ∧ d.decide c s = .ok (.ok events) ∧
    d.evolveAll s events = .ok s'

theorem Decider.becomes_eq_done {d : Decider C S E R} {c : C} {s s' : S} :
    d.becomes c s = .done s' ↔ d.Turns c s s' := by
  rw [becomes]
  constructor
  · intro h
    rcases hattempt : d.attempt c s with x | e | events <;> rw [hattempt] at h
    · cases h
    · cases h
    · obtain ⟨hterminal, hdecide⟩ := Decider.attempt_eq_ok.mp hattempt
      exact ⟨events, hterminal, hdecide, Outcome.ofChecked_eq_done.mp h⟩
  · rintro ⟨events, hterminal, hdecide, hevolve⟩
    rw [Decider.attempt_eq_ok.mpr ⟨hterminal, hdecide⟩]
    exact Outcome.ofChecked_eq_done.mpr hevolve

theorem Decider.becomes_eq_failed {d : Decider C S E R} {c : C} {s : S} {e : Failure C R} :
    d.becomes c s = .failed e ↔ d.attempt c s = .ok (.error e) := by
  rw [becomes]
  rcases d.attempt c s with x | e' | events
  · simp
  · simp
  · show Outcome.ofChecked (d.evolveAll s events) = _ ↔ _
    cases d.evolveAll s events <;> simp [Outcome.ofChecked]

theorem StateStored.compute_computes (d : Decider C S E R) (c : C) (s : S) :
    (compute d c s : Program P (Failure C R) S).Computes (d.becomes c s) := by
  rw [compute, Program.attempt, Decider.becomes]
  rcases d.attempt c s with x | e | events
  · rfl
  · rfl
  · exact Program.ofChecked_computes (d.evolveAll s events)

end EventMachines
