import EventMachines.Program

/-!
Running programs against a store. A `Backend` says how the store answers and how it changes; running
a program gives its outcome, the store afterwards and the transcript of all that happened. The
statement says that a program in two parts runs as one after the other.
-/

namespace EventMachines

/-- The answer to one call: data, an error, or a fault in the store itself. -/
abbrev Reply (α : Type) := Checked (Except StoreError α)

/-- A store of state `ω` on the other side of the exchange `P`. -/
structure Backend (P : Exchange) (ω : Type) where
  fetch : P.Input → ω → Reply P.Read × ω
  write : P.Write → ω → Reply P.Ack × ω
  consult : P.Input → ω → Option ExpectedVersion

inductive Happening (P : Exchange) where
  | noted (n : Note)
  | fetched (input : P.Input) (reply : Reply P.Read)
  | wrote (data : P.Write) (reply : Reply P.Ack)
  | consulted (input : P.Input) (answer : Option ExpectedVersion)

structure Run (P : Exchange) (ε α ω : Type) where
  outcome : Outcome ε α
  world : ω
  transcript : List (Happening P)

variable {P : Exchange} {ε α β ω : Type}

/-- The run that has one more happening in front. -/
def Run.after (h : Happening P) (r : Run P ε α ω) : Run P ε α ω :=
  { r with transcript := h :: r.transcript }

def Program.run (b : Backend P ω) : Program P ε α → ω → Run P ε α ω
  | .halt o, w => ⟨o, w, []⟩
  | .note n rest, w => (rest.run b w).after (.noted n)
  | .fetch i rest, w =>
    match b.fetch i w with
    | (.ok r, w) => ((rest r).run b w).after (.fetched i (.ok r))
    | (.error x, w) => ⟨.broken x, w, [.fetched i (.error x)]⟩
  | .write d rest, w =>
    match b.write d w with
    | (.ok r, w) => ((rest r).run b w).after (.wrote d (.ok r))
    | (.error x, w) => ⟨.broken x, w, [.wrote d (.error x)]⟩
  | .consult i rest, w =>
    ((rest (b.consult i w)).run b w).after (.consulted i (b.consult i w))

/-- What a run goes on to, given the program that follows its answer. -/
def Run.andThen (r : Run P ε α ω) (f : α → ω → Run P ε β ω) : Run P ε β ω :=
  match r.outcome with
  | .done a =>
    let s := f a r.world
    { s with transcript := r.transcript ++ s.transcript }
  | .failed e => ⟨.failed e, r.world, r.transcript⟩
  | .broken x => ⟨.broken x, r.world, r.transcript⟩

theorem Run.andThen_after (h : Happening P) (r : Run P ε α ω) (f : α → ω → Run P ε β ω) :
    (r.after h).andThen f = (r.andThen f).after h := by
  rcases r with ⟨o, w, hs⟩
  cases o <;> rfl

theorem Program.run_bind (b : Backend P ω) (p : Program P ε α) (f : α → Program P ε β) (w : ω) :
    (p >>= f).run b w = (p.run b w).andThen fun a w => (f a).run b w := by
  show (p.bind f).run b w = _
  induction p generalizing w with
  | halt o => cases o <;> rfl
  | note n rest ih => simp [Program.bind, Program.run, Run.andThen_after, ih]
  | fetch i rest ih =>
    simp only [Program.bind, Program.run]
    split
    · simp [Run.andThen_after, ih]
    · rfl
  | write d rest ih =>
    simp only [Program.bind, Program.run]
    split
    · simp [Run.andThen_after, ih]
    · rfl
  | consult i rest ih => simp [Program.bind, Program.run, Run.andThen_after, ih]

end EventMachines
