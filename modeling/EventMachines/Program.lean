import EventMachines.Note
import EventMachines.StoreError

/-!
Programs of the engines. A program is the finite tree of what it asks of its store and what it does
with each possible answer, so running it, interleaving it with others and comparing it with another
program are functions on data. The statements are the monad laws, and what a larger program looks
like that begins with one of the small ones.
-/

namespace EventMachines

/-- What an engine and its store exchange: the inputs data is fetched for, the data, what is
written, and what the store answers to a write. -/
structure Exchange where
  Input : Type
  Read : Type
  Write : Type
  Ack : Type

namespace Exchange

abbrev events (C E : Type) : Exchange := ⟨C, List E, List E, List E⟩

abbrev lockedEvents (C E : Type) : Exchange :=
  ⟨C, List (E × Version), List E × ExpectedVersion, List (E × Version)⟩

abbrev states (I S : Type) : Exchange := ⟨I, Option S, S, S⟩

abbrev lockedStates (I S : Type) : Exchange :=
  ⟨I, Option (S × Version), S × ExpectedVersion, S × Version⟩

abbrev numberedStates (I S : Type) : Exchange :=
  ⟨I, Option (S × SequenceNumber), S × SequenceNumber, S × SequenceNumber⟩

abbrev actions (I A : Type) : Exchange := ⟨I, Empty, List A, List A⟩

end Exchange

inductive Outcome (ε α : Type) where
  | done (answer : α)
  | failed (failure : ε)
  | broken (fault : Fault)
  deriving DecidableEq

inductive Program (P : Exchange) (ε α : Type) where
  | halt (outcome : Outcome ε α)
  | note (n : Note) (rest : Program P ε α)
  | fetch (input : P.Input) (rest : Except StoreError P.Read → Program P ε α)
  | write (data : P.Write) (rest : Except StoreError P.Ack → Program P ε α)
  /-- Asks which version to expect; `none` leaves that to what was fetched. -/
  | consult (input : P.Input) (rest : Option ExpectedVersion → Program P ε α)

namespace Program

variable {P : Exchange} {ε α β γ : Type}

def bind : Program P ε α → (α → Program P ε β) → Program P ε β
  | halt (.done a), f => f a
  | halt (.failed e), _ => halt (.failed e)
  | halt (.broken x), _ => halt (.broken x)
  | note n rest, f => note n (rest.bind f)
  | fetch i rest, f => fetch i fun r => (rest r).bind f
  | write d rest, f => write d fun r => (rest r).bind f
  | consult i rest, f => consult i fun r => (rest r).bind f

instance : Monad (Program P ε) where
  pure a := halt (.done a)
  bind := bind

theorem bind_pure' (p : Program P ε α) : p.bind (fun a => halt (.done a)) = p := by
  induction p with
  | halt o => cases o <;> rfl
  | note n rest ih => simp [bind, ih]
  | fetch i rest ih => simp [bind, ih]
  | write d rest ih => simp [bind, ih]
  | consult i rest ih => simp [bind, ih]

theorem bind_assoc' (p : Program P ε α) (f : α → Program P ε β) (g : β → Program P ε γ) :
    (p.bind f).bind g = p.bind fun a => (f a).bind g := by
  induction p with
  | halt o => cases o <;> rfl
  | note n rest ih => simp [bind, ih]
  | fetch i rest ih => simp [bind, ih]
  | write d rest ih => simp [bind, ih]
  | consult i rest ih => simp [bind, ih]

instance : LawfulMonad (Program P ε) :=
  LawfulMonad.mk' _ (fun p => bind_pure' p) (fun _ _ => rfl) bind_assoc'

def tell (n : Note) : Program P ε Unit := note n (pure ())

def fail (e : ε) : Program P ε α := halt (.failed e)

def ofChecked : Checked α → Program P ε α
  | .ok a => pure a
  | .error x => halt (.broken x)

def ofExcept : Except ε α → Program P ε α
  | .ok a => pure a
  | .error e => fail e

/-- Fetches, and fails where the store does. -/
def read (input : P.Input) (failure : StoreError → ε) : Program P ε P.Read :=
  fetch input fun
    | .ok data => pure data
    | .error e => fail (failure e)

/-- Writes, and fails where the store does. -/
def save (data : P.Write) (failure : StoreError → ε) : Program P ε P.Ack :=
  write data fun
    | .ok ack => pure ack
    | .error e => fail (failure e)

def expect (input : P.Input) : Program P ε (Option ExpectedVersion) :=
  consult input pure

@[simp] theorem ofChecked_ok (a : α) : (ofChecked (.ok a) : Program P ε α) = pure a := rfl

@[simp] theorem ofChecked_error (x : Fault) :
    (ofChecked (.error x) : Program P ε α) = halt (.broken x) := rfl

@[simp] theorem ofExcept_ok (a : α) : (ofExcept (.ok a) : Program P ε α) = pure a := rfl

theorem pure_eq_halt (a : α) : (pure a : Program P ε α) = halt (.done a) := rfl

@[simp] theorem halt_broken_bind (x : Fault) (f : α → Program P ε β) :
    halt (.broken x) >>= f = halt (.broken x) := rfl

@[simp] theorem tell_bind (n : Note) (f : Unit → Program P ε β) :
    tell n >>= f = note n (f ()) := rfl

theorem read_bind (i : P.Input) (failure : StoreError → ε) (f : P.Read → Program P ε β) :
    read i failure >>= f = fetch i fun
      | .ok data => f data
      | .error e => halt (.failed (failure e)) := by
  refine congrArg (fetch i) (funext fun r => ?_)
  cases r <;> rfl

theorem save_bind (d : P.Write) (failure : StoreError → ε) (f : P.Ack → Program P ε β) :
    save d failure >>= f = write d fun
      | .ok ack => f ack
      | .error e => halt (.failed (failure e)) := by
  refine congrArg (write d) (funext fun r => ?_)
  cases r <;> rfl

end Program

end EventMachines
