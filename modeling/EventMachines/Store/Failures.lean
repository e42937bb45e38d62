import EventMachines.Execution.Backend

/-!
Stores that fail on purpose. A plan lists which calls fail and how; the calls of each kind are
counted over the life of the store, and a call that fails does nothing else.
-/

namespace EventMachines

inductive CallKind where
  | fetch
  | save
  | publish
  deriving DecidableEq

/-- One call of a kind, counted from one, or every call where there is no number. -/
structure PlannedFailure where
  kind : CallKind
  nth? : Option Nat
  error : StoreError

/-- How many calls of each kind there were. -/
structure Tally where
  fetches : Nat
  saves : Nat
  publishes : Nat
  deriving DecidableEq

namespace Tally

def zero : Tally := ⟨0, 0, 0⟩

def count (t : Tally) : CallKind → Nat
  | .fetch => t.fetches
  | .save => t.saves
  | .publish => t.publishes

def add (t : Tally) : CallKind → Tally
  | .fetch => { t with fetches := t.fetches + 1 }
  | .save => { t with saves := t.saves + 1 }
  | .publish => { t with publishes := t.publishes + 1 }

end Tally

/-- The failure planned for the `n`-th call of a kind; the first entry that matches counts. -/
def plannedFailure (plan : List PlannedFailure) (kind : CallKind) (n : Nat) : Option StoreError :=
  (plan.find? fun p => p.kind = kind ∧ (p.nth? = none ∨ p.nth? = some n)).map (·.error)

/-- Counts the call, and makes it only if no failure is planned for it. -/
def withPlan {α ω : Type} (plan : List PlannedFailure) (kind : CallKind)
    (call : ω → Reply α × ω) : ω × Tally → Reply α × (ω × Tally)
  | (w, t) =>
    let t := t.add kind
    match plannedFailure plan kind (t.count kind) with
    | some e => (.ok (.error e), (w, t))
    | none =>
      let (reply, w) := call w
      (reply, (w, t))

/-- The same store with planned failures; `writing` is the kind of its writes. -/
def Backend.failing {P : Exchange} {ω : Type} (b : Backend P ω) (plan : List PlannedFailure)
    (writing : CallKind) : Backend P (ω × Tally) where
  fetch i := withPlan plan .fetch (b.fetch i)
  write d := withPlan plan writing (b.write d)
  consult i w := b.consult i w.1

/-- Without a plan the store answers as before, and only counts. -/
theorem withPlan_nil {α ω : Type} (kind : CallKind) (call : ω → Reply α × ω) (w : ω) (t : Tally) :
    withPlan [] kind call (w, t) = ((call w).1, ((call w).2, t.add kind)) := rfl

end EventMachines
