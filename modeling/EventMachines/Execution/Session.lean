import EventMachines.Execution.Concurrent
import EventMachines.Execution.Handle

/-!
The steps an engine takes with its store: an item, a batch, or several items at the same time.
-/

namespace EventMachines

inductive Step (Item : Type) where
  | single (item : Item)
  | batch (items : List (Except String Item))
  /-- An item that cannot be begun does not keep the others from it. -/
  | together (items : List (Checked Item))

inductive Report (ε Answer : Type) where
  | single (outcome : Outcome ε Answer)
  | batch (results : Checked (List (Except ε Answer)))
  | together (outcomes : List (Outcome ε Answer))

/-- The report on one step, the store after it, and what happened during it. -/
structure Record (P : Exchange) (ε Answer ω : Type) where
  report : Report ε Answer
  world : ω
  transcript : List (Happening P)

variable {P : Exchange} {I R Item Answer ω : Type}

def Engine.perform (e : Engine P (Failure I R) Item Answer) (b : Backend P ω) (fuel : Nat) :
    Step Item → ω → Option (Record P (Failure I R) Answer ω)
  | .single item, w => do
    let r ← e.handle b fuel item w
    return ⟨.single r.outcome, r.world, r.transcript⟩
  | .batch items, w => do
    let r ← e.handleAll b fuel items w
    return ⟨.batch r.results, r.world, r.transcript⟩
  | .together items, w => do
    let s ← (System.start e items w).settle b fuel fuel
    return ⟨.together s.outcomes, s.world, s.transcript.reverse.map (·.2)⟩

end EventMachines
