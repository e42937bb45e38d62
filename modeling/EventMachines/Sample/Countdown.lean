import EventMachines.Machine.Decider
import EventMachines.Machine.Saga
import EventMachines.Store.Basic

/-!
Sums of numbers that cause smaller numbers. There is one sum only, so everything belongs under one
key.
-/

namespace EventMachines

/-- Sums up the numbers it is given. -/
def Decider.summing : Decider Nat Nat Nat String :=
  total (fun n _ => if n < 9 then .ok [n] else .error "too large") (fun sum n => sum + n) 0
    fun _ sum => 20 < sum

/-- Every number is followed by the two below it. -/
def Saga.countdown : Saga Nat Nat := total fun n => if 1 < n then [n - 1, n - 2] else []

/-- Every number becomes the two below it. -/
def Decider.splitting : Decider Nat Nat Nat String :=
  { summing with decide := fun n _ => .ok (.ok [n - 1, n - 2]) }

/-- Every number above one is taken up again. -/
def Saga.again : Saga Nat Nat := total fun n => if 1 < n then [n] else []

/-- Every number causes itself, for ever. -/
def Saga.endless : Saga Nat Nat := total fun n => [n]

/-- Only numbers that are too large for the sum are taken up again. -/
def Saga.beyond : Saga Nat Nat := total fun n => if 8 < n then [n] else []

/-- Every number on the right is followed by the same number on the left. -/
def Saga.leftwards : Saga (Nat ⊕ Nat) (Nat ⊕ Nat) :=
  total fun
    | .inl _ => []
    | .inr n => [.inl n]

def Layout.single : Layout Unit Nat Nat Nat := ⟨fun _ => (), fun _ => (), fun _ => ()⟩

end EventMachines
