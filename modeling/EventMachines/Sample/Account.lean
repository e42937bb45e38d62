import EventMachines.Machine.Decider
import EventMachines.Machine.View
import EventMachines.Store.Basic

/-!
Accounts with a balance each. A command books an amount on an account, which says where the event
and the balance belong.
-/

namespace EventMachines.Account

/-- What an account is known by, and an amount on it. -/
abbrev Entry := Nat × Nat

/-- No more than a thousand is booked at once. -/
def decider : Decider Entry Entry Entry String :=
  .total (fun booking _ => if booking.2 ≤ 1000 then .ok [booking] else .error "too much")
    (fun balance booking => (booking.1, balance.2 + booking.2)) (0, 0) fun _ _ => false

/-- The balance of the booked account. -/
def view : View Entry Entry :=
  .total (fun balance booking => (booking.1, balance.2 + booking.2)) (0, 0)

def layout : Layout Nat Entry Entry Entry := ⟨Prod.fst, Prod.fst, Prod.fst⟩

end EventMachines.Account
