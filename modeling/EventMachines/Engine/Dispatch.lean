import EventMachines.Engine.Basic
import EventMachines.Machine.Saga

/-!
The engine that publishes the actions of a saga. It has no data of its own: it reacts, and hands all
actions over at once, even if there are none.
-/

namespace EventMachines

open Program in
def dispatch {E A : Type} (g : Saga E A) :
    Engine (Exchange.actions E A) (Failure E Empty) E (List A) :=
  .ofProgram fun e => do
    tell (.began .dispatch)
    let actions ← ofChecked (g.react e)
    let published ← save actions fun error => .publishingFailed (some e) (.store error)
    tell (.published published.length)
    return published

end EventMachines
