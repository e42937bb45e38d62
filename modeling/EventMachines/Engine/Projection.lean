import EventMachines.Engine.Basic
import EventMachines.Machine.View

/-!
Engines that keep the state of a view up to date: fetch the state an event belongs to, fold the
event, save.
-/

namespace EventMachines.Projection

open Program

variable {S E : Type}

def plain (v : View S E) : Engine (Exchange.states E S) (Failure E Empty) E S :=
  .ofProgram fun e => do
    tell (.began .view)
    let stored ← read e (.fetchFailed e)
    let s ← ofChecked (v.newState stored [e])
    let saved ← save s (.storeFailed e)
    tell .viewSaved
    return saved

def locking (v : View S E) : Engine (Exchange.lockedStates E S) (Failure E Empty) E (S × Version) :=
  .ofProgram fun e => do
    tell (.began .viewLocking)
    let stored ← read e (.fetchFailed e)
    let (s, version) ← ofChecked (storedOr v.initial stored)
    let s ← ofChecked (v.evolve s e)
    let expected := ExpectedVersion.ofCurrent version
    let saved ← save (s, expected) (.storeFailed e)
    tell (.viewLocked expected saved.2)
    return saved

/-- An event that is not the next one of its key is not folded. -/
def deduplicating (v : View S E) :
    Engine (Exchange.numberedStates E S) (Failure E Empty) (E × SequenceNumber)
      (S × SequenceNumber) :=
  .ofProgram fun (e, sequence) => do
    tell (.began (.viewDeduplicating sequence))
    let stored ← read e (.fetchFailed e)
    let (s, last) ← ofChecked (storedOr v.initial stored)
    match ← ofChecked (sequence.check last) with
    | .error error =>
      tell (.eventSkipped last)
      fail (.storeFailed e error)
    | .ok () =>
      let s ← ofChecked (v.evolve s e)
      let saved ← save (s, sequence) (.storeFailed e)
      tell .viewSaved
      return saved

end EventMachines.Projection
