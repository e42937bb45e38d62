import EventMachines.Engine.Basic
import EventMachines.Machine.Saga

/-!
Engines whose data is the latest state. A command is decided in the stored state and the state it
leads to replaces that one. The orchestrating engines run a whole cascade in memory between one
fetch and one save, so nothing of a cascade that fails is stored.
-/

namespace EventMachines.StateStored

open Program

variable {C S E R : Type} {P : Exchange}

/-- The state a command leads to. -/
def compute (d : Decider C S E R) (c : C) (s : S) : Program P (Failure C R) S := do
  let events ← attempt d c s
  tell (.decided events.length)
  ofChecked (d.evolveAll s events)

def saveLocking (c : C) (s : S) (expected : ExpectedVersion) :
    Program (Exchange.lockedStates C S) (Failure C R) (S × Version) := do
  let saved ← save (s, expected) (.storeFailed c)
  tell (.stateLocked expected saved.2)
  return saved

def plain (d : Decider C S E R) : Engine (Exchange.states C S) (Failure C R) C S :=
  .ofProgram fun c => do
    tell (.began .stateStored)
    let stored ← read c (.fetchFailed c)
    let s ← compute d c (← ofChecked (d.current stored))
    let saved ← save s (.storeFailed c)
    tell .stateSaved
    return saved

def locking (d : Decider C S E R) :
    Engine (Exchange.lockedStates C S) (Failure C R) C (S × Version) :=
  .ofProgram fun c => do
    tell (.began .stateStoredLocking)
    let stored ← read c (.fetchFailed c)
    let (s, version) ← ofChecked (storedOr d.initial stored)
    let s ← compute d c s
    saveLocking c s (.ofCurrent version)

/-- A command that is not the next one of its key is refused before anything is decided. -/
def deduplicating (d : Decider C S E R) :
    Engine (Exchange.numberedStates C S) (Failure C R) (C × SequenceNumber) (S × SequenceNumber) :=
  .ofProgram fun (c, sequence) => do
    tell (.began (.stateStoredDeduplicating sequence))
    let stored ← read c (.fetchFailed c)
    let (s, last) ← ofChecked (storedOr d.initial stored)
    match ← ofChecked (sequence.check last) with
    | .error e =>
      tell (.commandSkipped last)
      fail (.storeFailed c e)
    | .ok () =>
      let s ← compute d c s
      let saved ← save (s, sequence) (.storeFailed c)
      tell .stateSaved
      return saved

/-- A cascade in memory: the command that started it, the state so far, and the work left. -/
structure Orchestration (C S E : Type) where
  command : C
  state : S
  cascade : Cascade C E

/-- One command of a cascade in memory, or the state in which the cascade ends. -/
def Orchestration.advance (d : Decider C S E R) (g : Saga E C) (limit : DepthLimit)
    (run : Orchestration C S E) : Program P (Failure C R) (S ⊕ Orchestration C S E) := do
  match ← Program.advance limit g.react run.cascade with
  | .finished events =>
    tell (.cascaded events.length)
    return .inl run.state
  | .command c depth _ rest =>
    let events ← attempt d c run.state
    let s ← ofChecked (d.evolveAll run.state events)
    return .inr { run with state := s, cascade := rest.push events depth }

def orchestrating (d : Decider C S E R) (g : Saga E C) (limit : DepthLimit) :
    Engine (Exchange.states C S) (Failure C R) C S where
  Pending := Orchestration C S E
  start c := do
    tell (.began .stateStoredOrchestrating)
    let stored ← read c (.fetchFailed c)
    let s ← ofChecked (d.current stored)
    return .again ⟨c, s, .start c⟩
  resume run := do
    match ← run.advance d g limit with
    | .inr rest => return .again rest
    | .inl s =>
      let saved ← save s (.storeFailed run.command)
      tell .stateSaved
      return .answer saved

/-- The version to expect is asked for when the cascade has ended. -/
def lockingOrchestrating (d : Decider C S E R) (g : Saga E C) (limit : DepthLimit) :
    Engine (Exchange.lockedStates C S) (Failure C R) C (S × Version) where
  Pending := Orchestration C S E × Option Version
  start c := do
    tell (.began .stateStoredLockingOrchestrating)
    let stored ← read c (.fetchFailed c)
    let (s, version) ← ofChecked (storedOr d.initial stored)
    return .again (⟨c, s, .start c⟩, version)
  resume := fun (run, version) => do
    match ← run.advance d g limit with
    | .inr rest => return .again (rest, version)
    | .inl s =>
      let asked ← expect run.command
      let saved ← saveLocking run.command s (asked.getD (.ofCurrent version))
      return .answer saved

end EventMachines.StateStored
