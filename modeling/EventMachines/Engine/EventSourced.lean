import EventMachines.Engine.Basic
import EventMachines.Machine.Saga

/-!
Engines whose data is the history of events. A command is decided in the state that the fetched
history leads to, and what it decides is appended. The locking engines name the version they expect
the history to have; the orchestrating ones go on with the commands that a saga derives from what
was saved.
-/

namespace EventMachines.EventSourced

open Program

variable {C S E R : Type}

/-- Decides one command and appends what it decided. -/
def execute (d : Decider C S E R) (c : C) :
    Program (Exchange.events C E) (Failure C R) (List E) := do
  let history ← read c (.fetchFailed c)
  let s ← ofChecked (d.replay history)
  let events ← attempt d c s
  if events.isEmpty then
    tell (.nothingDecided history.length)
    return []
  let saved ← save events (.storeFailed c)
  tell (.eventsSaved history.length saved.length)
  return saved

/-- The version of the last event of a history. -/
def lastVersion (history : List (E × Version)) : Option Version :=
  history.getLast?.map (·.2)

/-- Decides one command and appends what it decided to the version it was decided on, or to the one
that is asked for. -/
def executeLocking (d : Decider C S E R) (c : C) (asked : Option ExpectedVersion) :
    Program (Exchange.lockedEvents C E) (Failure C R) (List (E × Version)) := do
  let history ← read c (.fetchFailed c)
  let s ← ofChecked (d.replay (history.map (·.1)))
  let events ← attempt d c s
  if events.isEmpty then
    tell (.nothingDecided history.length)
    return []
  let expected := asked.getD (.ofCurrent (lastVersion history))
  let saved ← save (events, expected) (.storeFailed c)
  tell (.eventsLocked expected saved.length (lastVersion saved))
  return saved

def plain (d : Decider C S E R) : Engine (Exchange.events C E) (Failure C R) C (List E) :=
  .ofProgram fun c => do
    tell (.began .eventSourced)
    execute d c

def locking (d : Decider C S E R) :
    Engine (Exchange.lockedEvents C E) (Failure C R) C (List (E × Version)) :=
  .ofProgram fun c => do
    tell (.began .eventSourcedLocking)
    executeLocking d c none

def orchestrating (d : Decider C S E R) (g : Saga E C) (limit : DepthLimit) :
    Engine (Exchange.events C E) (Failure C R) C (List E) where
  Pending := Cascade C E
  start c := do
    tell (.began .eventSourcedOrchestrating)
    return .again (.start c)
  resume k := do
    match ← advance limit g.react k with
    | .finished events =>
      tell (.orchestrated events.length)
      return .answer events
    | .command c depth _ rest =>
      let saved ← execute d c
      return .again (rest.push saved depth)

/-- Only the command that starts the cascade may ask for a version of its own. -/
def lockingOrchestrating (d : Decider C S E R) (g : Saga E C) (limit : DepthLimit) :
    Engine (Exchange.lockedEvents C E) (Failure C R) C (List (E × Version)) where
  Pending := Cascade C (E × Version)
  start c := do
    tell (.began .eventSourcedLockingOrchestrating)
    return .again (.start c)
  resume k := do
    match ← advance limit (fun saved => g.react saved.1) k with
    | .finished events =>
      tell (.orchestrated events.length)
      return .answer events
    | .command c depth _ rest =>
      let asked ← if depth = 0 then expect c else pure none
      let saved ← executeLocking d c asked
      return .again (rest.push saved depth)

end EventMachines.EventSourced
