import EventMachines.Token.SequenceNumber
import EventMachines.Token.Version

/-!
What an engine tells about its work: that it began with an input, and what happened on the way.
Every note is written down as an `Entry`, a span or a message with named fields.
-/

namespace EventMachines

/-- Which engine took up an input. -/
inductive Scope where
  | eventSourced
  | eventSourcedLocking
  | eventSourcedOrchestrating
  | eventSourcedLockingOrchestrating
  | stateStored
  | stateStoredLocking
  | stateStoredDeduplicating (sequence : SequenceNumber)
  | stateStoredOrchestrating
  | stateStoredLockingOrchestrating
  | view
  | viewLocking
  | viewDeduplicating (sequence : SequenceNumber)
  | dispatch
  deriving DecidableEq

inductive Note where
  | began (scope : Scope)
  | nothingDecided (history : Nat)
  | eventsSaved (history saved : Nat)
  | eventsLocked (expected : ExpectedVersion) (saved : Nat) (last : Option Version)
  | followUps (count depth : Nat)
  | depthExceeded (depth : Nat)
  | orchestrated (events : Nat)
  | decided (events : Nat)
  | cascaded (events : Nat)
  | stateSaved
  | stateLocked (expected : ExpectedVersion) (version : Version)
  | commandSkipped (last : Option SequenceNumber)
  | eventSkipped (last : Option SequenceNumber)
  | viewSaved
  | viewLocked (expected : ExpectedVersion) (version : Version)
  | published (actions : Nat)
  | inputUnreadable (reason : String)
  deriving DecidableEq

namespace Note

inductive Level where
  | warn
  | debug
  | trace
  deriving DecidableEq

def Level.text : Level → String
  | .warn => "warn"
  | .debug => "debug"
  | .trace => "trace"

inductive Field where
  | number (n : Nat)
  | text (s : String)
  deriving DecidableEq

inductive Entry where
  | span (name : String) (fields : List (String × Field))
  | event (level : Level) (message : String) (fields : List (String × Field))
  deriving DecidableEq

end Note

open Note in
def Scope.fields : Scope → List (String × Field)
  | eventSourced => [("aggregate", .text "event_sourced")]
  | eventSourcedLocking => [("aggregate", .text "event_sourced_locking")]
  | eventSourcedOrchestrating => [("aggregate", .text "event_sourced_orchestrating")]
  | eventSourcedLockingOrchestrating =>
    [("aggregate", .text "event_sourced_locking_orchestrating")]
  | stateStored => [("aggregate", .text "state_stored")]
  | stateStoredLocking => [("aggregate", .text "state_stored_locking")]
  | stateStoredDeduplicating sequence =>
    [("aggregate", .text "state_stored_deduplicating"), ("sequence", .text sequence.text)]
  | stateStoredOrchestrating => [("aggregate", .text "state_stored_orchestrating")]
  | stateStoredLockingOrchestrating =>
    [("aggregate", .text "state_stored_locking_orchestrating")]
  | view => [("view", .text "plain")]
  | viewLocking => [("view", .text "locking")]
  | viewDeduplicating sequence =>
    [("view", .text "deduplicating"), ("sequence", .text sequence.text)]
  | dispatch => []

namespace Note

/-- A field that is left out where there is no number. -/
def optional (name : String) : Option UInt64 → List (String × Field)
  | none => []
  | some n => [(name, .number n.toNat)]

def entry : Note → Entry
  | began scope => .span "handle" scope.fields
  | nothingDecided history =>
    .event .debug "command decided no events" [("history", .number history)]
  | eventsSaved history saved =>
    .event .debug "events saved" [("history", .number history), ("saved", .number saved)]
  | eventsLocked expected saved last =>
    .event .debug "events saved"
      ([("expected", .text expected.text), ("saved", .number saved)]
        ++ optional "version" (last.map (·.number)))
  | followUps count depth =>
    .event .trace "saga derived follow-up commands"
      [("count", .number count), ("depth", .number depth)]
  | depthExceeded depth =>
    .event .warn "orchestration aborted: depth limit exceeded" [("depth", .number depth)]
  | orchestrated events => .event .debug "orchestration finished" [("events", .number events)]
  | decided events => .event .trace "command decided" [("events", .number events)]
  | cascaded events => .event .trace "cascade finished" [("events", .number events)]
  | stateSaved => .event .debug "state saved" []
  | stateLocked expected version =>
    .event .debug "state saved"
      [("expected", .text expected.text), ("version", .text version.text)]
  | commandSkipped last =>
    .event .debug "command skipped as duplicate" (optional "last" (last.map (·.number)))
  | eventSkipped last =>
    .event .debug "event skipped as duplicate" (optional "last" (last.map (·.number)))
  | viewSaved => .event .debug "view state saved" []
  | viewLocked expected version =>
    .event .debug "view state saved"
      [("expected", .text expected.text), ("version", .text version.text)]
  | published actions => .event .debug "actions published" [("published", .number actions)]
  | inputUnreadable reason =>
    .event .debug "upstream input could not be read" [("error", .text reason)]

end Note

end EventMachines
