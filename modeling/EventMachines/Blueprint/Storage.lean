import EventMachines.Blueprint.Transform
import EventMachines.Store.Basic
import EventMachines.Store.Failures

/-!
Stores of values, as data. Everything belongs to the key its value names; a plan says what becomes
of saved values, how much of them is given back, which calls fail, and which versions are known from
elsewhere.
-/

namespace EventMachines

abbrev ValueStore := Store String Value Value Value

def Layout.byKey : Layout String Value Value Value := ⟨Value.key, Value.key, Value.key⟩

structure StorePlan where
  onSave : Transform
  echo : Echo
  failures : List PlannedFailure
  known : Table String (Option ExpectedVersion)

namespace StorePlan

def intake (p : StorePlan) : Intake Value Value Value :=
  ⟨p.onSave.apply, p.onSave.apply, p.onSave.apply, p.echo⟩

/-- The version known for the key of an input. -/
def latest (p : StorePlan) (i : Value) (_ : ValueStore) : Option ExpectedVersion :=
  (p.known.get? i.key).join

def events (p : StorePlan) : Backend (Exchange.events Value Value) (ValueStore × Tally) :=
  (Store.events .byKey p.intake).failing p.failures .save

def lockedEvents (p : StorePlan) :
    Backend (Exchange.lockedEvents Value Value) (ValueStore × Tally) :=
  (Store.lockedEvents .byKey p.intake p.latest).failing p.failures .save

def states (p : StorePlan) : Backend (Exchange.states Value Value) (ValueStore × Tally) :=
  (Store.states .byKey p.intake).failing p.failures .save

def lockedStates (p : StorePlan) :
    Backend (Exchange.lockedStates Value Value) (ValueStore × Tally) :=
  (Store.lockedStates .byKey p.intake p.latest).failing p.failures .save

def numberedStates (p : StorePlan) :
    Backend (Exchange.numberedStates Value Value) (ValueStore × Tally) :=
  (Store.numberedStates .byKey p.intake).failing p.failures .save

def actions (p : StorePlan) : Backend (Exchange.actions Value Value) (ValueStore × Tally) :=
  (Store.actions p.intake).failing p.failures .publish

end StorePlan

end EventMachines
