import EventMachines.Machine.Decider
import EventMachines.Machine.Saga
import EventMachines.Machine.View

/-!
Scenarios: given a past, when something comes in, then this is expected. A scenario is checked to a
`Verdict`, and a verdict that is not a pass says what was expected and what came instead.
-/

namespace EventMachines

inductive Verdict where
  | pass
  /-- The scenario lacks something or went another way altogether. -/
  | unmet (message : String)
  /-- What came is not what was expected. -/
  | differs (message came expected : String)
  deriving DecidableEq

namespace Verdict

def missingCommand : Verdict := unmet "no command to decide: call `when` before `then`"

def missingResult : Verdict := unmet "no action result to react to: call `when` before `then`"

def compare {α : Type} [BEq α] (text : α → String) (message : String) (came expected : α) :
    Verdict :=
  if came == expected then pass else differs message (text came) (text expected)

end Verdict

/-- The text of a list, given the texts of its items. -/
def listText {α : Type} (text : α → String) (items : List α) : String :=
  "[" ++ ", ".intercalate (items.map text) ++ "]"

inductive Past (S E : Type) where
  | events (history : List E)
  | state (s : S)

/-- One call while the scenario of a decider is written. -/
inductive ScenarioCall (C S E : Type) where
  | given (history : List E)
  | givenState (s : S)
  | when (c : C)

structure DeciderScenario (C S E : Type) where
  past : Past S E
  command? : Option C

namespace DeciderScenario

variable {C S E R : Type}

def blank : DeciderScenario C S E := ⟨.events [], none⟩

def given (sc : DeciderScenario C S E) (history : List E) : DeciderScenario C S E :=
  { sc with past := .events history }

def givenState (sc : DeciderScenario C S E) (s : S) : DeciderScenario C S E :=
  { sc with past := .state s }

def when (sc : DeciderScenario C S E) (c : C) : DeciderScenario C S E :=
  { sc with command? := some c }

/-- The scenario that a chain of calls makes. -/
def written (calls : List (ScenarioCall C S E)) : DeciderScenario C S E :=
  calls.foldl (fun sc call => match call with
    | .given history => sc.given history
    | .givenState s => sc.givenState s
    | .when c => sc.when c) blank

def state (sc : DeciderScenario C S E) (d : Decider C S E R) : Checked S :=
  match sc.past with
  | .events history => d.replay history
  | .state s => .ok s

/-- What the command decides, with the state it was decided in. -/
def decided (sc : DeciderScenario C S E) (d : Decider C S E R) (c : C) :
    Checked (S × Except R (List E)) := do
  let s ← sc.state d
  return (s, ← d.decide c s)

/-- Expects exactly these events. -/
def expectEvents [BEq E] (sc : DeciderScenario C S E) (d : Decider C S E R) (event : E → String)
    (reason : R → String) (expected : List E) : Checked Verdict := do
  let some c := sc.command? | return .missingCommand
  match (← sc.decided d c).2 with
  | .ok events => return .compare (listText event) "decided events differ" events expected
  | .error r =>
    return .unmet ("expected events " ++ listText event expected
      ++ ", but the command failed: " ++ reason r)

/-- Expects the command to lead to this state. -/
def expectState [BEq S] (sc : DeciderScenario C S E) (d : Decider C S E R) (state : S → String)
    (reason : R → String) (expected : S) : Checked Verdict := do
  let some c := sc.command? | return .missingCommand
  match ← sc.decided d c with
  | (s, .ok events) =>
    return .compare state "resulting state differs" (← d.evolveAll s events) expected
  | (_, .error r) =>
    return .unmet ("expected state " ++ state expected
      ++ ", but the command failed: " ++ reason r)

/-- Expects the command to be refused for this reason. -/
def expectError [BEq R] (sc : DeciderScenario C S E) (d : Decider C S E R) (event : E → String)
    (reason : R → String) (expected : R) : Checked Verdict := do
  let some c := sc.command? | return .missingCommand
  match (← sc.decided d c).2 with
  | .ok events =>
    return .unmet ("expected error " ++ reason expected
      ++ ", but the command decided " ++ listText event events)
  | .error r => return .compare reason "rejection differs" r expected

end DeciderScenario

/-- Expects a view to make this state of a history. -/
def View.expectState {S E : Type} [BEq S] (v : View S E) (state : S → String) (history : List E)
    (expected : S) : Checked Verdict := do
  return .compare state "projected state differs" (← v.newState none history) expected

/-- Expects a saga to derive exactly these actions. -/
def Saga.expectActions {E A : Type} [BEq A] (g : Saga E A) (action : A → String)
    (result? : Option E) (expected : List A) : Checked Verdict := do
  let some result := result? | return .missingResult
  return .compare (listText action) "derived actions differ" (← g.react result) expected

/-- The scenario of a view: the history it folds. -/
structure ViewScenario (E : Type) where
  history : List E

namespace ViewScenario

variable {S E : Type}

def blank : ViewScenario E := ⟨[]⟩

def given (sc : ViewScenario E) (history : List E) : ViewScenario E := { sc with history }

def written (calls : List (List E)) : ViewScenario E := calls.foldl given blank

def expectState [BEq S] (sc : ViewScenario E) (v : View S E) (state : S → String) (expected : S) :
    Checked Verdict :=
  v.expectState state sc.history expected

end ViewScenario

/-- The scenario of a saga: the result it reacts to. -/
structure SagaScenario (E : Type) where
  result? : Option E

namespace SagaScenario

variable {E A : Type}

def blank : SagaScenario E := ⟨none⟩

def when (sc : SagaScenario E) (result : E) : SagaScenario E := { sc with result? := some result }

def written (calls : List E) : SagaScenario E := calls.foldl when blank

def expectActions [BEq A] (sc : SagaScenario E) (g : Saga E A) (action : A → String)
    (expected : List A) : Checked Verdict :=
  g.expectActions action sc.result? expected

end SagaScenario

end EventMachines
