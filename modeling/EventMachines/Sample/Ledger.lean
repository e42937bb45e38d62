import EventMachines.Machine.Decider
import EventMachines.Machine.Saga
import EventMachines.Machine.View
import EventMachines.Value.Reading

/-!
Ledgers over values of any shape. A command says itself whether it is refused and what it emits; an
event adds the number it carries to the sum and to the log.
-/

namespace EventMachines.Ledger

/-- A field of a command may be missing, but not be of another kind. -/
def optional {α : Type} (c : Value) (name : String) (read : Value → Option α) :
    Checked (Option α) :=
  match c.field? name with
  | none => return none
  | some w => return some (← Checked.ofOption (read w))

/-- The number in a field of a state or an event; without one it is zero. -/
def number (v : Value) (name : String) : Int := ((v.field? name).bind Value.int64?).getD 0

/-- The entries that a state has logged. -/
def logged (s : Value) : List Value := ((s.field? "log").bind Value.arr?).getD []

def state (key : String) (sum : Int) (log : List Value) : Value :=
  .obj [("key", .str key), ("log", .arr log), ("sum", .int sum)]

def opening (sum : Int) : Value := state "" sum []

def entry (key : String) (n : Int) : Value := .obj [("key", .str key), ("n", .int n)]

/-- A number of any size is booked under the command's key, anything else is an event already. -/
def emitted (key : String) (item : Value) : Value :=
  match item with
  | .int n => entry key n
  | _ => item

def decide (c s : Value) : Checked (Except String (List Value)) := do
  if let some reason ← optional c "reject" Value.str? then
    return .error reason
  let sum := number s "sum"
  if let some need ← optional c "need" Value.int64? then
    if sum < need then
      return .error ("need " ++ toString need ++ ", have " ++ toString sum)
  let copy := match c.field? "copy" with
    | some (.bool true) => [entry c.key sum]
    | _ => []
  let items ← optional c "emit" Value.arr?
  return .ok (copy ++ (items.getD []).map (emitted c.key))

def evolve (s event : Value) : Checked Value := do
  let n := number event "n"
  return state event.key (← checkedAdd (number s "sum") n) (logged s ++ [.int n])

def decider (sum : Int) : Decider Value Value Value String where
  decide := decide
  evolve := evolve
  initial := .ok (opening sum)
  isTerminal _ _ := .ok false

def view (sum : Int) : View Value Value := ⟨evolve, .ok (opening sum)⟩

/-- The command that emits one number. -/
def emitting (key : String) (n : Int) : Value :=
  .obj [("emit", .arr [.int n]), ("key", .str key)]

/-- A positive number is followed by the one below it, under the given key or its own. -/
def countdown (key? : Option String) : Saga Value Value :=
  .total fun event =>
    let n := number event "n"
    if 0 < n then [emitting (key?.getD event.key) (n - 1)] else []

/-- A number from two on is followed by the two below it. -/
def split : Saga Value Value :=
  .total fun event =>
    let n := number event "n"
    if 2 ≤ n then [emitting event.key (n - 1), emitting event.key (n - 2)] else []

end EventMachines.Ledger
