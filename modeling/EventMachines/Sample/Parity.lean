import EventMachines.Machine.Decider
import EventMachines.Machine.Saga
import EventMachines.Machine.View
import EventMachines.Value.Codec

/-!
Running totals that take numbers of one parity only. What is added to one total may cause the number
below it to be added to the other.
-/

namespace EventMachines

inductive Parity where
  | even
  | odd
  deriving DecidableEq

namespace Parity

inductive Command where
  | add (n : Int)
  | subtract (n : Int)
  deriving DecidableEq

inductive Event where
  | added (n : Int)
  | subtracted (n : Int)
  deriving DecidableEq

structure Total where
  value : Int
  deriving DecidableEq

inductive Refusal where
  | wrongParity (wanted : Parity) (n : Int)
  | tooLarge (n : Int)
  | negative (result : Int)
  deriving DecidableEq

def Refusal.message : Refusal → String
  | wrongParity even n => toString n ++ " is not an even number"
  | wrongParity odd n => toString n ++ " is not an odd number"
  | tooLarge n => toString n ++ " exceeds the limit of 1000"
  | negative result => "result " ++ toString result ++ " would be negative"

def ofInt (n : Int) : Parity := if n % 2 = 0 then even else odd

/-- The limit comes before the parity. -/
def accept (p : Parity) (n : Int) : Except Refusal Unit :=
  if 1000 < n then .error (.tooLarge n)
  else if ofInt n = p then .ok ()
  else .error (.wrongParity p n)

def decide (p : Parity) : Command → Total → Checked (Except Refusal (List Event))
  | .add n, _ => .ok do
    accept p n
    return [.added n]
  | .subtract n, total =>
    match accept p n with
    | .error refusal => .ok (.error refusal)
    | .ok () => do
      let result ← checkedSub total.value n
      return if result < 0 then .error (.negative result) else .ok [.subtracted n]

def evolve (total : Total) : Event → Checked Total
  | .added n => do return ⟨← checkedAdd total.value n⟩
  | .subtracted n => do return ⟨← checkedSub total.value n⟩

def decider (p : Parity) : Decider Command Total Event Refusal where
  decide := p.decide
  evolve := evolve
  initial := .ok ⟨0⟩
  isTerminal _ _ := .ok false

def view : View Total Event := ⟨evolve, .ok ⟨0⟩⟩

/-- Adding a number above `least` adds the number below it elsewhere. -/
def stepDown (least : Int) : Saga Event Command :=
  .total fun
    | .added n => if least < n then [.add (n - 1)] else []
    | .subtracted _ => []

def evenToOdd : Saga Event Command := stepDown 0

def oddToEven : Saga Event Command := stepDown 1

/-- A number in the field of the first of two names, or else of the second. -/
def readEither {α : Type} (first second : String) (onFirst onSecond : Int → α) (v : Value) :
    Option α :=
  match v.field? first with
  | some n => n.int64?.map onFirst
  | none => do onSecond (← (← v.field? second).int64?)

def commandCodec : Codec Command where
  encode
    | .add n => .obj [("Add", .int n)]
    | .subtract n => .obj [("Subtract", .int n)]
  decode := readEither "Add" "Subtract" .add .subtract

def eventCodec : Codec Event where
  encode
    | .added n => .obj [("Added", .int n)]
    | .subtracted n => .obj [("Subtracted", .int n)]
  decode := readEither "Added" "Subtracted" .added .subtracted

def totalCodec : Codec Total where
  encode total := .obj [("value", .int total.value)]
  decode v := do return ⟨← (← v.field? "value").int64?⟩

end Parity

end EventMachines
