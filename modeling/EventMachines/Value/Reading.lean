import EventMachines.Value.Basic

/-!
What can be read off a value of any shape, and changes made at every depth. A value with a `side`
stands for the value it carries.
-/

namespace EventMachines.Value

mutual

/-- The key a value belongs to; the empty text where it names none. -/
def key : Value → String
  | obj fields =>
    if (lookup "side" fields).isSome then carriedKey fields
    else ((lookup "key" fields).bind str?).getD ""
  | arr items => firstKey items
  | _ => ""

def carriedKey : Fields → String
  | [] => ""
  | (k, v) :: rest => if k = "value" then v.key else carriedKey rest

/-- The first key that is not empty. -/
def firstKey : List Value → String
  | [] => ""
  | v :: rest => if v.key = "" then firstKey rest else v.key

end

mutual

/-- The number a value amounts to. -/
def amount : Value → Checked Int
  | arr items => total 0 items
  | obj fields => ((amountOf "value" fields).or (amountOf "sum" fields)).getD (.ok 0)
  | v => .ok (v.int64?.getD 0)

/-- Adds the items to a sum one after the other. -/
def total (sum : Int) : List Value → Checked Int
  | [] => return sum
  | v :: rest => do total (← checkedAdd sum (← v.amount)) rest

def amountOf (name : String) : Fields → Option (Checked Int)
  | [] => none
  | (k, v) :: rest => if k = name then some v.amount else amountOf name rest

end

mutual

/-- Changes the fields of every object that is not itself a carrier of another value. -/
def inside (f : Fields → Checked Fields) : Value → Checked Value
  | obj fields =>
    if (lookup "side" fields).isSome then return obj (← insideCarried f fields)
    else return obj (← f fields)
  | arr items => return arr (← insideItems f items)
  | v => return v

def insideCarried (f : Fields → Checked Fields) : Fields → Checked Fields
  | [] => return []
  | (k, v) :: rest => do
    if k = "value" then return (k, ← v.inside f) :: rest
    return (k, v) :: (← insideCarried f rest)

def insideItems (f : Fields → Checked Fields) : List Value → Checked (List Value)
  | [] => return []
  | v :: rest => return (← v.inside f) :: (← insideItems f rest)

end

end EventMachines.Value
