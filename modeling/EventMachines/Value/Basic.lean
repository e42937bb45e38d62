import EventMachines.Fault

/-!
Values without a fixed type: what commands, events, states and actions are made of where no machine
gives them one. The order of an object's fields carries no meaning, so two values are the same when
they agree after sorting.
-/

namespace EventMachines

inductive Value where
  | null
  | bool (b : Bool)
  | int (n : Int)
  | str (s : String)
  | arr (items : List Value)
  | obj (fields : List (String × Value))

namespace Value

abbrev Fields := List (String × Value)

def lookup (name : String) : Fields → Option Value
  | [] => none
  | (k, v) :: rest => if k = name then some v else lookup name rest

/-- Replaces the field, or adds it. -/
def assign (name : String) (value : Value) : Fields → Fields
  | [] => [(name, value)]
  | (k, v) :: rest => if k = name then (k, value) :: rest else (k, v) :: assign name value rest

/-- A field of an object; anything else has none. -/
def field? (v : Value) (name : String) : Option Value :=
  match v with
  | obj fields => lookup name fields
  | _ => none

/-- The signed 64-bit number that a value is. -/
def int64? : Value → Option Int
  | int n => if InRange n then some n else none
  | _ => none

def str? : Value → Option String
  | str s => some s
  | _ => none

def arr? : Value → Option (List Value)
  | arr items => some items
  | _ => none

/-- Puts a field in front of the first one with a larger name. -/
def insertSorted (name : String) (value : Value) : Fields → Fields
  | [] => [(name, value)]
  | (k, v) :: rest =>
    if name ≤ k then (name, value) :: (k, v) :: rest else (k, v) :: insertSorted name value rest

mutual

/-- The same value with the fields of all objects in order. -/
def canonical : Value → Value
  | arr items => arr (canonicalItems items)
  | obj fields => obj (canonicalFields fields)
  | v => v

def canonicalItems : List Value → List Value
  | [] => []
  | v :: rest => v.canonical :: canonicalItems rest

def canonicalFields : Fields → Fields
  | [] => []
  | (k, v) :: rest => insertSorted k v.canonical (canonicalFields rest)

end

mutual

def identical : Value → Value → Bool
  | null, null => true
  | bool a, bool b => a == b
  | int a, int b => a == b
  | str a, str b => a == b
  | arr a, arr b => identicalItems a b
  | obj a, obj b => identicalFields a b
  | _, _ => false

def identicalItems : List Value → List Value → Bool
  | [], [] => true
  | a :: as, b :: bs => a.identical b && identicalItems as bs
  | _, _ => false

def identicalFields : Fields → Fields → Bool
  | [], [] => true
  | (j, a) :: as, (k, b) :: bs => j == k && a.identical b && identicalFields as bs
  | _, _ => false

end

instance : BEq Value := ⟨fun a b => a.canonical.identical b.canonical⟩

theorem lookup_assign_self (name : String) (value : Value) (fields : Fields) :
    lookup name (assign name value fields) = some value := by
  induction fields with
  | nil => simp [assign, lookup]
  | cons entry rest ih => by_cases h : entry.1 = name <;> simp [assign, lookup, h, ih]

theorem lookup_assign_ne {name other : String} (hne : name ≠ other) (value : Value)
    (fields : Fields) : lookup other (assign name value fields) = lookup other fields := by
  induction fields with
  | nil => simp [assign, lookup, hne]
  | cons entry rest ih =>
    by_cases h : entry.1 = name
    · subst h
      simp [assign, lookup, hne]
    · simp [assign, lookup, h, ih]

end Value

end EventMachines
