import EventMachines.Tagged
import EventMachines.Value.Codec
import EventMachines.Value.Reading

/-!
Functions on values, as data. A function answers on values of the shape it is made for and breaks
off on all others.
-/

namespace EventMachines

inductive Transform where
  | identity
  | swap
  | assocLeft
  | assocRight
  | left
  | right
  | getLeft
  | getRight
  | unwrap
  | pairSwap
  | pairLeft
  | pairRight
  | add
  | parity
  | deltaEvent
  | eventDelta
  | value
  | toValue
  | inc
  | stamp
  | rekey (key : Value)
  | const (v : Value)
  | mapLeft (f : Transform)
  | mapRight (f : Transform)
  | andThen (f g : Transform)

namespace Transform

def alternatives : Codec (Value ⊕ Value) := .sum .value .value

def pairs : Codec (Value × Value) := .pair .value .value

/-- One more in each of the fields that count, where it holds a signed 64-bit number. -/
def incFields : Value.Fields → Checked Value.Fields
  | [] => return []
  | (k, v) :: rest => do
    let v ← match v.int64? with
      | some n =>
        if k = "value" ∨ k = "sum" ∨ k = "n" then Value.int <$> checkedAdd n 1 else pure v
      | none => pure v
    return (k, v) :: (← incFields rest)

def number (v : Value) : Checked Int := .ofOption v.int64?

def addition (n : Int) : Value := .obj [("Add", .int n)]

def apply : Transform → Value → Checked Value
  | identity, v => .ok v
  | swap, v => do return alternatives.encode (← alternatives.read v).swap
  | assocLeft, v => do
    let x ← (Codec.sum .value alternatives).read v
    return (Codec.sum alternatives .value).encode (Tagged.assocLeft x)
  | assocRight, v => do
    let x ← (Codec.sum alternatives .value).read v
    return (Codec.sum .value alternatives).encode (Tagged.assocRight x)
  | left, v => .ok (alternatives.encode (.inl v))
  | right, v => .ok (alternatives.encode (.inr v))
  | getLeft, v => do return (← alternatives.read v).getLeft?.getD .null
  | getRight, v => do return (← alternatives.read v).getRight?.getD .null
  | unwrap, v => do return (← alternatives.read v).elim id id
  | pairSwap, v => do return pairs.encode (← pairs.read v).swap
  | pairLeft, v => do
    let (a, b, c) ← (Codec.pair .value pairs).read v
    return (Codec.pair pairs .value).encode ((a, b), c)
  | pairRight, v => do
    let ((a, b), c) ← (Codec.pair pairs .value).read v
    return (Codec.pair .value pairs).encode (a, b, c)
  | add, v => do return addition (← number v)
  | parity, v => do
    let n ← number v
    return alternatives.encode (if n % 2 = 0 then .inl (addition n) else .inr (addition n))
  | deltaEvent, v => do
    let n ← number v
    if 0 ≤ n then return .obj [("Added", .int n)]
    return .obj [("Subtracted", .int (← checkedSub 0 n))]
  | eventDelta, v => do
    match v.field? "Added" with
    | some n => return .int (← number n)
    | none =>
      let n ← number (← Checked.ofOption (v.field? "Subtracted"))
      return .int (← checkedSub 0 n)
  | value, v => .ofOption (v.field? "value")
  | toValue, v => .ok (.obj [("value", v)])
  | inc, v =>
    match v.int64? with
    | some n => Value.int <$> checkedAdd n 1
    | none => v.inside incFields
  | stamp, v => v.inside fun fields => .ok (Value.assign "stamped" (.bool true) fields)
  | rekey key, v => v.inside fun fields => .ok (Value.assign "key" key fields)
  | const w, _ => .ok w
  | mapLeft f, v => do
    match ← alternatives.read v with
    | .inl a => return alternatives.encode (.inl (← f.apply a))
    | .inr b => return alternatives.encode (.inr b)
  | mapRight f, v => do
    match ← alternatives.read v with
    | .inl a => return alternatives.encode (.inl a)
    | .inr b => return alternatives.encode (.inr (← f.apply b))
  | andThen f g, v => do g.apply (← f.apply v)

/-- The functions one after the other, the first one first. -/
def compose (fs : List Transform) : Transform := fs.foldr andThen identity

end Transform

end EventMachines
