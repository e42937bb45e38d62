import EventMachines.StoreError
import EventMachines.Value.Basic

/-!
Codecs between types and values. A codec is lawful when it reads back what it writes; it may read
more than that. The statements say which codecs are lawful, in particular that `sum` and `pair` of
lawful codecs are.

The representation of an alternative is assumed: `sum` states it, and nothing here derives it from a
reader generated for the type.

* It is written as an object with the side's name in the field `side` and the value in `value`.
* It is read from an object with these two fields, in any order and beside any others, and from the
  pair of the side's name and the value.
* Everything else is refused. Two forms a generated reader may also take are thereby left out: a
  side named by an object, as in `{"Left": null}`, and no `value` at all where the leaf is optional.

The forms of `version`, `sequenceNumber` and `expectedVersion` are assumed in the same way.
-/

namespace EventMachines

structure Codec (α : Type) where
  encode : α → Value
  decode : Value → Option α

namespace Codec

variable {α β : Type}

def Lawful (c : Codec α) : Prop := ∀ a, c.decode (c.encode a) = some a

/-- Reads a value, or breaks off. -/
def read (c : Codec α) (v : Value) : Checked α := .ofOption (c.decode v)

def value : Codec Value := ⟨id, some⟩

def unit : Codec Unit where
  encode _ := .null
  decode
    | .null => some ()
    | _ => none

def string : Codec String := ⟨.str, Value.str?⟩

def int64 : Codec Int64 where
  encode n := .int n.toInt
  decode v := v.int64?.map Int64.ofInt

def word : Codec UInt64 where
  encode n := .int n.toNat
  decode
    | .int n => if 0 ≤ n ∧ n < 18446744073709551616 then some n.toNat.toUInt64 else none
    | _ => none

/-- An optional value, none being null. -/
def optional (c : Codec α) : Codec (Option α) where
  encode
    | none => .null
    | some a => c.encode a
  decode
    | .null => some none
    | v => (c.decode v).map some

def pair (c : Codec α) (d : Codec β) : Codec (α × β) where
  encode := fun (a, b) => .arr [c.encode a, d.encode b]
  decode
    | .arr [v, w] => do return (← c.decode v, ← d.decode w)
    | _ => none

/-- The alternative of a side's name. -/
def side (c : Codec α) (d : Codec β) (name : String) (v : Value) : Option (α ⊕ β) :=
  if name = "Left" then (c.decode v).map .inl
  else if name = "Right" then (d.decode v).map .inr
  else none

/-- An alternative in the representation assumed above. -/
def sum (c : Codec α) (d : Codec β) : Codec (α ⊕ β) where
  encode
    | .inl a => .obj [("side", .str "Left"), ("value", c.encode a)]
    | .inr b => .obj [("side", .str "Right"), ("value", d.encode b)]
  decode
    | .obj fields => do
      side c d (← (← Value.lookup "side" fields).str?) (← Value.lookup "value" fields)
    | .arr [.str name, v] => side c d name v
    | _ => none

def version : Codec Version where
  encode v := word.encode v.number
  decode v := (word.decode v).map (⟨·⟩)

def sequenceNumber : Codec SequenceNumber where
  encode s := word.encode s.number
  decode v := (word.decode v).map (⟨·⟩)

def expectedVersion : Codec ExpectedVersion where
  encode
    | .noStream => .str "NoStream"
    | .exact v => .obj [("Exact", version.encode v)]
  decode
    | .str "NoStream" => some .noStream
    | .obj [("NoStream", .null)] => some .noStream
    | .obj [("Exact", v)] => (version.decode v).map .exact
    | _ => none

theorem lawful_value : value.Lawful := fun _ => rfl

theorem lawful_string : string.Lawful := fun _ => rfl

theorem lawful_int64 : int64.Lawful := by
  intro n
  have hle := n.minValue_le_toInt
  have hlt := n.toInt_lt
  have hin : InRange n.toInt := by
    simp only [InRange]
    simp at hle hlt
    omega
  simp [int64, Value.int64?, hin]

theorem lawful_word : word.Lawful := by
  intro n
  have hlt := n.toNat_lt
  have hin : (0 : Int) ≤ n.toNat ∧ (n.toNat : Int) < 18446744073709551616 := by omega
  simp only [word, hin, and_self, if_true]
  simp

theorem lawful_pair {c : Codec α} {d : Codec β} (hc : c.Lawful) (hd : d.Lawful) :
    (pair c d).Lawful := by
  rintro ⟨a, b⟩
  simp [pair, hc a, hd b]

theorem lawful_sum {c : Codec α} {d : Codec β} (hc : c.Lawful) (hd : d.Lawful) :
    (sum c d).Lawful := by
  rintro (a | b)
  · simp [sum, side, Value.lookup, Value.str?, hc a]
  · simp [sum, side, Value.lookup, Value.str?, hd b]

theorem lawful_version : version.Lawful := by
  intro v
  simp [version, lawful_word v.number]

theorem lawful_sequenceNumber : sequenceNumber.Lawful := by
  intro s
  simp [sequenceNumber, lawful_word s.number]

theorem lawful_expectedVersion : expectedVersion.Lawful := by
  rintro (_ | v)
  · rfl
  · simp [expectedVersion, lawful_version v]

end Codec

end EventMachines
