import EventMachines.Fault

/-!
Versions of stored data. A version counts the writes to a stream or a slot, from one on; an
expected version is what a writer believes to be stored. The statements say that `Version.after`
counts by one and breaks off only at the largest number, and that expecting what is stored loses
nothing of it.
-/

namespace EventMachines

structure Version where
  number : UInt64
  deriving DecidableEq

namespace Version

instance : Ord Version := ⟨fun a b => compare a.number b.number⟩

def first : Version := ⟨1⟩

def next (v : Version) : Checked Version := do
  return ⟨← checkedSucc v.number⟩

/-- The version that a write on top of `current` produces. -/
def after : Option Version → Checked Version
  | none => .ok first
  | some v => v.next

def text (v : Version) : String := "v" ++ toString v.number

/-- How many writes led to `current`. -/
def count : Option Version → Nat
  | none => 0
  | some v => v.number.toNat

theorem next_eq_ok {v w : Version} :
    v.next = .ok w ↔ w.number.toNat = v.number.toNat + 1 := by
  rw [next, Checked.bind_eq_ok, ← checkedSucc_eq_ok]
  constructor
  · rintro ⟨n, hn, hw⟩
    rw [← Except.ok.inj hw]
    exact hn
  · intro hw
    exact ⟨w.number, hw, rfl⟩

theorem after_eq_ok {current : Option Version} {v : Version} :
    after current = .ok v ↔ v.number.toNat = count current + 1 := by
  cases current with
  | none =>
    constructor
    · intro h
      rw [← Except.ok.inj h]
      rfl
    · intro h
      have hn : (1 : UInt64) = v.number := UInt64.toNat_inj.mp h.symm
      simp [after, first, hn]
  | some u => exact next_eq_ok

end Version

/-- What a writer expects to find: nothing yet, or data at one version. -/
inductive ExpectedVersion where
  | noStream
  | exact (version : Version)
  deriving DecidableEq

namespace ExpectedVersion

def ofCurrent : Option Version → ExpectedVersion
  | none => .noStream
  | some v => .exact v

def toCurrent : ExpectedVersion → Option Version
  | .noStream => none
  | .exact v => some v

def text : ExpectedVersion → String
  | .noStream => "no stream"
  | .exact v => v.text

@[simp] theorem toCurrent_ofCurrent (current : Option Version) :
    (ofCurrent current).toCurrent = current := by
  cases current <;> rfl

@[simp] theorem ofCurrent_toCurrent (e : ExpectedVersion) : ofCurrent e.toCurrent = e := by
  cases e <;> rfl

end ExpectedVersion

end EventMachines
