import EventMachines.Fault

/-!
Numbers of a numbered delivery. Deliveries under one key are numbered from one without gaps; the
number to accept next is the successor of the last one accepted. The statement says which number
that is, and that there is none after the largest.
-/

namespace EventMachines

structure SequenceNumber where
  number : UInt64
  deriving DecidableEq

namespace SequenceNumber

instance : Ord SequenceNumber := ⟨fun a b => compare a.number b.number⟩

def first : SequenceNumber := ⟨1⟩

/-- The only number that may come after `last`. -/
def successor : Option SequenceNumber → Checked SequenceNumber
  | none => .ok first
  | some s => do return ⟨← checkedSucc s.number⟩

def follows (s : SequenceNumber) (last : Option SequenceNumber) : Checked Bool := do
  return s == (← successor last)

def text (s : SequenceNumber) : String := "#" ++ toString s.number

/-- How many deliveries were accepted up to `last`. -/
def count : Option SequenceNumber → Nat
  | none => 0
  | some s => s.number.toNat

theorem successor_eq_ok {last : Option SequenceNumber} {s : SequenceNumber} :
    successor last = .ok s ↔ s.number.toNat = count last + 1 := by
  cases last with
  | none =>
    constructor
    · intro h
      rw [← Except.ok.inj h]
      rfl
    · intro h
      have hn : (1 : UInt64) = s.number := UInt64.toNat_inj.mp h.symm
      simp [successor, first, hn]
  | some t =>
    rw [successor, Checked.bind_eq_ok, count, ← checkedSucc_eq_ok]
    constructor
    · rintro ⟨n, hn, hs⟩
      rw [← Except.ok.inj hs]
      exact hn
    · intro hs
      exact ⟨s.number, hs, rfl⟩

theorem exists_successor {last : Option SequenceNumber}
    (h : count last + 1 < 18446744073709551616) : ∃ s, successor last = .ok s :=
  ⟨⟨.ofNat (count last + 1)⟩, successor_eq_ok.mpr (Nat.mod_eq_of_lt h)⟩

end SequenceNumber

end EventMachines
