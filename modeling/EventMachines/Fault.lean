/-!
Computations that may break off. A machine works on numbers of fixed width and on values of a
given shape; where a number would leave its range or a value has another shape, there is no answer
but a `Fault`. The statements say that a checked operation answers exactly in range, and then with
the unbounded result, and that a computation in two parts answers exactly if both parts do.
-/

namespace EventMachines

/-- Why a computation broke off. -/
inductive Fault where
  | addOverflow
  | subtractOverflow
  | malformed
  deriving DecidableEq

def Fault.message : Fault → String
  | .addOverflow => "attempt to add with overflow"
  | .subtractOverflow => "attempt to subtract with overflow"
  | .malformed => "value does not have the expected shape"

/-- An answer, or the fault that prevented it. -/
abbrev Checked (α : Type) := Except Fault α

namespace Checked

def ofOption {α : Type} : Option α → Checked α
  | some a => .ok a
  | none => .error .malformed

theorem bind_eq_ok {α β : Type} {x : Checked α} {f : α → Checked β} {b : β} :
    (x >>= f) = .ok b ↔ ∃ a, x = .ok a ∧ f a = .ok b := by
  cases x with
  | error fault => simp [bind, Except.bind]
  | ok a => simp [bind, Except.bind]

theorem map_eq_ok {α β : Type} {x : Checked α} {f : α → β} {b : β} :
    (f <$> x) = .ok b ↔ ∃ a, x = .ok a ∧ f a = b := by
  cases x with
  | error fault => simp [Functor.map, Except.map]
  | ok a => simp [Functor.map, Except.map]

end Checked

/-- The integers a signed 64-bit number can hold. -/
def InRange (n : Int) : Prop := -9223372036854775808 ≤ n ∧ n ≤ 9223372036854775807

instance (n : Int) : Decidable (InRange n) := inferInstanceAs (Decidable (_ ∧ _))

def checkedAdd (a b : Int) : Checked Int :=
  if InRange (a + b) then .ok (a + b) else .error .addOverflow

def checkedSub (a b : Int) : Checked Int :=
  if InRange (a - b) then .ok (a - b) else .error .subtractOverflow

/-- The next unsigned 64-bit number; the largest has none. -/
def checkedSucc (n : UInt64) : Checked UInt64 :=
  if n.toNat + 1 < 18446744073709551616 then .ok (n + 1) else .error .addOverflow

theorem checkedAdd_eq_ok {a b c : Int} :
    checkedAdd a b = .ok c ↔ InRange (a + b) ∧ a + b = c := by
  unfold checkedAdd
  split <;> simp_all

theorem checkedSub_eq_ok {a b c : Int} :
    checkedSub a b = .ok c ↔ InRange (a - b) ∧ a - b = c := by
  unfold checkedSub
  split <;> simp_all

theorem checkedSucc_eq_ok {n m : UInt64} :
    checkedSucc n = .ok m ↔ m.toNat = n.toNat + 1 := by
  unfold checkedSucc
  split
  next h =>
    have hsum : (n + 1).toNat = n.toNat + 1 := by
      rw [UInt64.toNat_add]
      exact Nat.mod_eq_of_lt h
    constructor
    · intro hm
      rw [← Except.ok.inj hm, hsum]
    · intro hm
      exact congrArg Except.ok (UInt64.toNat_inj.mp (by rw [hsum, hm]))
  next h =>
    have := m.toNat_lt
    simp
    omega

end EventMachines
