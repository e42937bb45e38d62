import EventMachines.Token.SequenceNumber
import EventMachines.Token.Version

/-!
What a store may answer instead of data, and the two checks a store makes before it writes: the
version a writer expects, and the number a delivery carries.
-/

namespace EventMachines

inductive StoreError where
  | versionMismatch (expected : ExpectedVersion) (actual : Option Version)
  | sequenceMismatch (expected actual : SequenceNumber)
  | io (message : String)
  | backend (message : String)
  deriving DecidableEq

namespace StoreError

def message : StoreError → String
  | versionMismatch expected actual =>
    "optimistic lock conflict: expected " ++ expected.text ++ ", found "
      ++ (ExpectedVersion.ofCurrent actual).text
  | sequenceMismatch expected actual =>
    "deduplication conflict: expected sequence " ++ expected.text ++ ", got " ++ actual.text
  | io message => "I/O error: " ++ message
  | backend message => "backend error: " ++ message

/-- The message of the error itself, then that of what caused it. -/
def causes : StoreError → List String
  | e@(io inner) | e@(backend inner) => [e.message, inner]
  | e => [e.message]

end StoreError

/-- Accepts data that is stored at the expected version. -/
def ExpectedVersion.check (expected : ExpectedVersion) (actual : Option Version) :
    Except StoreError Unit :=
  if expected.toCurrent = actual then .ok () else .error (.versionMismatch expected actual)

theorem ExpectedVersion.check_eq_ok {expected : ExpectedVersion} {actual : Option Version} :
    expected.check actual = .ok () ↔ expected.toCurrent = actual := by
  unfold check
  split <;> simp_all

/-- Accepts the successor of the last number. At the largest number there is none, so the check
itself breaks off. -/
def SequenceNumber.check (s : SequenceNumber) (last : Option SequenceNumber) :
    Checked (Except StoreError Unit) := do
  if ← s.follows last then
    return .ok ()
  return .error (.sequenceMismatch (← successor last) s)

namespace SequenceNumber

variable {s : SequenceNumber} {last : Option SequenceNumber}

theorem check_of_successor {next : SequenceNumber} (h : successor last = .ok next) :
    s.check last = .ok (if s = next then .ok () else .error (.sequenceMismatch next s)) := by
  by_cases hs : s = next <;> simp [check, follows, h, hs, bind, Except.bind, pure, Except.pure]

theorem check_eq_ok : s.check last = .ok (.ok ()) ↔ s.number.toNat = count last + 1 := by
  rw [← successor_eq_ok]
  rcases h : successor last with x | next
  · simp [check, follows, h, bind, Except.bind]
  · rw [check_of_successor h]
    by_cases hs : s = next <;> simp [hs, eq_comm]

/-- A number that is not the next one is refused with the one that is. -/
theorem check_eq_error {e : StoreError} :
    s.check last = .ok (.error e) ↔
      ∃ next, successor last = .ok next ∧ s ≠ next ∧ e = .sequenceMismatch next s := by
  rcases h : successor last with x | next
  · simp [check, follows, h, bind, Except.bind]
  · rw [check_of_successor h]
    by_cases hs : s = next <;> simp [hs, eq_comm]

end SequenceNumber

end EventMachines
