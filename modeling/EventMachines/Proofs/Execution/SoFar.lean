import EventMachines.Execution.Handle

/-!
The run of an item so far. A cascade may never come to an end, but it has gone so many rounds, and
what has happened in them stays the beginning of all that will.

* `goOn_eq_soFar`: the answer within so many rounds is that of the run so far, if it has ended;
* `soFar_add`: going on from a run so far;
* `soFar_of_handle`: a run that has ended stays as it is;
* `soFar_prefix`: what has happened so far comes first in whatever happens.
-/

namespace EventMachines

variable {P : Exchange} {ε Item Answer X ω : Type}

/-- The run of an item, unless there are more rounds to go. -/
def Run.ended? : Run P ε (Progress X Answer) ω → Option (Run P ε Answer ω)
  | ⟨.done (.answer a), w, hs⟩ => some ⟨.done a, w, hs⟩
  | ⟨.done (.again _), _, _⟩ => none
  | ⟨.failed x, w, hs⟩ => some ⟨.failed x, w, hs⟩
  | ⟨.broken x, w, hs⟩ => some ⟨.broken x, w, hs⟩

/-- What an ended run tells about its rounds. -/
theorem Run.ended?_eq_some {r : Run P ε (Progress X Answer) ω} {s : Run P ε Answer ω}
    (h : r.ended? = some s) : s.world = r.world ∧ s.transcript = r.transcript ∧
      ∀ x, s.outcome = .failed x ↔ r.outcome = .failed x := by
  rcases r with ⟨(a | rest) | x | x, w, hs⟩
  · obtain rfl := Option.some.inj h
    simp
  · cases h
  · obtain rfl := Option.some.inj h
    simp
  · obtain rfl := Option.some.inj h
    simp

/-- The run with what happened before it. -/
def Run.behind (earlier : List (Happening P)) (r : Run P ε Answer ω) : Run P ε Answer ω :=
  { r with transcript := earlier ++ r.transcript }

theorem Run.behind_behind (earlier hs : List (Happening P)) (r : Run P ε Answer ω) :
    (r.behind hs).behind earlier = r.behind (earlier ++ hs) := by
  simp [behind]

namespace Engine

variable {e : Engine P ε Item Answer} {b : Backend P ω}

/-- The run of an item after so many more rounds, ended or not. -/
def soFar (e : Engine P ε Item Answer) (b : Backend P ω) :
    Nat → Run P ε (Progress e.Pending Answer) ω → Run P ε (Progress e.Pending Answer) ω
  | rounds + 1, ⟨.done (.again rest), w, hs⟩ =>
    (e.soFar b rounds ((e.resume rest).run b w)).behind hs
  | _, r => r

@[simp] theorem soFar_zero (r : Run P ε (Progress e.Pending Answer) ω) : e.soFar b 0 r = r := by
  unfold soFar
  rfl

theorem soFar_again (rounds : Nat) (rest : e.Pending) (w : ω) (hs : List (Happening P)) :
    e.soFar b (rounds + 1) ⟨.done (.again rest), w, hs⟩ =
      (e.soFar b rounds ((e.resume rest).run b w)).behind hs := rfl

theorem soFar_of_ended {r : Run P ε (Progress e.Pending Answer) ω}
    (h : ∀ rest, r.outcome ≠ .done (.again rest)) (rounds : Nat) : e.soFar b rounds r = r := by
  rcases r with ⟨(a | rest) | x | x, w, hs⟩
  · cases rounds <;> rfl
  · exact absurd rfl (h rest)
  · cases rounds <;> rfl
  · cases rounds <;> rfl

theorem goOn_eq_soFar (rounds : Nat) (r : Run P ε (Progress e.Pending Answer) ω) :
    e.goOn b rounds r = (e.soFar b rounds r).ended? := by
  induction rounds generalizing r with
  | zero => rcases r with ⟨(a | rest) | x | x, w, hs⟩ <;> rfl
  | succ rounds ih =>
    rcases r with ⟨(a | rest) | x | x, w, hs⟩
    · rfl
    · rw [soFar_again, goOn, ih]
      rcases e.soFar b rounds ((e.resume rest).run b w) with ⟨(a | more) | x | x, w', hs'⟩ <;> rfl
    · rfl
    · rfl

theorem soFar_behind (rounds : Nat) (earlier : List (Happening P))
    (r : Run P ε (Progress e.Pending Answer) ω) :
    e.soFar b rounds (r.behind earlier) = (e.soFar b rounds r).behind earlier := by
  cases rounds with
  | zero => rw [soFar_zero, soFar_zero]
  | succ rounds =>
    rcases r with ⟨(a | rest) | x | x, w, hs⟩
    · rfl
    · exact (Run.behind_behind earlier hs _).symm
    · rfl
    · rfl

/-- Rounds after rounds. -/
theorem soFar_add (rounds more : Nat) (r : Run P ε (Progress e.Pending Answer) ω) :
    e.soFar b (rounds + more) r = e.soFar b more (e.soFar b rounds r) := by
  induction rounds generalizing r with
  | zero => rw [Nat.zero_add, soFar_zero]
  | succ rounds ih =>
    rcases r with ⟨(a | rest) | x | x, w, hs⟩
    · simp [soFar_of_ended]
    · rw [Nat.add_right_comm, soFar_again, soFar_again, ih, soFar_behind]
    · simp [soFar_of_ended]
    · simp [soFar_of_ended]

/-- What has happened already comes first. -/
theorem prefix_soFar (rounds : Nat) (r : Run P ε (Progress e.Pending Answer) ω) :
    r.transcript <+: (e.soFar b rounds r).transcript := by
  cases rounds with
  | zero => exact (congrArg Run.transcript (soFar_zero r)).symm ▸ List.prefix_rfl
  | succ rounds =>
    rcases r with ⟨(a | rest) | x | x, w, hs⟩
    · exact List.prefix_rfl
    · exact List.prefix_append hs _
    · exact List.prefix_rfl
    · exact List.prefix_rfl

theorem soFar_prefix {rounds more : Nat} (hle : rounds ≤ more)
    (r : Run P ε (Progress e.Pending Answer) ω) :
    (e.soFar b rounds r).transcript <+: (e.soFar b more r).transcript := by
  obtain ⟨later, rfl⟩ := Nat.exists_eq_add_of_le hle
  rw [soFar_add]
  exact prefix_soFar later _

/-- An ended run has come as far as any more rounds take it. -/
theorem soFar_of_handle {fuel : Nat} {item : Item} {w : ω} {s : Run P ε Answer ω}
    (h : e.handle b fuel item w = some s) {rounds : Nat} (hle : fuel ≤ rounds) :
    (e.soFar b rounds ((e.start item).run b w)).transcript = s.transcript := by
  have hmore := e.goOn_mono b hle h
  rw [goOn_eq_soFar] at hmore
  exact (Run.ended?_eq_some hmore).2.1.symm

end Engine

end EventMachines
