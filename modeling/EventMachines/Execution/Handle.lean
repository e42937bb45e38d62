import EventMachines.Engine.Basic
import EventMachines.Execution.Backend

/-!
An engine at work on one item, and on a batch of items one after the other. A cascade may go on for
ever, so the number of rounds is limited by `fuel` and running out of it is no answer at all; the
statement says that more fuel does not change an answer.
-/

namespace EventMachines

variable {P : Exchange} {ε Item Answer ω : Type}

namespace Engine

/-- Goes on from the end of a round. -/
def goOn (e : Engine P ε Item Answer) (b : Backend P ω) :
    Nat → Run P ε (Progress e.Pending Answer) ω → Option (Run P ε Answer ω)
  | _, ⟨.done (.answer a), w, hs⟩ => some ⟨.done a, w, hs⟩
  | _, ⟨.failed x, w, hs⟩ => some ⟨.failed x, w, hs⟩
  | _, ⟨.broken x, w, hs⟩ => some ⟨.broken x, w, hs⟩
  | 0, ⟨.done (.again _), _, _⟩ => none
  | fuel + 1, ⟨.done (.again rest), w, hs⟩ => do
    let r ← e.goOn b fuel ((e.resume rest).run b w)
    return { r with transcript := hs ++ r.transcript }

/-- Works on one item until there is an answer, a failure or a fault. -/
def handle (e : Engine P ε Item Answer) (b : Backend P ω) (fuel : Nat) (item : Item) (w : ω) :
    Option (Run P ε Answer ω) :=
  e.goOn b fuel ((e.start item).run b w)

@[simp] theorem goOn_answer (e : Engine P ε Item Answer) (b : Backend P ω) (fuel : Nat) (a : Answer)
    (w : ω) (hs : List (Happening P)) :
    e.goOn b fuel ⟨.done (.answer a), w, hs⟩ = some ⟨.done a, w, hs⟩ := by
  cases fuel <;> rfl

@[simp] theorem goOn_failed (e : Engine P ε Item Answer) (b : Backend P ω) (fuel : Nat) (x : ε)
    (w : ω) (hs : List (Happening P)) :
    e.goOn b fuel ⟨.failed x, w, hs⟩ = some ⟨.failed x, w, hs⟩ := by
  cases fuel <;> rfl

@[simp] theorem goOn_broken (e : Engine P ε Item Answer) (b : Backend P ω) (fuel : Nat) (x : Fault)
    (w : ω) (hs : List (Happening P)) :
    e.goOn b fuel ⟨.broken x, w, hs⟩ = some ⟨.broken x, w, hs⟩ := by
  cases fuel <;> rfl

/-- What happened earlier stays in front of what a run goes on to. -/
theorem goOn_append (e : Engine P ε Item Answer) (b : Backend P ω) (fuel : Nat)
    (o : Outcome ε (Progress e.Pending Answer)) (w : ω) (earlier hs : List (Happening P)) :
    e.goOn b fuel ⟨o, w, earlier ++ hs⟩ =
      (e.goOn b fuel ⟨o, w, hs⟩).map fun r => { r with transcript := earlier ++ r.transcript } := by
  rcases o with (a | rest) | x | x
  · simp
  · cases fuel with
    | zero => rfl
    | succ fuel =>
      simp only [goOn, bind, Option.map_bind]
      refine congrArg (Option.bind _) (funext fun r => ?_)
      simp [List.append_assoc]
  · simp
  · simp

theorem goOn_mono (e : Engine P ε Item Answer) (b : Backend P ω) {fuel more : Nat}
    (hle : fuel ≤ more) {r : Run P ε (Progress e.Pending Answer) ω} {s : Run P ε Answer ω}
    (h : e.goOn b fuel r = some s) : e.goOn b more r = some s := by
  induction fuel generalizing more r s with
  | zero =>
    rcases r with ⟨(a | rest) | x | x, w, hs⟩ <;> simp_all [goOn]
  | succ fuel ih =>
    obtain ⟨more, rfl⟩ : ∃ m, more = m + 1 := ⟨more - 1, by omega⟩
    rcases r with ⟨(a | rest) | x | x, w, hs⟩
    · simpa [goOn] using h
    · simp only [goOn, bind, Option.bind_eq_some_iff] at h ⊢
      obtain ⟨t, ht, hst⟩ := h
      exact ⟨t, ih (Nat.le_of_succ_le_succ hle) ht, hst⟩
    · simpa [goOn] using h
    · simpa [goOn] using h

end Engine

/-- What became of a batch: one result for each item, unless a fault ended it. -/
structure Batch (P : Exchange) (ε Answer ω : Type) where
  results : Checked (List (Except ε Answer))
  world : ω
  transcript : List (Happening P)

/-- Works on the items in order. An item that could not be read fails without a call. -/
def Engine.handleAll {I R : Type} (e : Engine P (Failure I R) Item Answer) (b : Backend P ω)
    (fuel : Nat) : List (Except String Item) → ω → Option (Batch P (Failure I R) Answer ω)
  | [], w => some ⟨.ok [], w, []⟩
  | .error reason :: items, w => do
    let rest ← e.handleAll b fuel items w
    return { rest with
      results := (.error (.publishingFailed none (.text reason)) :: ·) <$> rest.results
      transcript := .noted (.inputUnreadable reason) :: rest.transcript }
  | .ok item :: items, w => do
    let r ← e.handle b fuel item w
    match r.outcome with
    | .broken x => return ⟨.error x, r.world, r.transcript⟩
    | .done a =>
      let rest ← e.handleAll b fuel items r.world
      return { rest with
        results := (.ok a :: ·) <$> rest.results
        transcript := r.transcript ++ rest.transcript }
    | .failed x =>
      let rest ← e.handleAll b fuel items r.world
      return { rest with
        results := (.error x :: ·) <$> rest.results
        transcript := r.transcript ++ rest.transcript }

end EventMachines
