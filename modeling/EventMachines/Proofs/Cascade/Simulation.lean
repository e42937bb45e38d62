import EventMachines.Proofs.Cascade.Exploration

/-!
Cascades over different worlds. What a loop over a work list does is fixed by what its executions
answer, so two worlds in which they answer alike are left alike.

* `drive_visits`: what the executions do to the world one after the other, the whole loop does;
* `drive_rel`: executions that agree in related worlds give loops that agree;
* `drive_decided`: where an execution adds its outputs to what the world holds, the loop adds the
  outputs of its executions, in the order in which these happened.
-/

namespace EventMachines

variable {C O R ω ω' : Type}

/-- The outputs of an execution; one that failed has none. -/
def Outcome.outputs {ε : Type} : Outcome ε (List O) → List O
  | done outputs => outputs
  | failed _ => []
  | broken _ => []

namespace Journey

/-- All outputs in the order in which commands were executed, which is not the order in which they
are reacted to. -/
def decided (j : Journey C O R ω) : List O := j.visits.flatMap fun v => v.outcome.outputs

/-- The same answer by the same executions, and worlds that are related. -/
structure Agree (related : ω → ω' → Prop) (j : Journey C O R ω) (j' : Journey C O R ω') : Prop where
  outcome : j.outcome = j'.outcome
  visits : j.visits = j'.visits
  world : related j.world j'.world

theorem Agree.after {related : ω → ω' → Prop} {j : Journey C O R ω} {j' : Journey C O R ω'}
    (h : j.Agree related j') (outputs : List O) (visits : List (Visit C O R)) :
    (j.after outputs visits).Agree related (j'.after outputs visits) where
  outcome := congrArg (Outcome.prepend outputs) h.outcome
  visits := congrArg (visits ++ ·) h.visits
  world := h.world

end Journey

namespace Cascade

open Trip

variable (limit : DepthLimit) (reaction : O → Checked (List C))

/-- **Step by step.** A relation of worlds and the executions between them that holds of none at
all, and of one more in front, holds of the whole loop. -/
theorem drive_visits {exec : C → Nat → ω → Outcome (Failure C R) (List O) × ω}
    {I : ω → List (Visit C O R) → ω → Prop} (hstop : ∀ w, I w [] w)
    (hexec : ∀ c depth w visits w', I (exec c depth w).2 visits w' →
      I w (⟨c, depth, (exec c depth w).1⟩ :: visits) w')
    {fuel : Nat} {k : Cascade C O} {w : ω} {j : Journey C O R ω}
    (h : drive limit reaction exec fuel k w = some j) : I w j.visits j.world := by
  refine drive_induction limit reaction exec (motive := fun _ w j => I w j.visits j.world)
    ?broken ?finished ?tooDeep ?executed ?ended h
  case broken => exact fun _ w _ _ => hstop w
  case finished => exact fun _ w _ _ => hstop w
  case tooDeep => exact fun _ w _ _ _ _ _ _ => hstop w
  case executed =>
    intro _ w c depth _ _ outputs w' j _ _ he hrest
    have hcons := hexec c depth w j.visits j.world
    rw [he] at hcons
    exact hcons hrest
  case ended =>
    intro _ w c depth _ _ o w' _ _ he _
    have hcons := hexec c depth w [] w'
    rw [he] at hcons
    exact hcons (hstop w')

/-- **Related worlds.** Executions that answer alike in related worlds, and keep them related, make
the loops agree: neither has ended yet, or both have, in the same way. -/
theorem drive_rel {related : ω → ω' → Prop}
    {exec : C → Nat → ω → Outcome (Failure C R) (List O) × ω}
    {exec' : C → Nat → ω' → Outcome (Failure C R) (List O) × ω'}
    (hexec : ∀ c depth w w', related w w' → (exec c depth w).1 = (exec' c depth w').1 ∧
      related (exec c depth w).2 (exec' c depth w').2)
    (fuel : Nat) (k : Cascade C O) {w : ω} {w' : ω'} (h : related w w') :
    Option.Rel (Journey.Agree related) (drive limit reaction exec fuel k w)
      (drive limit reaction exec' fuel k w') := by
  induction fuel generalizing k w w' with
  | zero => exact .none
  | succ fuel ih =>
    rcases hnext : k.next reaction with x | ⟨outputs⟩ | ⟨c, depth, derived, rest⟩
    · rw [drive, drive, hnext]
      exact .some ⟨rfl, rfl, h⟩
    · rw [drive, drive, hnext]
      exact .some ⟨rfl, rfl, h⟩
    · by_cases hallowed : limit.allows depth = true
      · rw [drive_allowed limit reaction exec fuel hnext hallowed,
          drive_allowed limit reaction exec' fuel hnext hallowed]
        obtain ⟨hsame, hkept⟩ := hexec c depth w w' h
        rcases he : exec c depth w with ⟨o, v⟩
        rcases he' : exec' c depth w' with ⟨o', v'⟩
        rw [he, he'] at hsame hkept
        simp only at hsame hkept
        subst hsame
        cases o with
        | done outputs =>
          rw [execute_done _ he, execute_done _ he']
          have hrest := ih (rest.push outputs depth) hkept
          generalize drive limit reaction exec fuel (rest.push outputs depth) v = p at hrest ⊢
          generalize drive limit reaction exec' fuel (rest.push outputs depth) v' = q at hrest ⊢
          cases hrest with
          | none => exact .none
          | some hj => exact .some (hj.after [] _)
        | failed e =>
          rw [execute_failed _ he, execute_failed _ he']
          exact .some ⟨rfl, rfl, hkept⟩
        | broken x =>
          rw [execute_broken _ he, execute_broken _ he']
          exact .some ⟨rfl, rfl, hkept⟩
      · rw [drive_tooDeep limit reaction exec fuel hnext hallowed,
          drive_tooDeep limit reaction exec' fuel hnext hallowed]
        exact .some ⟨rfl, rfl, h⟩

theorem drive_decided {exec : C → Nat → ω → Outcome (Failure C R) (List O) × ω}
    (held : ω → List O)
    (hexec : ∀ c depth w, held (exec c depth w).2 = held w ++ (exec c depth w).1.outputs)
    {fuel : Nat} {k : Cascade C O} {w : ω} {j : Journey C O R ω}
    (h : drive limit reaction exec fuel k w = some j) : held j.world = held w ++ j.decided := by
  refine drive_visits (I := fun w visits w' =>
    held w' = held w ++ visits.flatMap fun v => v.outcome.outputs) limit reaction ?_ ?_ h
  · intro w
    simp
  · intro c depth w visits w' hrest
    rw [hrest, hexec, List.flatMap_cons, List.append_assoc]

end Cascade

end EventMachines
