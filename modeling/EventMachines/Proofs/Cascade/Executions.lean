import EventMachines.Proofs.Cascade.Steps

/-!
The executions of a loop over a work list, one after the other. Each of them leaves a world in which
the next one is made, and the last of them leaves the world in which the loop ends.

* `Executes.split`: executions in two parts meet in one world;
* `executes_of_drive`: the executions of a loop lead from its first world to its last one;
* `drive_executes`: a loop that ends has come to a list by executions that succeeded, and ends with
  one more at most.
-/

namespace EventMachines.Cascade

variable {C O R ω : Type} {exec : C → Nat → ω → Outcome (Failure C R) (List O) × ω}

/-- The executions, one after the other, lead from one world to the other. -/
inductive Executes (exec : C → Nat → ω → Outcome (Failure C R) (List O) × ω) :
    ω → List (Visit C O R) → ω → Prop
  | nil (w : ω) : Executes exec w [] w
  | cons {w w' w'' : ω} {c : C} {depth : Nat} {o : Outcome (Failure C R) (List O)}
      {visits : List (Visit C O R)} (here : exec c depth w = (o, w'))
      (later : Executes exec w' visits w'') : Executes exec w (⟨c, depth, o⟩ :: visits) w''

theorem Executes.split {before after : List (Visit C O R)} {w w' : ω}
    (h : Executes exec w (before ++ after) w') :
    ∃ between, Executes exec w before between ∧ Executes exec between after w' := by
  induction before generalizing w with
  | nil => exact ⟨w, .nil w, h⟩
  | cons v before ih =>
    cases h with
    | cons here later =>
      obtain ⟨between, hbefore, hafter⟩ := ih later
      exact ⟨between, .cons here hbefore, hafter⟩

section

variable {limit : DepthLimit} {reaction : O → Checked (List C)} {fuel : Nat} {k : Cascade C O}
  {w : ω} {j : Journey C O R ω}

theorem executes_of_drive (h : drive limit reaction exec fuel k w = some j) :
    Executes exec w j.visits j.world := by
  refine drive_visits (I := Executes exec) limit reaction .nil ?_ h
  intro c depth w visits w' hlater
  exact .cons rfl hlater

/-- **Execution by execution.** -/
theorem drive_executes (h : drive limit reaction exec fuel k w = some j) :
    ∃ done last now between, Follows limit reaction k done now ∧
      EndsAt limit reaction now last j.outcome ∧ j.visits = done ++ last ∧
      Executes exec w done between ∧ Executes exec between last j.world := by
  obtain ⟨done, last, now, hfollows, hends, hvisits⟩ := drive_follows h
  have hexecutes := executes_of_drive h
  rw [hvisits] at hexecutes
  obtain ⟨between, hdone, hlast⟩ := hexecutes.split
  exact ⟨done, last, now, between, hfollows, hends, hvisits, hdone, hlast⟩

end

end EventMachines.Cascade
