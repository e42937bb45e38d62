import EventMachines.Proofs.Cascade.Search
import EventMachines.Proofs.Cascade.Simulation

/-!
The loop over a work list, execution by execution. A list in the middle of the loop is one that was
come to by executions that all succeeded, and the loop ends with such a list.

* `drive_follows`: a loop that ends has come to some list by its executions, up to the one that did
  not succeed, if any;
* `Follows.held_perm`: the outputs in a list, reacted to or not, are those of the executions that
  led to it;
* `Follows.finished_perm`: where a list is finished, all of them have been reacted to.
-/

namespace EventMachines.Cascade

variable {C O R ω : Type}

/-! ## From one list to the other -/

section

variable (limit : DepthLimit) (reaction : O → Checked (List C))

/-- The loop comes from one list to the other by these executions, which all succeed. -/
inductive Follows (k : Cascade C O) : List (Visit C O R) → Cascade C O → Prop
  | refl : Follows k [] k
  | step {visits : List (Visit C O R)} {now rest : Cascade C O} {c : C} {depth derived : Nat}
      (before : Follows k visits now)
      (next : now.next reaction = .ok (.command c depth derived rest))
      (allowed : limit.allows depth = true) (outputs : List O) :
      Follows k (visits ++ [⟨c, depth, .done outputs⟩]) (rest.push outputs depth)

/-- The loop ends with this list, in the execution that does not succeed, if there is one. -/
inductive EndsAt (k : Cascade C O) : List (Visit C O R) → Outcome (Failure C R) (List O) → Prop
  | broken {x : Fault} (next : k.next reaction = .error x) : EndsAt k [] (.broken x)
  | finished {outputs : List O} (next : k.next reaction = .ok (.finished outputs)) :
      EndsAt k [] (.done outputs)
  | tooDeep {c : C} {depth derived : Nat} {rest : Cascade C O}
      (next : k.next reaction = .ok (.command c depth derived rest))
      (deep : ¬ limit.allows depth = true) : EndsAt k [] (.failed (.depthExceeded c depth))
  | ended {c : C} {depth derived : Nat} {rest : Cascade C O} {o : Outcome (Failure C R) (List O)}
      (next : k.next reaction = .ok (.command c depth derived rest))
      (allowed : limit.allows depth = true) (notDone : ∀ outputs, o ≠ .done outputs) :
      EndsAt k [⟨c, depth, o⟩] o

variable {limit reaction} {k now rest : Cascade C O}

/-- One execution more in front. -/
theorem Follows.cons {c : C} {depth derived : Nat} {outputs : List O} {visits : List (Visit C O R)}
    (hnext : k.next reaction = .ok (.command c depth derived rest))
    (hallowed : limit.allows depth = true)
    (h : Follows limit reaction (rest.push outputs depth) visits now) :
    Follows limit reaction k (⟨c, depth, .done outputs⟩ :: visits) now := by
  induction h with
  | refl => exact .step .refl hnext hallowed outputs
  | step _ next allowed more ih => exact .step ih next allowed more

theorem Follows.done {visits : List (Visit C O R)} (h : Follows limit reaction k visits now) :
    ∀ v ∈ visits, ∃ outputs, v.outcome = .done outputs := by
  induction h with
  | refl => simp
  | step _ _ _ outputs ih =>
    intro v hv
    rcases List.mem_append.mp hv with hv | hv
    · exact ih v hv
    · rw [List.mem_singleton.mp hv]
      exact ⟨outputs, rfl⟩

theorem drive_follows {exec : C → Nat → ω → Outcome (Failure C R) (List O) × ω} {fuel : Nat} {w : ω}
    {j : Journey C O R ω} (h : drive limit reaction exec fuel k w = some j) :
    ∃ visits last now, Follows limit reaction k visits now ∧
      EndsAt limit reaction now last j.outcome ∧ j.visits = visits ++ last := by
  refine drive_induction limit reaction exec (motive := fun k _ j => ∃ visits last now,
    Follows limit reaction k visits now ∧ EndsAt limit reaction now last j.outcome ∧
      j.visits = visits ++ last) ?broken ?finished ?tooDeep ?executed ?ended h
  case broken => exact fun k w x hnext => ⟨[], [], k, .refl, .broken hnext, rfl⟩
  case finished => exact fun k w outputs hnext => ⟨[], [], k, .refl, .finished hnext, rfl⟩
  case tooDeep =>
    exact fun k w c depth derived rest hnext hdeep => ⟨[], [], k, .refl, .tooDeep hnext hdeep, rfl⟩
  case executed =>
    intro k w c depth derived rest outputs w' j hnext hallowed _
      ⟨visits, last, now, hfollows, hends, hvisits⟩
    refine ⟨_ :: visits, last, now, hfollows.cons hnext hallowed, ?_, ?_⟩
    · rcases j with ⟨o | e | x, w'', visits'⟩ <;> exact hends
    · show _ :: j.visits = _ :: (visits ++ last)
      rw [hvisits]
  case ended =>
    intro k w c depth derived rest o w' hnext hallowed _ hended
    exact ⟨[], _, k, .refl, .ended hnext hallowed hended, rfl⟩

end

/-! ## Outputs on the way -/

/-- The outputs in a stack that wait to be reacted to. -/
def pending : List (Frame C O) → List O
  | [] => []
  | .commands _ _ :: stack => pending stack
  | .outputs waiting _ :: stack => waiting ++ pending stack

/-- The outputs in a list, reacted to or not. -/
def held (k : Cascade C O) : List O := k.reacted ++ pending k.stack

def Next.held : Next C O → List O
  | finished outputs => outputs
  | command _ _ _ rest => rest.held

theorem held_push (k : Cascade C O) (outputs : List O) (depth : Nat) :
    (k.push outputs depth).held.Perm (k.held ++ outputs) := by
  cases outputs with
  | nil => exact .of_eq (List.append_nil _).symm
  | cons o outputs =>
    show (k.reacted ++ ((o :: outputs) ++ pending k.stack)).Perm _
    rw [held, List.append_assoc]
    exact List.perm_append_comm.append_left k.reacted

variable {reaction : O → Checked (List C)}

theorem Searches.held {stack : List (Frame C O)} {reacted : List O} {record : List (O × List C)}
    {next : Next C O} (h : Searches reaction stack reacted record next) :
    next.held.Perm (reacted ++ pending stack) := by
  induction h with
  | @finished reacted =>
    rw [pending, List.append_nil]
    exact List.reverse_perm reacted
  | noCommand _ ih => exact ih
  | noOutput _ ih => exact ih
  | waited => exact .refl _
  | silent _ _ ih => exact ih.trans List.perm_middle.symm
  | caused _ => exact List.perm_middle.symm

/-- Looking for the next command loses no output. -/
theorem pull_held {stack : List (Frame C O)} {reacted : List O} {next : Next C O}
    (h : pull reaction stack reacted = .ok next) : next.held.Perm (reacted ++ pending stack) := by
  obtain ⟨record, hsearches⟩ := exists_searches h
  exact hsearches.held

section

variable {limit : DepthLimit} {k now : Cascade C O} {visits : List (Visit C O R)}

/-- **Nothing is lost.** The outputs in a list are those of the list the loop came from and of the
executions in between. -/
theorem Follows.held_perm (h : Follows limit reaction k visits now) :
    now.held.Perm (k.held ++ visits.flatMap fun v => v.outcome.outputs) := by
  induction h with
  | refl => exact .of_eq (List.append_nil _).symm
  | step _ next _ outputs ih =>
    refine (held_push _ outputs _).trans ?_
    rw [List.flatMap_append, ← List.append_assoc, List.flatMap_singleton]
    exact ((pull_held next).trans ih).append_right outputs

theorem Follows.finished_perm {c : C} (h : Follows limit reaction (start c) visits now)
    {outputs : List O} (hnext : now.next reaction = .ok (.finished outputs)) :
    outputs.Perm (visits.flatMap fun v => v.outcome.outputs) :=
  (pull_held hnext).trans h.held_perm

end

end EventMachines.Cascade
