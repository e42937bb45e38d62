import EventMachines.Proofs.Cascade.Executions

/-!
How deep a cascade goes. A limit lets commands run up to its depth, so the waiting outputs in a work
list are those of commands that were allowed, and a command that is refused for its depth lies one
below the limit.

* `pull_comes`: where the next command comes from;
* `pull_within`: the next command, if it is too deep, comes first of what an output at the limit
  causes;
* `Follows.within`: the frames of a work list stay within the limit;
* `stoppedAt_of_drive`: where a loop that is limited stops at a command too deep.
-/

namespace EventMachines.Cascade

variable {C O R ω : Type}

/-- Commands that may run, or outputs of commands that ran at their depth. -/
def Within (n : Nat) (visits : List (Visit C O R)) : Frame C O → Prop
  | .commands _ depth => depth ≤ n
  | .outputs waiting depth => depth ≤ n ∧
    ∀ o ∈ waiting, ∃ v ∈ visits, v.depth = depth ∧ o ∈ v.outcome.outputs

/-- The command is the first that some output of an execution at that depth causes. -/
def FirstFollowUp (reaction : O → Checked (List C)) (visits : List (Visit C O R)) (depth : Nat)
    (c : C) : Prop :=
  ∃ v ∈ visits, v.depth = depth ∧ ∃ o ∈ v.outcome.outputs, ∃ more, reaction o = .ok (c :: more)

theorem Within.mono {n : Nat} {visits more : List (Visit C O R)} (hsub : visits ⊆ more)
    {f : Frame C O} (h : Within n visits f) : Within n more f := by
  cases f with
  | commands waiting depth => exact h
  | outputs waiting depth =>
    refine ⟨h.1, fun o ho => ?_⟩
    obtain ⟨v, hv, hdepth, hmem⟩ := h.2 o ho
    exact ⟨v, hsub hv, hdepth, hmem⟩

section

variable {reaction : O → Checked (List C)}

/-- Where the next command of a work list comes from, and which frames are left: it waited, or an
output that waited causes it. -/
inductive Comes (reaction : O → Checked (List C)) (stack : List (Frame C O)) :
    C → Nat → List (Frame C O) → Prop
  | waited {c : C} {waiting : List C} {depth : Nat} {below : List (Frame C O)}
      (frame : .commands (c :: waiting) depth ∈ stack) (hbelow : below ⊆ stack) :
      Comes reaction stack c depth (.commands waiting depth :: below)
  | caused {outputs later : List O} {o : O} {c : C} {commands : List C} {depth : Nat}
      {below : List (Frame C O)} (frame : .outputs outputs depth ∈ stack) (mem : o ∈ outputs)
      (reacts : reaction o = .ok (c :: commands)) (hlater : later ⊆ outputs)
      (hbelow : below ⊆ stack) :
      Comes reaction stack c (depth + 1)
        (.commands commands (depth + 1) :: .outputs later depth :: below)

theorem pull_comes {stack : List (Frame C O)} {reacted : List O} {c : C} {depth derived : Nat}
    {rest : Cascade C O}
    (h : pull reaction stack reacted = .ok (.command c depth derived rest)) :
    Comes reaction stack c depth rest.stack := by
  obtain ⟨record, hsearches⟩ := exists_searches h
  have htaken := hsearches.takenFrom
  obtain ⟨rest, now⟩ := rest
  cases htaken with
  | waited stood =>
    exact .waited (stood.subset List.mem_cons_self) (List.subset_of_cons_subset stood.subset)
  | @caused o commands depth earlier later before below stood last =>
    have hmem : (o, c :: commands) ∈ record := by
      rw [last]
      exact List.mem_append_right _ (List.mem_singleton.mpr rfl)
    have hlater : later ⊆ earlier ++ o :: later :=
      List.subset_append_of_subset_right _ (List.subset_cons_self _ _)
    exact .caused (stood.subset List.mem_cons_self)
      (List.mem_append_right _ List.mem_cons_self) (hsearches.answers _ hmem) hlater
      (List.subset_of_cons_subset stood.subset)

/-- Looking for the next command stays within the limit, or finds one just below it. -/
theorem pull_within {n : Nat} {visits : List (Visit C O R)} {stack : List (Frame C O)}
    {reacted : List O} {c : C} {depth derived : Nat} {rest : Cascade C O}
    (h : ∀ f ∈ stack, Within n visits f)
    (hpull : pull reaction stack reacted = .ok (.command c depth derived rest)) :
    (depth ≤ n ∧ ∀ f ∈ rest.stack, Within n visits f) ∨
      depth = n + 1 ∧ FirstFollowUp reaction visits n c := by
  rcases rest with ⟨rest, now⟩
  cases pull_comes hpull with
  | waited hframe hbelow =>
    have hdepth : depth ≤ n := h _ hframe
    refine .inl ⟨hdepth, fun f hf => ?_⟩
    rcases List.mem_cons.mp hf with rfl | hf
    · exact hdepth
    · exact h f (hbelow hf)
  | @caused outputs later o _ commands level below hframe hmem hreacts hlater hbelow =>
    obtain ⟨hdepth, hwaiting⟩ := h _ hframe
    by_cases hlt : level < n
    · refine .inl ⟨hlt, fun f hf => ?_⟩
      rcases List.mem_cons.mp hf with rfl | hf
      · exact hlt
      rcases List.mem_cons.mp hf with rfl | hf
      · exact ⟨hdepth, fun o ho => hwaiting o (hlater ho)⟩
      · exact h f (hbelow hf)
    · obtain rfl : level = n := by omega
      obtain ⟨v, hv, hvisit, houtput⟩ := hwaiting o hmem
      exact .inr ⟨rfl, v, hv, hvisit, o, houtput, commands, hreacts⟩

/-- **Within the limit.** No execution is deeper than the limit, nor is any frame. -/
theorem Follows.within {n : Nat} {c : C} {visits : List (Visit C O R)} {k : Cascade C O}
    (h : Follows ⟨some n⟩ reaction (start c) visits k) :
    (∀ f ∈ k.stack, Within n visits f) ∧ ∀ v ∈ visits, v.depth ≤ n := by
  induction h with
  | refl => exact ⟨by simp [start, Within], by simp⟩
  | @step visits now rest c depth derived _ next allowed outputs ih =>
    obtain ⟨hframes, hvisits⟩ := ih
    have hdepth : depth ≤ n := of_decide_eq_true allowed
    have hrest : ∀ f ∈ rest.stack, Within n visits f := by
      rcases pull_within hframes next with ⟨-, hrest⟩ | ⟨hdeep, -⟩
      · exact hrest
      · omega
    constructor
    · intro f hf
      cases outputs with
      | nil => exact (hrest f hf).mono (List.subset_append_left _ _)
      | cons o outputs =>
        rcases List.mem_cons.mp hf with rfl | hf
        · have hmem : (⟨c, depth, .done (o :: outputs)⟩ : Visit C O R) ∈
              visits ++ [⟨c, depth, .done (o :: outputs)⟩] :=
            List.mem_append_right _ (List.mem_singleton.mpr rfl)
          exact ⟨hdepth, fun _ ho' => ⟨_, hmem, rfl, ho'⟩⟩
        · exact (hrest f hf).mono (List.subset_append_left _ _)
    · intro v hv
      rcases List.mem_append.mp hv with hv | hv
      · exact hvisits v hv
      · rw [List.mem_singleton.mp hv]
        exact hdepth

end

/-- What executions a cascade of limited depth has made where it stops at a command too deep. -/
structure StoppedAt (n : Nat) (reaction : O → Checked (List C)) (root : C)
    (visits : List (Visit C O R)) (c : C) (depth : Nat) : Prop where
  follows : ∃ k, Follows ⟨some n⟩ reaction (start root) visits k
  shallow : ∀ v ∈ visits, v.depth ≤ n
  below : depth = n + 1
  caused : FirstFollowUp reaction visits n c

/-- **Too deep.** Executions do not fail for their depth, so a loop that does has made all its
executions within the limit, and stops at a command right below it. -/
theorem stoppedAt_of_drive {n : Nat} {reaction : O → Checked (List C)}
    {exec : C → Nat → ω → Outcome (Failure C R) (List O) × ω}
    (hexec : ∀ c depth w e w', exec c depth w = (.failed e, w') → e.depth? = none)
    {fuel : Nat} {root c : C} {depth : Nat} {w : ω} {j : Journey C O R ω}
    (h : drive ⟨some n⟩ reaction exec fuel (start root) w = some j)
    (hdeep : j.outcome = .failed (.depthExceeded c depth)) :
    Executes exec w j.visits j.world ∧ StoppedAt n reaction root j.visits c depth := by
  obtain ⟨done, last, now, between, hfollows, hends, hvisits, -, hlast⟩ := drive_executes h
  obtain ⟨hframes, hshallow⟩ := hfollows.within
  rw [hdeep] at hends
  cases hends with
  | ended hnext hallowed hnot =>
    cases hlast with
    | cons here _ =>
      have hnone := hexec _ _ _ _ _ here
      cases hnone
  | @tooDeep c depth derived rest hnext hnot =>
    rw [List.append_nil] at hvisits
    subst hvisits
    have hbelow : ¬ depth ≤ n := fun hle => hnot (decide_eq_true hle)
    rcases pull_within hframes hnext with ⟨hle, -⟩ | ⟨hdepth, hcaused⟩
    · exact absurd hle hbelow
    · exact ⟨executes_of_drive h, ⟨now, hfollows⟩, hshallow, hdepth, hcaused⟩

end EventMachines.Cascade
