import EventMachines.Proofs.Cascade.Depth
import EventMachines.Proofs.Cascade.Termination

/-!
Cascades that run out of themselves. Where every command that an output causes measures less than
the command that put it out, a command and its depth together measure no more than the first
command. So no limit from there on is ever reached, and the loop ends without one.

* `pull_below`: the frames of a work list stay below the measure of the first command, and so does
  the next command;
* `drive_sameLimits`: then all limits that allow so much make the same loop;
* `exists_descent`: the loop ends with the same journey without a limit, and no execution in it is
  deeper than the first command measures.
-/

namespace EventMachines.Cascade

variable {C O R ω : Type}

/-- Commands, or outputs whose commands, measure no more than `n` together with their depth. -/
def Below (m : C → Nat) (reaction : O → Checked (List C)) (n : Nat) : Frame C O → Prop
  | .commands waiting depth => ∀ c ∈ waiting, m c + depth ≤ n
  | .outputs waiting depth => ∀ o ∈ waiting, ∀ commands, reaction o = .ok commands →
    ∀ c ∈ commands, m c + depth < n

/-- The outputs cause smaller commands only. -/
def Lowers (m : C → Nat) (reaction : O → Checked (List C)) (n : Nat) (outputs : List O) : Prop :=
  ∀ o ∈ outputs, ∀ commands, reaction o = .ok commands → ∀ c ∈ commands, m c < n

section

variable {m : C → Nat} {reaction : O → Checked (List C)} {n : Nat}

theorem pull_below {stack : List (Frame C O)} {reacted : List O} {c : C} {depth derived : Nat}
    {rest : Cascade C O} (h : ∀ f ∈ stack, Below m reaction n f)
    (hpull : pull reaction stack reacted = .ok (.command c depth derived rest)) :
    m c + depth ≤ n ∧ ∀ f ∈ rest.stack, Below m reaction n f := by
  rcases rest with ⟨rest, now⟩
  cases pull_comes hpull with
  | waited hframe hbelow =>
    have hwaiting := h _ hframe
    refine ⟨hwaiting c List.mem_cons_self, fun f hf => ?_⟩
    rcases List.mem_cons.mp hf with rfl | hf
    · exact fun c hc => hwaiting c (List.mem_cons_of_mem _ hc)
    · exact h f (hbelow hf)
  | @caused outputs later o _ commands level below hframe hmem hreacts hlater hbelow =>
    have hcaused : ∀ c' ∈ c :: commands, m c' + level < n := h _ hframe o hmem _ hreacts
    refine ⟨hcaused c List.mem_cons_self, fun f hf => ?_⟩
    rcases List.mem_cons.mp hf with rfl | hf
    · exact fun c' hc' => hcaused c' (List.mem_cons_of_mem _ hc')
    rcases List.mem_cons.mp hf with rfl | hf
    · exact fun o ho => h _ hframe o (hlater ho)
    · exact h f (hbelow hf)

/-- What a command puts out stays below with it. -/
theorem push_below {k : Cascade C O} (h : ∀ f ∈ k.stack, Below m reaction n f) {c : C} {depth : Nat}
    (hc : m c + depth ≤ n) {outputs : List O} (hlowers : Lowers m reaction (m c) outputs) :
    ∀ f ∈ (k.push outputs depth).stack, Below m reaction n f := by
  intro f hf
  cases outputs with
  | nil => exact h f hf
  | cons o outputs =>
    rcases List.mem_cons.mp hf with rfl | hf
    · intro o ho commands hreaction c' hc'
      have hlt := hlowers o ho commands hreaction c' hc'
      omega
    · exact h f hf

theorem start_below (c : C) : ∀ f ∈ (start c : Cascade C O).stack, Below m reaction (m c) f := by
  simp [start, Below]

variable {exec : C → Nat → ω → Outcome (Failure C R) (List O) × ω}
  (hexec : ∀ c depth w outputs w', exec c depth w = (.done outputs, w') →
    Lowers m reaction (m c) outputs)
include hexec

/-- Limits that allow so much do not count. -/
theorem drive_sameLimits {limit limit' : DepthLimit} (h : ∀ depth ≤ n, limit.allows depth = true)
    (h' : ∀ depth ≤ n, limit'.allows depth = true) (fuel : Nat) {k : Cascade C O}
    (hk : ∀ f ∈ k.stack, Below m reaction n f) (w : ω) :
    drive limit reaction exec fuel k w = drive limit' reaction exec fuel k w := by
  induction fuel generalizing k w with
  | zero => rfl
  | succ fuel ih =>
    rcases hnext : k.next reaction with x | ⟨outputs⟩ | ⟨c, depth, derived, rest⟩
    · rw [drive, drive, hnext]
    · rw [drive, drive, hnext]
    · obtain ⟨hc, hrest⟩ := pull_below hk hnext
      have hdepth : depth ≤ n := by omega
      rw [drive_allowed limit reaction exec fuel hnext (h depth hdepth),
        drive_allowed limit' reaction exec fuel hnext (h' depth hdepth)]
      rcases he : exec c depth w with ⟨outputs | e | x, w'⟩
      · rw [Trip.execute_done _ he, Trip.execute_done _ he,
          ih (push_below hrest hc (hexec c depth w outputs w' he))]
      · rw [Trip.execute_failed _ he, Trip.execute_failed _ he]
      · rw [Trip.execute_broken _ he, Trip.execute_broken _ he]

/-- No execution is too deep for such a limit. -/
theorem drive_below {limit : DepthLimit} (h : ∀ depth ≤ n, limit.allows depth = true)
    (hshallow : ∀ c depth w e w', exec c depth w = (.failed e, w') → e.depth? = none) {fuel : Nat}
    {k : Cascade C O} (hk : ∀ f ∈ k.stack, Below m reaction n f) {w : ω} {j : Journey C O R ω}
    (hj : drive limit reaction exec fuel k w = some j) :
    (∀ v ∈ j.visits, m v.command + v.depth ≤ n) ∧ ∀ e, j.outcome = .failed e → e.depth? = none := by
  revert hk
  refine drive_induction limit reaction exec (motive := fun k _ j =>
    (∀ f ∈ k.stack, Below m reaction n f) → (∀ v ∈ j.visits, m v.command + v.depth ≤ n) ∧
      ∀ e, j.outcome = .failed e → e.depth? = none) ?broken ?finished ?tooDeep ?executed ?ended hj
  case broken => exact fun k w x _ _ => ⟨by simp, by simp⟩
  case finished => exact fun k w outputs _ _ => ⟨by simp, by simp⟩
  case tooDeep =>
    intro k w c depth derived rest hnext hdeep hk
    obtain ⟨hc, -⟩ := pull_below hk hnext
    exact absurd (h depth (by omega)) hdeep
  case executed =>
    intro k w c depth derived rest outputs w' j hnext _ he ih hk
    obtain ⟨hc, hrest⟩ := pull_below hk hnext
    obtain ⟨hvisits, hfailed⟩ := ih (push_below hrest hc (hexec c depth w outputs w' he))
    constructor
    · intro v hv
      rcases List.mem_cons.mp hv with rfl | hv
      · exact hc
      · exact hvisits v hv
    · intro e hend
      rcases j with ⟨more | e' | x, w'', visits⟩
      · cases hend
      · exact hfailed e hend
      · cases hend
  case ended =>
    intro k w c depth derived rest o w' hnext _ he _ hk
    obtain ⟨hc, -⟩ := pull_below hk hnext
    refine ⟨fun v hv => ?_, fun e hend => ?_⟩
    · rw [List.mem_singleton.mp hv]
      exact hc
    · obtain rfl : o = .failed e := hend
      exact hshallow c depth w e w' he

end

/-- What the loop comes to without a limit: to the same with every limit from the measure of the
first command on, with no execution deeper than that. -/
structure Descent (m : C → Nat) (reaction : O → Checked (List C))
    (exec : C → Nat → ω → Outcome (Failure C R) (List O) × ω) (fuel : Nat) (c : C) (w : ω)
    (j : Journey C O R ω) : Prop where
  unlimited : drive .unlimited reaction exec fuel (start c) w = some j
  limited : ∀ max, m c ≤ max → drive ⟨some max⟩ reaction exec fuel (start c) w = some j
  visits : ∀ v ∈ j.visits, m v.command + v.depth ≤ m c
  unstopped : ∀ e, j.outcome = .failed e → e.depth? = none

/-- **A descending cascade ends.** -/
theorem exists_descent {m : C → Nat} {reaction : O → Checked (List C)}
    {exec : C → Nat → ω → Outcome (Failure C R) (List O) × ω}
    (hexec : ∀ c depth w outputs w', exec c depth w = (.done outputs, w') →
      Lowers m reaction (m c) outputs)
    (hshallow : ∀ c depth w e w', exec c depth w = (.failed e, w') → e.depth? = none) (c : C)
    (w : ω) : ∃ fuel j, Descent m reaction exec fuel c w j := by
  obtain ⟨fuel, j, hj⟩ := exists_drive (m c) reaction exec c w
  have hallows : ∀ max, m c ≤ max → ∀ depth ≤ m c, (⟨some max⟩ : DepthLimit).allows depth = true :=
    fun max hmax depth hdepth => decide_eq_true (Nat.le_trans hdepth hmax)
  have hsame : ∀ limit : DepthLimit, (∀ depth ≤ m c, limit.allows depth = true) →
      drive limit reaction exec fuel (start c) w =
        drive ⟨some (m c)⟩ reaction exec fuel (start c) w :=
    fun limit hlimit =>
      drive_sameLimits hexec hlimit (hallows (m c) (Nat.le_refl _)) fuel (start_below c) w
  obtain ⟨hvisits, hunstopped⟩ :=
    drive_below hexec (hallows (m c) (Nat.le_refl _)) hshallow (start_below c) hj
  exact ⟨fuel, j, (hsame .unlimited fun _ _ => rfl).trans hj,
    fun max hmax => (hsame ⟨some max⟩ (hallows max hmax)).trans hj, hvisits, hunstopped⟩

end EventMachines.Cascade
