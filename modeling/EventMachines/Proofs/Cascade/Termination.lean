import EventMachines.Proofs.Cascade.Exploration

/-!
Cascades come to an end. Looking for the next command is a loop over frames, which every look makes
lighter; so it finds what the recursion over frames finds. And a limit bounds how deep the recursion
from a command goes, while each of its branches is over finite lists; so the loop over the work list
ends too, whatever commands put out and outputs cause.

* `weight_lt_of_look`: a look that finds nothing yet makes the work list lighter;
* `looks_eq_next`: as many looks as the work list is heavy, and one more, find the next command;
* `explore_total`: with a limit, the recursion ends from every command that may be reached;
* `exists_drive`: so does the loop.
-/

namespace EventMachines

variable {C O R ω α : Type}

namespace Cascade

/-! ## Looking for the next command -/

/-- One look at the innermost frame finds what to do next, or leaves a work list to look at
again. -/
def look (reaction : O → Checked (List C)) : Cascade C O → Checked (Next C O ⊕ Cascade C O)
  | ⟨[], reacted⟩ => .ok (.inl (.finished reacted.reverse))
  | ⟨.commands [] _ :: stack, reacted⟩ => .ok (.inr ⟨stack, reacted⟩)
  | ⟨.commands (c :: waiting) depth :: stack, reacted⟩ =>
    .ok (.inl (.command c depth 0 ⟨.commands waiting depth :: stack, reacted⟩))
  | ⟨.outputs [] _ :: stack, reacted⟩ => .ok (.inr ⟨stack, reacted⟩)
  | ⟨.outputs (o :: waiting) depth :: stack, reacted⟩ => do
    match ← reaction o with
    | [] => return .inr ⟨.outputs waiting depth :: stack, o :: reacted⟩
    | c :: commands => return .inr ⟨.commands (c :: commands) (depth + 1) ::
        .outputs waiting depth :: stack, o :: reacted⟩

/-- At most so many looks. -/
def looks (reaction : O → Checked (List C)) : Nat → Cascade C O → Option (Checked (Next C O))
  | 0, _ => none
  | n + 1, k =>
    match look reaction k with
    | .error x => some (.error x)
    | .ok (.inl next) => some (.ok next)
    | .ok (.inr k) => looks reaction n k

/-- An output may cause a frame of its own, so it is heavier than a frame. -/
def Frame.weight : Frame C O → Nat
  | .commands _ _ => 1
  | .outputs waiting _ => 2 * waiting.length + 1

def weight (k : Cascade C O) : Nat :=
  k.stack.foldr (fun frame total => Frame.weight frame + total) 0

/-- What to do next, whether the command waited or is new. -/
def Next.bare : Next C O → Next C O
  | finished outputs => finished outputs
  | command c depth _ rest => command c depth 0 rest

section

variable {reaction : O → Checked (List C)}

theorem weight_lt_of_look {k now : Cascade C O} (h : look reaction k = .ok (.inr now)) :
    now.weight < k.weight := by
  rcases k with ⟨_ | ⟨⟨_ | ⟨c, waiting⟩, depth⟩ | ⟨_ | ⟨o, waiting⟩, depth⟩, stack⟩, reacted⟩
  · cases h
  · obtain rfl := Sum.inr.inj (Except.ok.inj h)
    simp [weight, Frame.weight]
  · cases h
  · obtain rfl := Sum.inr.inj (Except.ok.inj h)
    simp [weight, Frame.weight]
  · obtain ⟨caused, -, h⟩ := Checked.bind_eq_ok.mp h
    cases caused with
    | nil =>
      obtain rfl := Sum.inr.inj (Except.ok.inj h)
      simp [weight, Frame.weight]
    | cons c commands =>
      obtain rfl := Sum.inr.inj (Except.ok.inj h)
      simp only [weight, Frame.weight, List.foldr_cons, List.length_cons]
      omega

/-- A look finds what the recursion over the frames finds, or leaves what that comes to. -/
theorem next_of_look (k : Cascade C O) :
    Next.bare <$> k.next reaction = match look reaction k with
      | .error x => .error x
      | .ok (.inl next) => .ok next
      | .ok (.inr now) => Next.bare <$> now.next reaction := by
  rcases k with ⟨_ | ⟨⟨_ | ⟨c, waiting⟩, depth⟩ | ⟨_ | ⟨o, waiting⟩, depth⟩, stack⟩, reacted⟩
  · rfl
  · rfl
  · rfl
  · rfl
  · simp only [next, pull, react, look]
    rcases hreaction : reaction o with x | _ | ⟨c, commands⟩
    · rfl
    · rfl
    · rfl

/-- **Every search ends.** -/
theorem looks_eq_next (n : Nat) (k : Cascade C O) (h : k.weight < n) :
    looks reaction n k = some (Next.bare <$> k.next reaction) := by
  induction n generalizing k with
  | zero => omega
  | succ n ih =>
    rw [next_of_look, looks]
    rcases hlook : look reaction k with x | next | now
    · rfl
    · rfl
    · have hlighter := weight_lt_of_look hlook
      exact ih now (by omega)

end

end Cascade

/-! ## Trips that end -/

namespace Trip

def Total (p : Trip C O R ω) : Prop := ∀ w, ∃ j, p w = some j

theorem total_stop (o : Outcome (Failure C R) (List O)) : Total (stop o : Trip C O R ω) :=
  fun _ => ⟨_, rfl⟩

theorem Total.andThen {p q : Trip C O R ω} (hp : Total p) (hq : Total q) :
    Total (p.andThen q) := by
  intro w
  obtain ⟨i, hi⟩ := hp w
  obtain ⟨j, hj⟩ := hq i.world
  rcases i with ⟨outputs | e | x, w', visits⟩
  · exact ⟨j.after outputs visits, by simp [Trip.andThen, hi, hj]⟩
  · exact ⟨⟨.failed e, w', visits⟩, by simp [Trip.andThen, hi]⟩
  · exact ⟨⟨.broken x, w', visits⟩, by simp [Trip.andThen, hi]⟩

theorem Total.each {f : α → Trip C O R ω} (hf : ∀ a, Total (f a)) (items : List α) :
    Total (each f items) := by
  induction items with
  | nil => exact total_stop _
  | cons a items ih => exact (hf a).andThen ih

theorem Total.reactTo (reaction : O → Checked (List C)) {run : C → Trip C O R ω}
    (hrun : ∀ c, Total (run c)) (o : O) : Total (reactTo reaction run o) := by
  unfold Trip.reactTo
  cases reaction o with
  | error x => exact total_stop _
  | ok commands => exact (total_stop _).andThen (Total.each hrun commands)

theorem Total.execute (exec : C → Nat → ω → Outcome (Failure C R) (List O) × ω) (c : C)
    (depth : Nat) {onOutputs : List O → Trip C O R ω} (h : ∀ outputs, Total (onOutputs outputs)) :
    Total (execute exec c depth onOutputs) := by
  intro w
  rcases he : exec c depth w with ⟨outputs | e | x, w'⟩
  · obtain ⟨j, hj⟩ := h outputs w'
    exact ⟨_, by rw [execute_done _ he, hj]; rfl⟩
  · exact ⟨_, execute_failed _ he⟩
  · exact ⟨_, execute_broken _ he⟩

end Trip

/-! ## Cascades with a limit -/

namespace Cascade

open Trip

variable (n : Nat) (reaction : O → Checked (List C))
  (exec : C → Nat → ω → Outcome (Failure C R) (List O) × ω)

/-- Every command that is reached lies one below the limit at most, and costs one of the fuel. -/
theorem explore_total (fuel : Nat) (c : C) (depth : Nat) (h : n + 1 < fuel + depth)
    (hdepth : depth ≤ n + 1) : Total (explore ⟨some n⟩ reaction exec fuel c depth) := by
  induction fuel generalizing c depth with
  | zero => omega
  | succ fuel ih =>
    rw [explore]
    by_cases hallowed : (⟨some n⟩ : DepthLimit).allows depth = true
    · have hle : depth ≤ n := of_decide_eq_true hallowed
      rw [if_pos hallowed]
      have hrun : ∀ c, Total (explore ⟨some n⟩ reaction exec fuel c (depth + 1)) :=
        fun c => ih c (depth + 1) (by omega) (by omega)
      exact Total.execute exec c depth (Total.each (Total.reactTo reaction hrun))
    · rw [if_neg hallowed]
      exact total_stop _

/-- **A limited cascade ends.** -/
theorem exists_drive (c : C) (w : ω) :
    ∃ fuel j, drive ⟨some n⟩ reaction exec fuel (start c) w = some j := by
  obtain ⟨j, hj⟩ := explore_total n reaction exec (n + 2) c 0 (by omega) (by omega) w
  obtain ⟨fuel, hfuel⟩ :=
    (exists_drive_iff_explore ⟨some n⟩ reaction exec c w j).mpr ⟨n + 2, hj⟩
  exact ⟨fuel, j, hfuel⟩

end Cascade

end EventMachines
