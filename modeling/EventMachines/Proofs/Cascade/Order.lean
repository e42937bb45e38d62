import EventMachines.Proofs.Cascade.Exploration
import EventMachines.Proofs.Cascade.Simulation

/-!
The order of a cascade's outputs. Commands are executed depth first, and each execution puts out a
batch; an answer tells an output and then all that it caused before it tells the next output of the
same batch. So it is not the order of the batches, but it keeps the order within each of them.

* `InOrder.append`, `InOrder.branch`: how such orders are put together;
* `explore_ordered`: every answer of the recursion is in order;
* `drive_ordered`: so is every answer of the loop over the work list.
-/

namespace EventMachines

variable {C O R ω α : Type}

/-! ## Batches in an answer -/

/-- The answer tells every batch in its own order, and batches of one output at most in theirs. -/
structure InOrder (batches : List (List O)) (answer : List O) : Prop where
  sublist : ∀ batch ∈ batches, batch.Sublist answer
  single : (∀ batch ∈ batches, batch.length ≤ 1) → answer = batches.flatten

namespace InOrder

variable {batches more : List (List O)} {answer answer' : List O}

theorem nil : InOrder [] ([] : List O) where
  sublist _ h := absurd h List.not_mem_nil
  single _ := rfl

theorem append (h : InOrder batches answer) (h' : InOrder more answer') :
    InOrder (batches ++ more) (answer ++ answer') where
  sublist batch hbatch := by
    rcases List.mem_append.mp hbatch with hbatch | hbatch
    · exact (h.sublist batch hbatch).trans (List.sublist_append_left _ _)
    · exact (h'.sublist batch hbatch).trans (List.sublist_append_right _ _)
  single hshort := by
    have hbatches := h.single fun batch hbatch => hshort batch (List.mem_append_left _ hbatch)
    have hmore := h'.single fun batch hbatch => hshort batch (List.mem_append_right _ hbatch)
    rw [List.flatten_append, hbatches, hmore]

/-- An output, what it caused, and then the rest of its batch with what that caused. -/
theorem branch {o : O} {rest : List O} (h : InOrder batches answer)
    (h' : InOrder (rest :: more) answer') :
    InOrder ((o :: rest) :: (batches ++ more)) (o :: (answer ++ answer')) where
  sublist batch hbatch := by
    rcases List.mem_cons.mp hbatch with rfl | hbatch
    · have hrest : rest.Sublist answer' := h'.sublist rest List.mem_cons_self
      exact (hrest.trans (List.sublist_append_right _ _)).cons_cons o
    · refine List.Sublist.cons o ?_
      rcases List.mem_append.mp hbatch with hbatch | hbatch
      · exact (h.sublist batch hbatch).trans (List.sublist_append_left _ _)
      · exact (h'.sublist batch (List.mem_cons_of_mem _ hbatch)).trans
          (List.sublist_append_right _ _)
  single hshort := by
    have hempty : rest = [] := by simpa using hshort (o :: rest) List.mem_cons_self
    subst hempty
    have hbatches := h.single fun batch hbatch =>
      hshort batch (List.mem_cons_of_mem _ (List.mem_append_left _ hbatch))
    have hmore := h'.single fun batch hbatch => by
      rcases List.mem_cons.mp hbatch with rfl | hbatch
      · exact Nat.zero_le 1
      · exact hshort batch (List.mem_cons_of_mem _ (List.mem_append_right _ hbatch))
    rw [hbatches, hmore]
    simp

/-- Batches without outputs do not matter. -/
theorem filter_iff :
    InOrder (batches.filter (!·.isEmpty)) answer ↔ InOrder batches answer := by
  have hmem : ∀ batch, batch ∈ batches.filter (!·.isEmpty) ↔ batch ∈ batches ∧ batch ≠ [] := by
    intro batch
    simp [List.mem_filter]
  constructor
  · intro h
    constructor
    · intro batch hbatch
      by_cases hempty : batch = []
      · rw [hempty]
        exact List.nil_sublist answer
      · exact h.sublist batch ((hmem batch).mpr ⟨hbatch, hempty⟩)
    · intro hshort
      rw [h.single fun batch hbatch => hshort batch ((hmem batch).mp hbatch).1]
      exact List.flatten_filter_not_isEmpty
  · intro h
    constructor
    · exact fun batch hbatch => h.sublist batch ((hmem batch).mp hbatch).1
    · intro hshort
      rw [List.flatten_filter_not_isEmpty]
      refine h.single fun batch hbatch => ?_
      by_cases hempty : batch = []
      · rw [hempty]
        exact Nat.zero_le 1
      · exact hshort batch ((hmem batch).mpr ⟨hbatch, hempty⟩)

end InOrder

/-! ## Trips -/

/-- The batches of the executions, in their order. -/
def Journey.batches (j : Journey C O R ω) : List (List O) := j.visits.map (·.outcome.outputs)

theorem Journey.batches_after (j : Journey C O R ω) (outputs : List O)
    (visits : List (Visit C O R)) :
    (j.after outputs visits).batches = visits.map (·.outcome.outputs) ++ j.batches :=
  List.map_append

namespace Trip

/-- Whatever the trip answers tells, in order, the batches it starts from and those of its
executions. -/
def Ordered (roots : List (List O)) (p : Trip C O R ω) : Prop :=
  ∀ w j answer, p w = some j → j.outcome = .done answer → InOrder (roots ++ j.batches) answer

theorem ordered_emitted_nil : Ordered [] (emitted [] : Trip C O R ω) := by
  intro w j answer h hanswer
  obtain rfl := Option.some.inj h
  obtain rfl := Outcome.done.inj hanswer
  exact .nil

theorem ordered_stop_failed (e : Failure C R) : Ordered [] (stop (.failed e) : Trip C O R ω) := by
  intro w j answer h hanswer
  obtain rfl := Option.some.inj h
  cases hanswer

/-- Where both parts of a trip answered, so did the whole. -/
theorem andThen_eq_done {p q : Trip C O R ω} {w : ω} {j : Journey C O R ω} {answer : List O}
    (h : p.andThen q w = some j) (hanswer : j.outcome = .done answer) :
    ∃ (i k : Journey C O R ω) (first second : List O), p w = some i ∧ i.outcome = .done first ∧
      q i.world = some k ∧ k.outcome = .done second ∧ answer = first ++ second ∧
      j.batches = i.batches ++ k.batches := by
  obtain ⟨i, hi, hj⟩ := Option.bind_eq_some_iff.mp h
  rcases hout : i.outcome with first | e | x <;> simp only [hout] at hj
  · obtain ⟨k, hk, rfl⟩ := Option.map_eq_some_iff.mp hj
    rcases k with ⟨second | e | x, w', visits⟩
    · exact ⟨i, _, first, second, hi, hout, hk, rfl, (Outcome.done.inj hanswer).symm,
        Journey.batches_after _ _ _⟩
    · cases hanswer
    · cases hanswer
  · obtain rfl := Option.some.inj hj
    cases hout.symm.trans hanswer
  · obtain rfl := Option.some.inj hj
    cases hout.symm.trans hanswer

theorem Ordered.andThen {p q : Trip C O R ω} (hp : Ordered [] p) (hq : Ordered [] q) :
    Ordered [] (p.andThen q) := by
  intro w j answer h hanswer
  obtain ⟨i, k, first, second, hi, hfirst, hk, hsecond, rfl, hbatches⟩ := andThen_eq_done h hanswer
  have hleft : InOrder i.batches first := hp w i first hi hfirst
  have hright : InOrder k.batches second := hq i.world k second hk hsecond
  rw [List.nil_append, hbatches]
  exact hleft.append hright

theorem Ordered.each {f : α → Trip C O R ω} (hf : ∀ a, Ordered [] (f a)) (items : List α) :
    Ordered [] (each f items) := by
  induction items with
  | nil => exact ordered_emitted_nil
  | cons a items ih => exact (hf a).andThen ih

/-- Reacting to a batch tells the batch, and each output before what it caused. -/
theorem Ordered.reactions (reaction : O → Checked (List C)) {run : C → Trip C O R ω}
    (hrun : ∀ c, Ordered [] (run c)) (outputs : List O) :
    Ordered [outputs] (Trip.each (reactTo reaction run) outputs) := by
  induction outputs with
  | nil =>
    intro w j answer h hanswer
    obtain rfl := Option.some.inj h
    obtain rfl := Outcome.done.inj hanswer
    exact InOrder.filter_iff.mp .nil
  | cons o outputs ih =>
    intro w j answer h hanswer
    obtain ⟨i, k, first, second, hi, hfirst, hk, hsecond, rfl, hbatches⟩ :=
      andThen_eq_done h hanswer
    have hrest : InOrder (outputs :: k.batches) second := ih i.world k second hk hsecond
    rcases hreaction : reaction o with x | commands
    · simp only [reactTo, hreaction] at hi
      obtain rfl := Option.some.inj hi
      cases hfirst
    · simp only [reactTo, hreaction] at hi
      obtain ⟨l, m, told, caused, hl, htold, hm, hcaused, rfl, hcausedBatches⟩ :=
        andThen_eq_done hi hfirst
      obtain rfl := Option.some.inj hl
      obtain rfl := Outcome.done.inj htold
      have hcommands : InOrder m.batches caused := Ordered.each hrun commands w m caused hm hcaused
      have hall : j.batches = m.batches ++ k.batches := by
        rw [hbatches, hcausedBatches]
        rfl
      rw [hall]
      exact hcommands.branch hrest

theorem Ordered.execute {exec : C → Nat → ω → Outcome (Failure C R) (List O) × ω} (c : C)
    (depth : Nat) {onOutputs : List O → Trip C O R ω}
    (h : ∀ outputs, Ordered [outputs] (onOutputs outputs)) :
    Ordered [] (execute exec c depth onOutputs) := by
  intro w j answer hj hanswer
  rcases he : exec c depth w with ⟨outputs | e | x, w'⟩
  · rw [execute_done _ he] at hj
    obtain ⟨k, hk, rfl⟩ := Option.map_eq_some_iff.mp hj
    rcases k with ⟨more | e | x, w'', visits⟩
    · obtain rfl := Outcome.done.inj hanswer
      exact h outputs w' _ more hk rfl
    · cases hanswer
    · cases hanswer
  · rw [execute_failed _ he] at hj
    obtain rfl := Option.some.inj hj
    cases hanswer
  · rw [execute_broken _ he] at hj
    obtain rfl := Option.some.inj hj
    cases hanswer

end Trip

/-! ## Cascades -/

namespace Cascade

open Trip

variable (limit : DepthLimit) (reaction : O → Checked (List C))
  (exec : C → Nat → ω → Outcome (Failure C R) (List O) × ω)

theorem explore_ordered (fuel : Nat) (c : C) (depth : Nat) :
    Ordered [] (explore limit reaction exec fuel c depth) := by
  induction fuel generalizing c depth with
  | zero =>
    intro w j answer h
    cases h
  | succ fuel ih =>
    rw [explore]
    split
    · exact Ordered.execute c depth (Ordered.reactions reaction fun c => ih c (depth + 1))
    · exact ordered_stop_failed _

/-- **In order.** The loop answers the batches of its executions, each in its own order. -/
theorem drive_ordered {fuel : Nat} {c : C} {w : ω} {j : Journey C O R ω} {answer : List O}
    (h : drive limit reaction exec fuel (start c) w = some j) (hanswer : j.outcome = .done answer) :
    InOrder j.batches answer := by
  obtain ⟨n, hn⟩ := (exists_drive_iff_explore limit reaction exec c w j).mp ⟨fuel, h⟩
  exact explore_ordered limit reaction exec n c 0 w j answer hn hanswer

end Cascade

end EventMachines
