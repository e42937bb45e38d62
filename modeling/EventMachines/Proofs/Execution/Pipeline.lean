import EventMachines.Proofs.Orchestration.Atomicity

/-!
Calls over a state as a straight line: fetch, begin with what was fetched, and conclude with the
state that comes of it. Whether that state is computed at once or by a whole cascade in memory makes
no difference to the store.

* `quiet_run_pipeline`: the run of such a call that has something to begin with;
* `quiet_run_pipeline_of_computes`: what computes the state without a call may stand in its place;
* `quiet_handle_pipeline`: an engine that works a cascade off in memory is one, if the cascade ends;
* `StateStored.quiet_handle_plain`, `StateStored.quiet_handle_locking`: and so are the engines that
  compute a single state.
-/

namespace EventMachines

open Cascade
open Program hiding bind

variable {P : Exchange} {C S E R T ε A ω : Type}

/-- Fetches, begins with what was fetched, and concludes with what comes of it. -/
def Program.pipeline (input : P.Input) (failure : StoreError → ε) (begin : P.Read → Checked T)
    (comes : T → Outcome ε S) (conclude : T → S → Program P ε A) : Program P ε A := do
  let stored ← read input failure
  let t ← ofChecked (begin stored)
  let s ← halt (comes t)
  conclude t s

section

variable {b : Backend P ω} {input : P.Input} {failure : StoreError → ε} {begin : P.Read → Checked T}
  {comes : T → Outcome ε S} {conclude : T → S → Program P ε A} {w w' : ω}

theorem quiet_run_pipeline {stored : P.Read} {t : T}
    (hfetch : b.fetch input w = (.ok (.ok stored), w'))
    (hbegin : begin stored = .ok t) :
    ((pipeline input failure begin comes conclude).run b w).quiet =
      (⟨comes t, w', [.fetched input (.ok (.ok stored))]⟩ : Run P ε S ω).andThen fun s w =>
        ((conclude t s).run b w).quiet := by
  rw [pipeline, read_bind]
  simp only [run, hfetch, hbegin, ofChecked_ok, pure_bind]
  rcases comes t with s | e | x
  · rfl
  · rfl
  · rfl

/-- A state that is computed without a call might as well be there. -/
theorem quiet_run_pipeline_of_computes (change : T → Program P ε S)
    (hchange : ∀ t, (change t).Computes (comes t)) :
    ((do
      let stored ← read input failure
      let t ← ofChecked (begin stored)
      let s ← change t
      conclude t s : Program P ε A).run b w).quiet =
      ((pipeline input failure begin comes conclude).run b w).quiet := by
  simp only [pipeline, run_bind, Run.quiet_andThen, (hchange _).quiet_run]
  rfl

end

/-- An engine that begins with a fetch and works its cascade off in memory is a straight line with
what the cascade comes to. -/
theorem quiet_handle_pipeline {e : Engine P (Failure C R) C P.Ack} {c : C} (began : Note)
    {input : P.Input} {failure : StoreError → Failure C R} {begin : P.Read → Checked T}
    (embed : T → e.Pending) (hstart : e.start c = opening began input failure begin embed)
    {b : Backend P ω} {fuel : Nat} {w : ω} {comes : T → Outcome (Failure C R) S}
    {conclude : T → S → Program P (Failure C R) P.Ack}
    (hcascade : ∀ stored t w', b.fetch input w = (.ok (.ok stored), w') → begin stored = .ok t →
      (e.handle b fuel c w).map Run.quiet =
        some ((⟨comes t, w', [.fetched input (.ok (.ok stored))]⟩ :
          Run P (Failure C R) S ω).andThen fun s w => ((conclude t s).run b w).quiet)) :
    (e.handle b fuel c w).map Run.quiet =
      some ((pipeline input failure begin comes conclude).run b w).quiet := by
  rcases hfetch : b.fetch input w with ⟨x | error | stored, w'⟩
  · rw [Engine.handle, hstart, opening, tell_bind, read_bind, pipeline, read_bind]
    simp [run, hfetch, Run.after, calls, Happening.isCall]
  · rw [Engine.handle, hstart, opening, tell_bind, read_bind, pipeline, read_bind]
    simp [run, hfetch, Run.after, calls, Happening.isCall]
  · rcases hbegin : begin stored with x | t
    · rw [Engine.handle, hstart, opening, tell_bind, read_bind, pipeline, read_bind]
      simp only [run, hfetch, hbegin, ofChecked_error, halt_broken_bind]
      simp [Run.after, calls, Happening.isCall]
    · rw [hcascade stored t w' hfetch hbegin, quiet_run_pipeline hfetch hbegin]

namespace StateStored

/-- One state, computed and saved. -/
theorem quiet_handle_plain (d : Decider C S E R) (b : Backend (Exchange.states C S) ω) (fuel : Nat)
    (c : C) (w : ω) :
    ((plain d).handle b fuel c w).map Run.quiet =
      some ((pipeline c (.fetchFailed c) d.current (d.becomes c) fun _ => conclude c).run b
        w).quiet := by
  rw [← quiet_run_pipeline_of_computes (compute d c) (compute_computes d c), plain,
    Engine.handle_ofProgram]
  rfl

theorem quiet_handle_locking (d : Decider C S E R) (b : Backend (Exchange.lockedStates C S) ω)
    (fuel : Nat) (c : C) (w : ω) :
    ((locking d).handle b fuel c w).map Run.quiet =
      some ((pipeline c (.fetchFailed c) (storedOr d.initial) (fun t => d.becomes c t.1) fun t s =>
        saveLocking c s (.ofCurrent t.2)).run b w).quiet := by
  rw [← quiet_run_pipeline_of_computes (fun t => compute d c t.1)
    (fun t => compute_computes d c t.1), locking, Engine.handle_ofProgram]
  rfl

/-- A cascade in memory that ends, and then a save. -/
theorem quiet_handle_orchestrating_of_ends (d : Decider C S E R) (g : Saga E C) (limit : DepthLimit)
    (b : Backend (Exchange.states C S) ω) {fuel : Nat} {c : C} {w : ω}
    {comes : S → Outcome (Failure C R) S}
    (hends : ∀ stored s, (b.fetch c w).1 = .ok (.ok stored) → d.current stored = .ok s →
      (drive limit g.react d.inMemory fuel (.start c) s).map Journey.arrival = some (comes s)) :
    ((orchestrating d g limit).handle b fuel c w).map Run.quiet =
      some ((pipeline c (.fetchFailed c) d.current comes fun _ => conclude c).run b w).quiet := by
  refine quiet_handle_pipeline (.began .stateStoredOrchestrating)
    (fun s => (⟨c, s, .start c⟩ : Orchestration C S E)) rfl fun stored s w' hfetch hcurrent => ?_
  obtain ⟨j, hj, harrival⟩ :=
    Option.map_eq_some_iff.mp (hends stored s (congrArg Prod.fst hfetch) hcurrent)
  rw [quiet_handle_orchestrating d g limit b fuel hfetch hcurrent, hj, Option.map_some, harrival]

theorem quiet_handle_lockingOrchestrating_of_ends (d : Decider C S E R) (g : Saga E C)
    (limit : DepthLimit) (b : Backend (Exchange.lockedStates C S) ω) {fuel : Nat} {c : C} {w : ω}
    {comes : S → Outcome (Failure C R) S}
    (hends : ∀ stored t, (b.fetch c w).1 = .ok (.ok stored) → storedOr d.initial stored = .ok t →
      (drive limit g.react d.inMemory fuel (.start c) t.1).map Journey.arrival = some (comes t.1)) :
    ((lockingOrchestrating d g limit).handle b fuel c w).map Run.quiet =
      some ((pipeline c (.fetchFailed c) (storedOr d.initial) (fun t => comes t.1) fun t s =>
        concludeLocking c t.2 s).run b w).quiet := by
  refine quiet_handle_pipeline (.began .stateStoredLockingOrchestrating)
    (fun t => ((⟨c, t.1, .start c⟩ : Orchestration C S E), t.2)) rfl
    fun stored t w' hfetch hcurrent => ?_
  obtain ⟨j, hj, harrival⟩ :=
    Option.map_eq_some_iff.mp (hends stored t (congrArg Prod.fst hfetch) hcurrent)
  rw [quiet_handle_lockingOrchestrating d g limit b fuel hfetch hcurrent, hj, Option.map_some,
    harrival]

end StateStored

end EventMachines
