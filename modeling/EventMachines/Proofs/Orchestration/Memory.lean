import EventMachines.Proofs.Orchestration.Atomicity

/-!
Engines that work their cascade off in memory. Such an engine has a state to begin with if its fetch
gives one, and then its run is the loop over the work list, with what it does with the last state;
otherwise its run ends with the fetch.

* `StateStored.orchestrating_inMemory`, `StateStored.lockingOrchestrating_inMemory`: both engines
  over states are such engines, and neither fails for a depth before or after its cascade.
-/

namespace EventMachines

open Cascade
open Program hiding bind

variable {P : Exchange} {C S E R T ω : Type}

/-- The engine begins with a fetch and works the cascade of a command off in memory. `begin` is what
it begins with, `first` the state in it, and `conclude` what it does with the last state. -/
structure InMemory (d : Decider C S E R) (g : Saga E C) (limit : DepthLimit) (b : Backend P ω)
    (c : C) (input : P.Input) (begin : P.Read → Checked T) (first : T → S)
    (conclude : T → S → ω → Run P (Failure C R) P.Ack ω) (e : Engine P (Failure C R) C P.Ack) :
    Prop where
  read : ∀ fuel w stored t, (b.fetch input w).1 = .ok (.ok stored) → begin stored = .ok t →
    (e.handle b fuel c w).map Run.quiet =
      (drive limit g.react d.inMemory fuel (.start c) (first t)).map fun j =>
        (⟨j.arrival, (b.fetch input w).2, [.fetched input (.ok (.ok stored))]⟩ :
          Run P (Failure C R) S ω).andThen (conclude t)
  unread : ∀ fuel w, (∀ stored t, (b.fetch input w).1 = .ok (.ok stored) → begin stored ≠ .ok t) →
    ∃ r, e.handle b fuel c w = some r ∧ ∀ e, r.outcome = .failed e → e.depth? = none
  shallow : ∀ t s w e, (conclude t s w).outcome = .failed e → e.depth? = none

/-- A call that has no state to begin with ends, and not for its depth. -/
theorem exists_handle_of_unread {b : Backend P ω} {c : C} {input : P.Input}
    {begin : P.Read → Checked T} (e : Engine P (Failure C R) C P.Ack) (began : Note)
    (embed : T → e.Pending)
    (hstart : e.start c = opening began input (.fetchFailed c) begin embed) (fuel : Nat) {w : ω}
    (hunread : ∀ stored t, (b.fetch input w).1 = .ok (.ok stored) → begin stored ≠ .ok t) :
    ∃ r, e.handle b fuel c w = some r ∧ ∀ e, r.outcome = .failed e → e.depth? = none := by
  obtain ⟨o, -, hfailed, hquiet⟩ :=
    quiet_goOn_opening began (.fetchFailed c) embed hunread fuel
  rw [← hstart] at hquiet
  obtain ⟨r, hr, hend⟩ := Option.map_eq_some_iff.mp hquiet
  refine ⟨r, hr, fun e he => ?_⟩
  obtain ⟨error, rfl⟩ := hfailed e ((congrArg Run.outcome hend).symm.trans he)
  rfl

/-- A write at the end of a call does not fail for a depth. -/
theorem shallow_of_save {b : Backend P ω} {data : P.Write} {c : C}
    {last : P.Ack → Program P (Failure C R) P.Ack}
    (hlast : ∀ ack, (last ack).Computes (.done ack)) {w : ω} {e : Failure C R}
    (h : ((save data (.storeFailed c) >>= last).run b w).quiet.outcome = .failed e) :
    e.depth? = none := by
  rw [quiet_run_save b data _ hlast] at h
  rcases hwrite : (b.write data w).1 with x | error | ack <;> simp only [hwrite] at h
  · cases h
  · cases h
    rfl
  · cases h

namespace StateStored

theorem orchestrating_inMemory (d : Decider C S E R) (g : Saga E C) (limit : DepthLimit)
    (b : Backend (Exchange.states C S) ω) (c : C) :
    InMemory d g limit b c c d.current id (fun _ s w => ((conclude c s).run b w).quiet)
      (orchestrating d g limit) where
  read fuel w stored s hfetch hcurrent :=
    quiet_handle_orchestrating d g limit b fuel (Prod.ext hfetch rfl) hcurrent
  unread fuel w hunread := exists_handle_of_unread (orchestrating d g limit)
    (.began .stateStoredOrchestrating) (fun s => (⟨c, s, .start c⟩ : Orchestration C S E)) rfl fuel
    hunread
  shallow _ s w e he := by
    have hlast : ∀ saved, (note .stateSaved (pure saved) :
        Program (Exchange.states C S) (Failure C R) S).Computes (.done saved) := fun _ => rfl
    exact shallow_of_save hlast he

theorem lockingOrchestrating_inMemory (d : Decider C S E R) (g : Saga E C) (limit : DepthLimit)
    (b : Backend (Exchange.lockedStates C S) ω) (c : C) :
    InMemory d g limit b c c (storedOr d.initial) Prod.fst
      (fun t s w => ((concludeLocking c t.2 s).run b w).quiet)
      (lockingOrchestrating d g limit) where
  read fuel w stored t hfetch hcurrent :=
    quiet_handle_lockingOrchestrating d g limit b fuel (Prod.ext hfetch rfl) hcurrent
  unread fuel w hunread := exists_handle_of_unread (lockingOrchestrating d g limit)
    (.began .stateStoredLockingOrchestrating)
    (fun t => ((⟨c, t.1, .start c⟩ : Orchestration C S E), t.2)) rfl fuel hunread
  shallow t s w e he := by
    let expected := (b.consult c w).getD (.ofCurrent t.2)
    have hlast : ∀ saved, (note (.stateLocked expected saved.2) (pure saved) :
        Program (Exchange.lockedStates C S) (Failure C R) (S × Version)).Computes (.done saved) :=
      fun _ => rfl
    have hsave : ((save (s, expected) (.storeFailed c) >>= fun saved : S × Version =>
        note (.stateLocked expected saved.2) (pure saved)).run b w).quiet.outcome = .failed e := he
    exact shallow_of_save hlast hsave

end StateStored

end EventMachines
