import EventMachines.Proofs.Cascade.Termination
import EventMachines.Proofs.Orchestration.Memory

/-!
A limit makes every orchestration end. Each round of an engine is a program, which ends, and begins
with a search for the next command, which ends too; and with a limit there are so many rounds only,
whatever the decider, the saga and the store do.

* `exists_handle_of_drive`, `InMemory.exists_handle`: an engine comes to an end with its cascade;
* `orchestrations_terminate`: so all four do, from every command and over every store.
-/

namespace EventMachines

open Cascade

variable {P : Exchange} {C S E R O Item A T ω ω' : Type}

/-- An engine whose rounds are those of a loop ends with it. -/
theorem exists_handle_of_drive {e : Engine P (Failure C R) Item A} {b : Backend P ω} {item : Item}
    {w : ω} {runs : Nat → Option (Journey C O R ω')} {result : Journey C O R ω' → Run P _ A ω}
    (hruns : ∀ fuel, (e.handle b fuel item w).map Run.quiet = (runs fuel).map result)
    (hends : ∃ fuel j, runs fuel = some j) : ∃ fuel r, e.handle b fuel item w = some r := by
  obtain ⟨fuel, j, hj⟩ := hends
  have hquiet := hruns fuel
  rw [hj] at hquiet
  obtain ⟨r, hr, -⟩ := Option.map_eq_some_iff.mp hquiet
  exact ⟨fuel, r, hr⟩

/-- An engine that works its cascade off in memory ends with that, or with its fetch. -/
theorem InMemory.exists_handle {d : Decider C S E R} {g : Saga E C} {n : Nat} {b : Backend P ω}
    {c : C} {input : P.Input} {begin : P.Read → Checked T} {first : T → S}
    {conclude : T → S → ω → Run P (Failure C R) P.Ack ω} {e : Engine P (Failure C R) C P.Ack}
    (h : InMemory d g ⟨some n⟩ b c input begin first conclude e) (w : ω) :
    ∃ fuel r, e.handle b fuel c w = some r := by
  by_cases hread : ∃ stored t, (b.fetch input w).1 = .ok (.ok stored) ∧ begin stored = .ok t
  · obtain ⟨stored, t, hfetch, hbegin⟩ := hread
    exact exists_handle_of_drive (fun fuel => h.read fuel w stored t hfetch hbegin)
      (exists_drive n g.react d.inMemory c (first t))
  · obtain ⟨r, hr, -⟩ :=
      h.unread 0 w fun stored t hfetch hbegin => hread ⟨stored, t, hfetch, hbegin⟩
    exact ⟨0, r, hr⟩

/-- **A limit forces an end.** Every search for the next command of a cascade comes to what the
engines find, in as many looks as its work list is heavy, and one more. And with a limit, whatever
it is, all four engines come to an end after so many rounds, from every command and over every
store. -/
theorem orchestrations_terminate (d : Decider C S E R) (g : Saga E C) (n : Nat) (c : C) :
    (∀ (O : Type) (reaction : O → Checked (List C)) (k : Cascade C O),
      looks reaction (k.weight + 1) k = some (Next.bare <$> k.next reaction)) ∧
    (∀ (b : Backend (Exchange.events C E) ω) (w : ω),
      ∃ fuel r, (EventSourced.orchestrating d g ⟨some n⟩).handle b fuel c w = some r) ∧
    (∀ (b : Backend (Exchange.lockedEvents C E) ω) (w : ω),
      ∃ fuel r, (EventSourced.lockingOrchestrating d g ⟨some n⟩).handle b fuel c w = some r) ∧
    (∀ (b : Backend (Exchange.states C S) ω) (w : ω),
      ∃ fuel r, (StateStored.orchestrating d g ⟨some n⟩).handle b fuel c w = some r) ∧
    ∀ (b : Backend (Exchange.lockedStates C S) ω) (w : ω),
      ∃ fuel r, (StateStored.lockingOrchestrating d g ⟨some n⟩).handle b fuel c w = some r := by
  refine ⟨?_, ?_, ?_, ?_, ?_⟩
  · intro O reaction k
    exact looks_eq_next (k.weight + 1) k (Nat.lt_succ_self _)
  · intro b w
    exact exists_handle_of_drive
      (fun fuel => EventSourced.quiet_handle_orchestrating d g ⟨some n⟩ b fuel c w)
      (exists_drive n _ _ c (w, []))
  · intro b w
    exact exists_handle_of_drive
      (fun fuel => EventSourced.quiet_handle_lockingOrchestrating d g ⟨some n⟩ b fuel c w)
      (exists_drive n _ _ c (w, []))
  · intro b w
    exact (StateStored.orchestrating_inMemory d g ⟨some n⟩ b c).exists_handle w
  · intro b w
    exact (StateStored.lockingOrchestrating_inMemory d g ⟨some n⟩ b c).exists_handle w

end EventMachines
