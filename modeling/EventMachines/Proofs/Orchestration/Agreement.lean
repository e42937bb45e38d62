import EventMachines.Proofs.Cascade.Rounds
import EventMachines.Proofs.Cascade.Simulation
import EventMachines.Proofs.Execution.Batches
import EventMachines.Proofs.Store.Single

/-!
Orchestrating over a history and over a state. One engine reads the whole log again before every
command of a cascade, the other keeps a state in memory and stores it at the end. Where the slot
matches the log, a command of the cascade does the same to both, so the two engines come to the
same.

* `run_execute_log`: one command over a log, by what the decider attempts in the state it leads to;
* `exec_log_inMemory`: such a command and the one in memory answer alike and keep log and state
  together;
* `orchestrations_agree`: the engines end for the same commands and in the same way, for one command
  and for every sequence of commands that succeed.
-/

namespace EventMachines

open Cascade
open Program hiding bind

variable {C S E R : Type} {d : Decider C S E R}

/-! ## One command -/

theorem run_execute_log {log : List E} {s : S} (h : d.replay log = .ok s) (c : C) :
    (((EventSourced.execute d c).run Backend.log log).outcome,
      ((EventSourced.execute d c).run Backend.log log).world) =
      match d.attempt c s with
      | .error x => (.broken x, log)
      | .ok (.error e) => (.failed e, log)
      | .ok (.ok events) => (.done events, log ++ events) := by
  rw [EventSourced.execute, read_bind]
  simp only [run, Backend.log, h, ofChecked_ok, pure_bind]
  rw [run_bind, run_attempt]
  rcases d.attempt c s with x | e | events
  · rfl
  · rfl
  · cases events with
    | nil => exact congrArg (Prod.mk _) (List.append_nil log).symm
    | cons e events => rfl

/-- The log leads to the state in memory; the calls made of the log do not matter. -/
def Decider.Leads (d : Decider C S E R)
    (w : List E × List (Happening (Exchange.events C E))) (s : S) : Prop :=
  d.replay w.1 = .ok s

theorem exec_log_inMemory (hevolve : ∀ s e, ∃ s', d.evolve s e = .ok s') (c : C) (depth : Nat)
    (w : List E × List (Happening (Exchange.events C E))) (s : S) (h : d.Leads w s) :
    ((EventSourced.execute d c).exec Backend.log w).1 = (d.inMemory c depth s).1 ∧
      d.Leads ((EventSourced.execute d c).exec Backend.log w).2 (d.inMemory c depth s).2 := by
  have hrun := run_execute_log h c
  rw [Decider.inMemory]
  rcases hattempt : d.attempt c s with x | e | events <;> rw [hattempt] at hrun
  · obtain ⟨houtcome, hworld⟩ := Prod.mk.inj hrun
    exact ⟨houtcome, (congrArg d.replay hworld).trans h⟩
  · obtain ⟨houtcome, hworld⟩ := Prod.mk.inj hrun
    exact ⟨houtcome, (congrArg d.replay hworld).trans h⟩
  · obtain ⟨houtcome, hworld⟩ := Prod.mk.inj hrun
    obtain ⟨s', hs'⟩ := d.exists_evolveAll hevolve s events
    simp only [hs']
    exact ⟨houtcome, (congrArg d.replay hworld).trans ((d.replay_append h events).trans hs')⟩

/-- Whatever a log leads to, a command adds to it what it decided. -/
theorem exec_log_outputs (c : C) (w : List E × List (Happening (Exchange.events C E))) :
    ((EventSourced.execute d c).exec Backend.log w).2.1 =
      w.1 ++ ((EventSourced.execute d c).exec Backend.log w).1.outputs := by
  show ((EventSourced.execute d c).run Backend.log w.1).world =
    w.1 ++ ((EventSourced.execute d c).run Backend.log w.1).outcome.outputs
  rcases hreplay : d.replay w.1 with x | s
  · have hrun : (EventSourced.execute d c).run Backend.log w.1 =
        ⟨.broken x, w.1, [.fetched c (.ok (.ok w.1))]⟩ := by
      rw [EventSourced.execute, read_bind]
      simp only [run, Backend.log, hreplay, ofChecked_error, halt_broken_bind]
      rfl
    rw [hrun]
    exact (List.append_nil _).symm
  · have hrun := run_execute_log hreplay c
    rcases hattempt : d.attempt c s with x | e | events <;> rw [hattempt] at hrun
    · obtain ⟨houtcome, hworld⟩ := Prod.mk.inj hrun
      rw [houtcome, hworld]
      exact (List.append_nil _).symm
    · obtain ⟨houtcome, hworld⟩ := Prod.mk.inj hrun
      rw [houtcome, hworld]
      exact (List.append_nil _).symm
    · obtain ⟨houtcome, hworld⟩ := Prod.mk.inj hrun
      rw [houtcome, hworld]
      rfl

/-! ## One cascade -/

/-- The two runs of a command that starts where the slot holds `slot` and the log leads to `s`: the
same executions, of which all that was decided is in the log, and the same end, where the slot
changes only by a success. -/
structure Agreement (d : Decider C S E R) (g : Saga E C) (limit : DepthLimit) (fuel : Nat) (c : C)
    (slot : Option S) (log : List E) (s : S)
    (r : Run (Exchange.events C E) (Failure C R) (List E) (List E))
    (r' : Run (Exchange.states C S) (Failure C R) S (Option S)) : Prop where
  executions : ∃ j j',
    drive limit g.react (fun c _ => (EventSourced.execute d c).exec Backend.log) fuel (.start c)
      (log, []) = some j ∧
    drive limit g.react d.inMemory fuel (.start c) s = some j' ∧
    j.Agree d.Leads j' ∧ r.outcome = j.outcome ∧ r.world = log ++ j.decided
  ended : match r.outcome with
    | .done _ => ∃ s', r'.outcome = .done s' ∧ r'.world = some s' ∧ d.replay r.world = .ok s'
    | .failed e => r'.outcome = .failed e ∧ r'.world = slot
    | .broken x => r'.outcome = .broken x ∧ r'.world = slot

variable (g : Saga E C) (limit : DepthLimit) (c : C) {slot : Option S} {log : List E} {s : S}

/-- What two runs with the same answer and the same world come to. -/
private theorem quiet_eq {P : Exchange} {ε α ω : Type} {r q : Run P ε α ω} (h : r.quiet = q) :
    r.outcome = q.outcome ∧ r.world = q.world := by
  subst h
  exact ⟨rfl, rfl⟩

theorem orchestration_agrees (hevolve : ∀ s e, ∃ s', d.evolve s e = .ok s')
    (hslot : d.current slot = .ok s) (hlog : d.replay log = .ok s) (fuel : Nat) :
    Option.Rel (Agreement d g limit fuel c slot log s)
      ((EventSourced.orchestrating d g limit).handle Backend.log fuel c log)
      ((StateStored.orchestrating d g limit).handle Backend.slot fuel c slot) := by
  have hrel : Option.Rel (Journey.Agree d.Leads) _ _ :=
    drive_rel limit g.react (exec_log_inMemory hevolve) fuel (.start c) (w := (log, [])) hlog
  have hevents := EventSourced.quiet_handle_orchestrating d g limit Backend.log fuel c log
  have hstates := StateStored.quiet_handle_orchestrating d g limit Backend.slot fuel
    (c := c) (w := slot) rfl hslot
  generalize hp : drive limit g.react (fun c _ => (EventSourced.execute d c).exec Backend.log) fuel
    (.start c) (log, []) = p at hrel hevents
  generalize hq : drive limit g.react d.inMemory fuel (.start c) s = q at hrel hstates
  cases hrel with
  | none =>
    rw [Option.map_eq_none_iff.mp hevents, Option.map_eq_none_iff.mp hstates]
    exact .none
  | @some j j' hj =>
    obtain ⟨r, hr, hquiet⟩ := Option.map_eq_some_iff.mp hevents
    obtain ⟨r', hr', hquiet'⟩ := Option.map_eq_some_iff.mp hstates
    obtain ⟨houtcome, hworld⟩ : r.outcome = j.outcome ∧ r.world = j.world.1 := quiet_eq hquiet
    obtain ⟨houtcome', hworld'⟩ := quiet_eq hquiet'
    have hgrown : j.world.1 = log ++ j.decided :=
      drive_decided limit g.react Prod.fst (fun c _ w => exec_log_outputs c w) hp
    rw [hr, hr']
    refine .some ⟨⟨j, j', hp, hq, hj, houtcome, hworld.trans hgrown⟩, ?_⟩
    simp only [Journey.arrival, ← hj.outcome] at houtcome' hworld'
    rcases hend : j.outcome with events | e | x
    · rw [hend] at houtcome houtcome' hworld'
      rw [houtcome]
      exact ⟨j'.world, houtcome', hworld', (congrArg d.replay hworld).trans hj.world⟩
    · rw [hend] at houtcome houtcome' hworld'
      rw [houtcome]
      exact ⟨houtcome', hworld'⟩
    · rw [hend] at houtcome houtcome' hworld'
      rw [houtcome]
      exact ⟨houtcome', hworld'⟩

/-! ## Sequences of commands -/

/-- A command that succeeds over the log succeeds over the slot, and the slot matches the log
again. -/
theorem handle_matches (hevolve : ∀ s e, ∃ s', d.evolve s e = .ok s')
    (hmatches : d.Matches slot log) (fuel : Nat) :
    ((∃ r a, (EventSourced.orchestrating d g limit).handle Backend.log fuel c log = some r ∧
        r.outcome = .done a) ↔
      ∃ r' a, (StateStored.orchestrating d g limit).handle Backend.slot fuel c slot = some r' ∧
        r'.outcome = .done a) ∧
    ∀ r r' a a', (EventSourced.orchestrating d g limit).handle Backend.log fuel c log = some r →
      r.outcome = .done a →
      (StateStored.orchestrating d g limit).handle Backend.slot fuel c slot = some r' →
      r'.outcome = .done a' → d.Matches r'.world r.world := by
  obtain ⟨s, hslot, hlog⟩ := hmatches
  have hrel := orchestration_agrees g limit c hevolve hslot hlog fuel
  generalize (EventSourced.orchestrating d g limit).handle Backend.log fuel c log = p at hrel ⊢
  generalize (StateStored.orchestrating d g limit).handle Backend.slot fuel c slot = q at hrel ⊢
  cases hrel with
  | none => simp
  | @some r r' hr =>
    have hended := hr.ended
    rcases hout : r.outcome with events | e | x
    · rw [hout] at hended
      obtain ⟨s', hs', hworld, hreplay⟩ := hended
      refine ⟨⟨fun _ => ⟨r', s', rfl, hs'⟩, fun _ => ⟨r, events, rfl, hout⟩⟩, ?_⟩
      rintro _ _ _ _ ⟨⟩ - ⟨⟩ -
      rw [hworld]
      exact d.matches_some hreplay
    · rw [hout] at hended
      obtain ⟨hout', -⟩ := hended
      refine ⟨by simp [hout, hout'], ?_⟩
      rintro _ _ _ _ ⟨⟩ ha
      cases hout.symm.trans ha
    · rw [hout] at hended
      obtain ⟨hout', -⟩ := hended
      refine ⟨by simp [hout, hout'], ?_⟩
      rintro _ _ _ _ ⟨⟩ ha
      cases hout.symm.trans ha

theorem completes_matches (hevolve : ∀ s e, ∃ s', d.evolve s e = .ok s') (fuel : Nat)
    (commands : List C) (hmatches : d.Matches slot log) :
    ((∃ answers log', (EventSourced.orchestrating d g limit).Completes Backend.log fuel commands log
        answers log') ↔
      ∃ answers slot', (StateStored.orchestrating d g limit).Completes Backend.slot fuel commands
        slot answers slot') ∧
    ∀ answers answers' log' slot',
      (EventSourced.orchestrating d g limit).Completes Backend.log fuel commands log answers log' →
      (StateStored.orchestrating d g limit).Completes Backend.slot fuel commands slot answers'
        slot' →
      d.Matches slot' log' := by
  induction commands generalizing slot log with
  | nil =>
    simp only [Engine.completes_nil]
    refine ⟨⟨fun _ => ⟨[], slot, rfl, rfl⟩, fun _ => ⟨[], log, rfl, rfl⟩⟩, ?_⟩
    rintro _ _ _ _ ⟨-, rfl⟩ ⟨-, rfl⟩
    exact hmatches
  | cons c commands ih =>
    obtain ⟨hiff, hkept⟩ := handle_matches g limit c hevolve hmatches fuel
    simp only [Engine.completes_cons]
    refine ⟨⟨?_, ?_⟩, ?_⟩
    · rintro ⟨_, log', r, a, answers, hr, ha, hrest, rfl⟩
      obtain ⟨r', a', hr', ha'⟩ := hiff.mp ⟨r, a, hr, ha⟩
      obtain ⟨answers', slot', hrest'⟩ :=
        (ih (hkept r r' a a' hr ha hr' ha')).1.mp ⟨answers, log', hrest⟩
      exact ⟨_, slot', r', a', answers', hr', ha', hrest', rfl⟩
    · rintro ⟨_, slot', r', a', answers', hr', ha', hrest', rfl⟩
      obtain ⟨r, a, hr, ha⟩ := hiff.mpr ⟨r', a', hr', ha'⟩
      obtain ⟨answers, log', hrest⟩ :=
        (ih (hkept r r' a a' hr ha hr' ha')).1.mpr ⟨answers', slot', hrest'⟩
      exact ⟨_, log', r, a, answers, hr, ha, hrest, rfl⟩
    · rintro _ _ log' slot' ⟨r, a, answers, hr, ha, hrest, -⟩
        ⟨r', a', answers', hr', ha', hrest', -⟩
      exact (ih (hkept r r' a a' hr ha hr' ha')).2 answers answers' log' slot' hrest hrest'

/-- **One model, two stores.** Let every event evolve every state, and let the slot, or the initial
state where it is empty, be what the log leads to. Then for every command the engine over the log
and the one over the slot have both not ended yet or have both ended, by the same executions and
with the same failure or fault; a success stores what the log then leads to, and anything else
leaves the slot as it was and in the log what was decided up to there. So the slot matches the log
after every sequence of commands that succeed, and they succeed over the one exactly if they succeed
over the other. -/
theorem orchestrations_agree (d : Decider C S E R) (g : Saga E C) (limit : DepthLimit)
    (hevolve : ∀ s e, ∃ s', d.evolve s e = .ok s') {slot : Option S} {log : List E} {s : S}
    (hslot : d.current slot = .ok s) (hlog : d.replay log = .ok s) :
    (∀ c fuel, Option.Rel (Agreement d g limit fuel c slot log s)
      ((EventSourced.orchestrating d g limit).handle Backend.log fuel c log)
      ((StateStored.orchestrating d g limit).handle Backend.slot fuel c slot)) ∧
    ∀ commands fuel,
      ((∃ answers log', (EventSourced.orchestrating d g limit).Completes Backend.log fuel commands
          log answers log') ↔
        ∃ answers slot', (StateStored.orchestrating d g limit).Completes Backend.slot fuel commands
          slot answers slot') ∧
      ∀ answers answers' log' slot',
        (EventSourced.orchestrating d g limit).Completes Backend.log fuel commands log answers
          log' →
        (StateStored.orchestrating d g limit).Completes Backend.slot fuel commands slot answers'
          slot' →
        d.Matches slot' log' := by
  refine ⟨?_, ?_⟩
  · intro c fuel
    exact orchestration_agrees g limit c hevolve hslot hlog fuel
  · intro commands fuel
    exact completes_matches g limit hevolve fuel commands ⟨s, hslot, hlog⟩

theorem countdown_orchestrations_agree :
    Option.Rel (Agreement Decider.summing Saga.countdown ⟨some 3⟩ 30 5 (some 7) [3, 4] 7)
      ((EventSourced.orchestrating .summing .countdown ⟨some 3⟩).handle Backend.log 30 5 [3, 4])
      ((StateStored.orchestrating .summing .countdown ⟨some 3⟩).handle Backend.slot 30 5
        (some 7)) :=
  (orchestrations_agree .summing .countdown ⟨some 3⟩ (fun sum n => ⟨sum + n, rfl⟩) rfl rfl).1 5 30

end EventMachines
