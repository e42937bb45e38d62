import EventMachines.Proofs.Cascade.Descent
import EventMachines.Proofs.Execution.Once
import EventMachines.Proofs.Orchestration.Termination
import EventMachines.Proofs.Orchestration.Truncation

/-!
Sagas that need no limit. If whatever a command decides causes only commands of smaller measure, a
cascade runs out of itself: over a store that gives back what it was given, and in memory anyway.

* `Saga.Descends`: such a saga;
* `lowers_of_execute`, `lowers_of_memory`: what executing a command puts out causes smaller commands
  only;
* `unhindered_of_handle`: a run that was not stopped for its depth is the run with every wider
  limit, and without one;
* `descending_sagas_need_no_limit`: all four engines end without a limit, and with every limit from
  the measure of their command on they make the same run.
-/

namespace EventMachines

open Cascade
open Program hiding bind

variable {P : Exchange} {C S E R O A I D W T ω : Type}

/-- What is decided causes smaller commands only. -/
def Saga.Descends (g : Saga E C) (d : Decider C S E R) (m : C → Nat) : Prop :=
  ∀ c s events, d.decide c s = .ok (.ok events) → ∀ e ∈ events, ∀ commands,
    g.react e = .ok commands → ∀ c' ∈ commands, m c' < m c

/-- A store of events gives back nothing but what it was given. -/
def Backend.GivesBack (b : Backend ⟨I, D, W, List O⟩ ω) (given : W → List E) (event : O → E) :
    Prop :=
  ∀ data w saved, (b.write data w).1 = .ok (.ok saved) → ∀ o ∈ saved, event o ∈ given data

/-! ## One execution -/

theorem Outcome.course_eq_done {ε : Type} {o : Outcome ε S} {next : S → Course P ε} {ack : P.Ack} :
    o.course next = .ends (.done ack) ↔ ∃ s, o = .done s ∧ next s = .ends (.done ack) := by
  cases o <;> simp [course]

theorem Program.done_unnoted {ε : Type} {p : Program P ε A} {b : Backend P ω} {w : ω} {a : A}
    (h : (p.run b w).outcome = .done a) : (p.unnoted.run b w).outcome = .done a := by
  rw [run_unnoted]
  exact h

section

variable {d : Decider C S E R} {g : Saga E C} {m : C → Nat} (hg : g.Descends d m) {c : C}
include hg

/-- What is given back is what was decided, or nothing was written. -/
theorem EventSourced.lowers_of_execute {b : Backend (Exchange.events C E) ω}
    (hb : b.GivesBack id id) {s s' : ω × List (Happening (Exchange.events C E))} {saved : List E}
    (h : (execute d c).exec b s = (.done saved, s')) : Lowers m g.react (m c) saved := by
  have hdone := done_unnoted (congrArg Prod.fst h)
  rw [unnoted_execute] at hdone
  obtain ⟨history, hend | ⟨events, w, hwrite, hsaved⟩⟩ := done_of_once hdone
  · obtain ⟨state, -, hend⟩ := Outcome.course_eq_done.mp hend
    obtain ⟨events, -, hend⟩ := Outcome.course_eq_done.mp hend
    cases events with
    | nil => cases hend; simp [Lowers]
    | cons => cases hend
  · obtain ⟨-, state, -, hattempt⟩ := course_eq_writes.mp hwrite
    have hdecide := (Decider.attempt_eq_ok.mp hattempt).2
    exact fun e he => hg c state events hdecide e (hb events w saved hsaved e he)

theorem EventSourced.lowers_of_executeAt {b : Backend (Exchange.lockedEvents C E) ω}
    (hb : b.GivesBack Prod.fst Prod.fst) {depth : Nat}
    {s s' : ω × List (Happening (Exchange.lockedEvents C E))} {saved : List (E × Version)}
    (h : (executeAt d c depth).exec b s = (.done saved, s')) :
    Lowers m g.reactSaved (m c) saved := by
  have hasked : ∃ asked, ((executeLocking d c asked).run b s.1).outcome = .done saved := by
    have hdone := congrArg Prod.fst h
    unfold executeAt at hdone
    by_cases hroot : depth = 0
    · rw [if_pos hroot] at hdone
      exact ⟨b.consult c s.1, hdone⟩
    · rw [if_neg hroot] at hdone
      exact ⟨none, hdone⟩
  obtain ⟨asked, hdone⟩ := hasked
  replace hdone := done_unnoted hdone
  rw [unnoted_executeAsked] at hdone
  obtain ⟨history, hend | ⟨data, w, hwrite, hsaved⟩⟩ := done_of_once hdone
  · obtain ⟨state, -, hend⟩ := Outcome.course_eq_done.mp hend
    obtain ⟨events, -, hend⟩ := Outcome.course_eq_done.mp hend
    cases events with
    | nil => cases hend; simp [Lowers]
    | cons => cases hend
  · simp only [courseAsked, Outcome.course_eq_writes] at hwrite
    obtain ⟨state, -, events, hdecides, hwrite⟩ := hwrite
    have hdecide := (Decider.attempt_eq_ok.mp (Decider.decides_eq_done.mp hdecides)).2
    cases events with
    | nil => cases hwrite
    | cons e events =>
      cases hwrite
      exact fun o ho => hg c state _ hdecide o.1 (hb _ w saved hsaved o ho)

theorem lowers_of_memory {depth : Nat} {s s' : S} {events : List E}
    (h : d.inMemory c depth s = (.done events, s')) : Lowers m g.react (m c) events := by
  have hattempt := Decider.attempt_of_done (congrArg Prod.fst h)
  exact hg c s events (Decider.attempt_eq_ok.mp hattempt).2

end

/-! ## Runs -/

/-- The engine makes this run without a limit and with every limit from `n` on, and is not stopped
in it for its depth. -/
structure Unhindered (e : DepthLimit → Engine P (Failure C R) C A) (b : Backend P ω) (c : C)
    (n : Nat) (w : ω) (fuel : Nat) (r : Run P (Failure C R) A ω) : Prop where
  unlimited : (e .unlimited).handle b fuel c w = some r
  limited : ∀ max, n ≤ max → (e ⟨some max⟩).handle b fuel c w = some r
  unstopped : ∀ c' depth, r.outcome ≠ .failed (.depthExceeded c' depth)

theorem unhindered_of_handle {e : DepthLimit → Engine P (Failure C R) C A} (he : LimitedBy e)
    {b : Backend P ω} {c : C} {n : Nat} {w : ω} {fuel : Nat} {r : Run P (Failure C R) A ω}
    (hr : (e ⟨some n⟩).handle b fuel c w = some r)
    (hfailed : ∀ e, r.outcome = .failed e → e.depth? = none) : Unhindered e b c n w fuel r := by
  have hunstopped : ∀ c' depth, r.outcome ≠ .failed (.depthExceeded c' depth) := by
    intro c' depth hstopped
    cases hfailed _ hstopped
  have hwider : ∀ limit : DepthLimit,
      (∀ depth, (⟨some n⟩ : DepthLimit).allows depth = true → limit.allows depth = true) →
      (e limit).handle b fuel c w = some r :=
    fun limit hle => (truncated_of_handle he hle hr).same hunstopped
  refine ⟨hwider .unlimited fun _ _ => rfl, fun max hmax => hwider ⟨some max⟩ ?_, hunstopped⟩
  intro depth hallowed
  exact decide_eq_true (Nat.le_trans (of_decide_eq_true hallowed) hmax)

/-- An engine over events whose executions lower the measure. -/
theorem descent_of_events {m : C → Nat} {reaction : O → Checked (List C)}
    (execute : C → Nat → Program ⟨I, D, W, List O⟩ (Failure C R) (List O))
    {b : Backend ⟨I, D, W, List O⟩ ω} {c : C} {w : ω}
    {e : DepthLimit → Engine ⟨I, D, W, List O⟩ (Failure C R) C (List O)} (he : LimitedBy e)
    (hsaves : ∀ c depth, (execute c depth).Keeps (savesAnswer C R) [])
    (hlowers : ∀ c depth s saved s', (execute c depth).exec b s = (.done saved, s') →
      Lowers m reaction (m c) saved)
    (hdrive : ∀ fuel, ((e ⟨some (m c)⟩).handle b fuel c w).map Run.quiet =
      (drive ⟨some (m c)⟩ reaction (fun c depth => (execute c depth).exec b) fuel (.start c)
        (w, [])).map fun j => ⟨j.outcome, j.world.1, j.world.2⟩) :
    ∃ fuel r visits, Unhindered e b c (m c) w fuel r ∧
      Descent m reaction (fun c depth => (execute c depth).exec b) fuel c (w, [])
        ⟨r.outcome, (r.world, calls r.transcript), visits⟩ := by
  have hshallow : ∀ c depth (s : ω × List (Happening ⟨I, D, W, List O⟩)) e s',
      (execute c depth).exec b s = (.failed e, s') → e.depth? = none := by
    intro c depth s e s' hexec
    exact (SavesOutputs.of_keeps (hsaves c depth) b s.1).shallow e (congrArg Prod.fst hexec)
  obtain ⟨fuel, j, hdescent⟩ := exists_descent hlowers hshallow c (w, [])
  have hquiet := hdrive fuel
  rw [hdescent.limited (m c) (Nat.le_refl _)] at hquiet
  obtain ⟨r, hr, hrun⟩ := Option.map_eq_some_iff.mp hquiet
  obtain ⟨houtcome, hworld, hcalls⟩ := Run.mk.inj hrun
  have hj : j = ⟨r.outcome, (r.world, calls r.transcript), j.visits⟩ := by
    rw [houtcome, hworld, hcalls]
  refine ⟨fuel, r, j.visits, unhindered_of_handle he hr fun e hfailed => ?_, hj ▸ hdescent⟩
  exact hdescent.unstopped e (houtcome.symm.trans hfailed)

/-- An engine in memory, from whatever it has fetched. -/
theorem descent_of_memory {d : Decider C S E R} {g : Saga E C} {m : C → Nat} (hg : g.Descends d m)
    {b : Backend P ω} {c : C} {input : P.Input} {begin : P.Read → Checked T} {first : T → S}
    {conclude : T → S → ω → Run P (Failure C R) P.Ack ω}
    {e : DepthLimit → Engine P (Failure C R) C P.Ack} (he : LimitedBy e)
    (hmemory : InMemory d g ⟨some (m c)⟩ b c input begin first conclude (e ⟨some (m c)⟩)) (w : ω) :
    ∃ fuel r, Unhindered e b c (m c) w fuel r ∧
      ∀ stored t, (b.fetch input w).1 = .ok (.ok stored) → begin stored = .ok t →
        ∃ j, Descent m g.react d.inMemory fuel c (first t) j ∧
          r.quiet = (⟨j.arrival, (b.fetch input w).2, [.fetched input (.ok (.ok stored))]⟩ :
            Run P (Failure C R) S ω).andThen (conclude t) := by
  by_cases hread : ∃ stored t, (b.fetch input w).1 = .ok (.ok stored) ∧ begin stored = .ok t
  · obtain ⟨stored, t, hfetch, hbegin⟩ := hread
    obtain ⟨fuel, j, hdescent⟩ := exists_descent (fun _ _ _ _ _ => lowers_of_memory hg)
      (fun _ _ _ _ _ => Decider.inMemory_shallow) c (first t)
    have hquiet := hmemory.read fuel w stored t hfetch hbegin
    rw [hdescent.limited (m c) (Nat.le_refl _)] at hquiet
    obtain ⟨r, hr, hrun⟩ := Option.map_eq_some_iff.mp hquiet
    refine ⟨fuel, r, unhindered_of_handle he hr fun e hfailed => ?_,
      fun stored' t' hfetch' hbegin' => ?_⟩
    · have houtcome := (congrArg Run.outcome hrun).symm.trans hfailed
      rcases hend : j.outcome with events | e' | x <;>
        simp only [Journey.arrival, hend, Run.andThen] at houtcome
      · exact hmemory.shallow t _ _ e houtcome
      · cases houtcome
        exact hdescent.unstopped e hend
      · cases houtcome
    · obtain rfl : stored' = stored := by
        rw [hfetch] at hfetch'
        exact (Except.ok.inj (Except.ok.inj hfetch')).symm
      obtain rfl := Except.ok.inj (hbegin'.symm.trans hbegin)
      exact ⟨j, hdescent, hrun⟩
  · have hnone : ∀ stored t, (b.fetch input w).1 = .ok (.ok stored) → begin stored ≠ .ok t :=
      fun stored t hfetch hbegin => hread ⟨stored, t, hfetch, hbegin⟩
    obtain ⟨r, hr, hshallow⟩ := hmemory.unread 0 w hnone
    exact ⟨0, r, unhindered_of_handle he hr hshallow,
      fun stored t hfetch hbegin => absurd hbegin (hnone stored t hfetch)⟩

/-- **No limit is needed.** With a saga that descends all four engines come to an end without a
limit, from every content of the store. With every limit from the measure of their command on they
make the same run, to the notes, which is not stopped for its depth. The executions in it are those
of one loop, in which a command and its depth never measure more than the first command. -/
theorem descending_sagas_need_no_limit {d : Decider C S E R} {g : Saga E C} {m : C → Nat}
    (hg : g.Descends d m) (c : C) :
    (∀ (b : Backend (Exchange.events C E) ω) (w : ω), b.GivesBack id id → ∃ fuel r visits,
      Unhindered (EventSourced.orchestrating d g) b c (m c) w fuel r ∧
      Descent m g.react (fun c _ => (EventSourced.execute d c).exec b) fuel c (w, [])
        ⟨r.outcome, (r.world, calls r.transcript), visits⟩) ∧
    (∀ (b : Backend (Exchange.lockedEvents C E) ω) (w : ω), b.GivesBack Prod.fst Prod.fst →
      ∃ fuel r visits, Unhindered (EventSourced.lockingOrchestrating d g) b c (m c) w fuel r ∧
        Descent m g.reactSaved (fun c depth => (EventSourced.executeAt d c depth).exec b) fuel c
          (w, []) ⟨r.outcome, (r.world, calls r.transcript), visits⟩) ∧
    (∀ (b : Backend (Exchange.states C S) ω) (w : ω), ∃ fuel r,
      Unhindered (StateStored.orchestrating d g) b c (m c) w fuel r ∧
      ∀ stored s, (b.fetch c w).1 = .ok (.ok stored) → d.current stored = .ok s →
        ∃ j, Descent m g.react d.inMemory fuel c s j ∧
          r.quiet = (⟨j.arrival, (b.fetch c w).2, [.fetched c (.ok (.ok stored))]⟩ :
            Run (Exchange.states C S) (Failure C R) S ω).andThen fun s w =>
              ((StateStored.conclude c s).run b w).quiet) ∧
    ∀ (b : Backend (Exchange.lockedStates C S) ω) (w : ω), ∃ fuel r,
      Unhindered (StateStored.lockingOrchestrating d g) b c (m c) w fuel r ∧
      ∀ stored t, (b.fetch c w).1 = .ok (.ok stored) → storedOr d.initial stored = .ok t →
        ∃ j, Descent m g.react d.inMemory fuel c t.1 j ∧
          r.quiet = (⟨j.arrival, (b.fetch c w).2, [.fetched c (.ok (.ok stored))]⟩ :
            Run (Exchange.lockedStates C S) (Failure C R) S ω).andThen fun s w =>
              ((StateStored.concludeLocking c t.2 s).run b w).quiet := by
  refine ⟨fun b w hb => ?_, fun b w hb => ?_, fun b w => ?_, fun b w => ?_⟩
  · exact descent_of_events (fun c _ => EventSourced.execute d c)
      (EventSourced.orchestrating_limitedBy d g) (fun c _ => EventSourced.execute_saves d c)
      (fun _ _ _ _ _ => EventSourced.lowers_of_execute hg hb)
      fun fuel => EventSourced.quiet_handle_orchestrating d g ⟨some (m c)⟩ b fuel c w
  · exact descent_of_events (EventSourced.executeAt d)
      (EventSourced.lockingOrchestrating_limitedBy d g) (EventSourced.executeAt_saves d)
      (fun _ _ _ _ _ => EventSourced.lowers_of_executeAt hg hb)
      fun fuel => EventSourced.quiet_handle_lockingOrchestrating d g ⟨some (m c)⟩ b fuel c w
  · exact descent_of_memory hg (StateStored.orchestrating_limitedBy d g)
      (StateStored.orchestrating_inMemory d g ⟨some (m c)⟩ b c) w
  · exact descent_of_memory hg (StateStored.lockingOrchestrating_limitedBy d g)
      (StateStored.lockingOrchestrating_inMemory d g ⟨some (m c)⟩ b c) w

theorem Saga.countdown_descends : countdown.Descends .summing id := by
  intro n sum events hdecide e he commands hreact c' hc'
  simp only [Decider.summing, Decider.total, Except.ok.injEq] at hdecide
  split at hdecide
  · obtain rfl := Except.ok.inj hdecide
    obtain rfl := List.mem_singleton.mp he
    obtain rfl := Except.ok.inj hreact
    simp only [id] at hc' ⊢
    split at hc'
    · simp only [List.mem_cons, List.not_mem_nil, or_false] at hc'
      omega
    · cases hc'
  · cases hdecide

theorem Backend.log_givesBack : (log : Backend (Exchange.events I E) _).GivesBack id id := by
  intro batch before saved hsaved e he
  cases hsaved
  exact he

theorem Engine.handle_unique {ε Item : Type} {e : Engine P ε Item A} {b : Backend P ω}
    {fuel more : Nat} {item : Item} {w : ω} {r s : Run P ε A ω}
    (hr : e.handle b fuel item w = some r) (hs : e.handle b more item w = some s) : r = s := by
  have hr' := e.goOn_mono b (Nat.le_max_left fuel more) hr
  have hs' := e.goOn_mono b (Nat.le_max_right fuel more) hs
  exact Option.some.inj (hr'.symm.trans hs')

/-- Four comes down to nought by itself, over a log and over a slot. -/
theorem countdown_needs_no_limit :
    Saga.countdown.Descends .summing id ∧
    (Backend.log : Backend (Exchange.events Nat Nat) _).GivesBack id id ∧
    (∃ fuel r, Unhindered (EventSourced.orchestrating .summing .countdown) Backend.log 4 4 [2] fuel
      r ∧ r.outcome = .done [4, 3, 2, 1, 0, 1, 2, 1, 0]) ∧
    ∃ fuel r, Unhindered (StateStored.orchestrating .summing .countdown) Backend.slot 4 4 (some 2)
      fuel r ∧ r.outcome = .done 16 := by
  refine ⟨Saga.countdown_descends, Backend.log_givesBack, ?_, ?_⟩
  · obtain ⟨fuel, r, -, hrun, -⟩ :=
      (descending_sagas_need_no_limit Saga.countdown_descends 4).1 _ [2] Backend.log_givesBack
    have hdone : ((EventSourced.orchestrating .summing .countdown .unlimited).handle Backend.log
        10 4 [2]).map (·.outcome) = some (.done [4, 3, 2, 1, 0, 1, 2, 1, 0]) := rfl
    obtain ⟨s, hs, houtcome⟩ := Option.map_eq_some_iff.mp hdone
    exact ⟨fuel, r, hrun, Engine.handle_unique hrun.unlimited hs ▸ houtcome⟩
  · obtain ⟨fuel, r, hrun, -⟩ := (descending_sagas_need_no_limit Saga.countdown_descends 4).2.2.1
      Backend.slot (some 2)
    have hdone : ((StateStored.orchestrating .summing .countdown .unlimited).handle Backend.slot
        10 4 (some 2)).map (·.outcome) = some (.done 16) := rfl
    obtain ⟨s, hs, houtcome⟩ := Option.map_eq_some_iff.mp hdone
    exact ⟨fuel, r, hrun, Engine.handle_unique hrun.unlimited hs ▸ houtcome⟩

end EventMachines
