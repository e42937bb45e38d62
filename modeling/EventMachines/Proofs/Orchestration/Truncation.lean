import EventMachines.Proofs.Cascade.Depth
import EventMachines.Proofs.Orchestration.Conservation
import EventMachines.Proofs.Orchestration.Memory

/-!
A limit only cuts off. The engines that run cascades look at their limit in one place, when a round
begins with the next command; so two runs with different limits go the same way until the narrower
one stops a command that the wider one runs. Up to there they have made the same calls.

* `run_advance_wider`: one look for the next command, with two limits;
* `soFar_wider`: so many rounds with two limits are the same, or the narrower limit has stopped the
  run where the wider one passes;
* `truncated_of_handle`: what a run that has ended says of one with a wider limit, also where that
  never ends;
* `depth_limit_truncates`: all four engines, with what has run where a run is stopped.
-/

namespace EventMachines

open Cascade
open Program hiding bind

variable {P : Exchange} {C S E R O X A ω : Type}

/-! ## Two limits -/

/-- An engine that begins every round with the next command of its cascade. -/
abbrev Engine.cascading (reaction : O → Checked (List C)) (list : X → Cascade C O)
    (start : C → Program P (Failure C R) (Progress X A))
    (after : X → Next C O → Program P (Failure C R) (Progress X A)) (limit : DepthLimit) :
    Engine P (Failure C R) C A :=
  ⟨X, start, fun k => advance limit reaction (list k) >>= after k⟩

section

variable {limit wider : DepthLimit} {b : Backend P ω}

theorem run_advance_wider (hle : ∀ depth, limit.allows depth = true → wider.allows depth = true)
    (reaction : O → Checked (List C)) (k : Cascade C O) (w : ω) :
    ((advance wider reaction k : Program P (Failure C R) _).run b w) =
        (advance limit reaction k).run b w ∨
      ∃ c depth notes, ((advance limit reaction k : Program P (Failure C R) _).run b w) =
        ⟨.failed (.depthExceeded c depth), w, notes⟩ ∧ calls notes = [] := by
  rw [advance, advance]
  rcases k.next reaction with x | ⟨outputs⟩ | ⟨c, depth, derived, rest⟩
  · exact .inl rfl
  · exact .inl rfl
  · simp only [ofChecked_ok, pure_bind]
    by_cases hallowed : limit.allows depth = true
    · rw [if_pos hallowed, if_pos (hle depth hallowed)]
      exact .inl rfl
    · rw [if_neg hallowed]
      by_cases hderived : derived ≠ 0
      · simp only [if_pos hderived]
        exact .inr ⟨c, depth, [.noted (.followUps derived depth), .noted (.depthExceeded depth)],
          rfl, rfl⟩
      · simp only [if_neg hderived]
        exact .inr ⟨c, depth, [.noted (.depthExceeded depth)], rfl, rfl⟩

variable {reaction : O → Checked (List C)} {list : X → Cascade C O}
  {start : C → Program P (Failure C R) (Progress X A)}
  {after : X → Next C O → Program P (Failure C R) (Progress X A)}

/-- One round with two limits. -/
theorem run_resume_wider (hle : ∀ depth, limit.allows depth = true → wider.allows depth = true)
    (k : X) (w : ω) :
    ((Engine.cascading reaction list start after wider).resume k).run b w =
        ((Engine.cascading reaction list start after limit).resume k).run b w ∨
      ∃ c depth notes, ((Engine.cascading reaction list start after limit).resume k).run b w =
        ⟨.failed (.depthExceeded c depth), w, notes⟩ ∧ calls notes = [] := by
  simp only [run_bind]
  rcases run_advance_wider hle reaction (list k) w with hsame | ⟨c, depth, notes, hstopped, hquiet⟩
  · exact .inl (by rw [hsame])
  · exact .inr ⟨c, depth, notes, by rw [hstopped]; rfl, hquiet⟩

/-- **Rounds with two limits.** -/
theorem soFar_wider (hle : ∀ depth, limit.allows depth = true → wider.allows depth = true)
    (rounds : Nat) (r : Run P (Failure C R) (Progress X A) ω) :
    let narrow := (Engine.cascading reaction list start after limit).soFar b
    let wide := (Engine.cascading reaction list start after wider).soFar b
    wide rounds r = narrow rounds r ∨ ∃ c depth passed,
      (narrow rounds r).outcome = .failed (.depthExceeded c depth) ∧ passed ≤ rounds ∧
      (wide passed r).world = (narrow rounds r).world ∧
      calls (wide passed r).transcript = calls (narrow rounds r).transcript := by
  intro narrow wide
  induction rounds generalizing r with
  | zero => rcases r with ⟨(a | k) | x | x, w, hs⟩ <;> exact .inl rfl
  | succ rounds ih =>
    rcases r with ⟨(a | k) | x | x, w, hs⟩
    · exact .inl rfl
    · have hnarrow : narrow (rounds + 1) ⟨.done (.again k), w, hs⟩ = (narrow rounds
          (((Engine.cascading reaction list start after limit).resume k).run b w)).behind hs := rfl
      have hwide : ∀ more, wide (more + 1) ⟨.done (.again k), w, hs⟩ = (wide more
          (((Engine.cascading reaction list start after wider).resume k).run b w)).behind hs :=
        fun _ => rfl
      rcases run_resume_wider hle k w with hsame | ⟨c, depth, notes, hstopped, hquiet⟩
      · rw [hnarrow, hwide, hsame]
        rcases ih (((Engine.cascading reaction list start after limit).resume k).run b w) with
          hrest | ⟨c, depth, passed, houtcome, hpassed, hworld, hcalls⟩
        · exact .inl (congrArg (Run.behind hs) hrest)
        · refine .inr ⟨c, depth, passed + 1, houtcome, Nat.succ_le_succ hpassed, ?_, ?_⟩
          · rw [hwide, hsame]
            exact hworld
          · rw [hwide, hsame]
            simp only [Run.behind, calls_append]
            exact congrArg (calls hs ++ ·) hcalls
      · have hended : narrow rounds ⟨.failed (.depthExceeded c depth), w, notes⟩ =
            ⟨.failed (.depthExceeded c depth), w, notes⟩ :=
          Engine.soFar_of_ended (by simp) rounds
        rw [hnarrow, hstopped, hended]
        refine .inr ⟨c, depth, 0, rfl, Nat.zero_le _, rfl, ?_⟩
        show calls hs = calls (hs ++ notes)
        rw [calls_append, hquiet, List.append_nil]
    · exact .inl rfl
    · exact .inl rfl

end

/-- The limit of an engine counts in one place only: where a round begins with the next command. -/
def LimitedBy (e : DepthLimit → Engine P (Failure C R) C A) : Prop :=
  ∃ (X O : Type) (reaction : O → Checked (List C)) (list : X → Cascade C O)
    (start : C → Program P (Failure C R) (Progress X A))
    (after : X → Next C O → Program P (Failure C R) (Progress X A)),
    ∀ limit, e limit = .cascading reaction list start after limit

/-- What a run that has ended says of the run with a wider limit, over the same store. -/
structure Truncated (wide : Engine P (Failure C R) C A) (b : Backend P ω) (c : C) (w : ω)
    (fuel : Nat) (r : Run P (Failure C R) A ω) : Prop where
  /-- It is the same run, unless it was stopped. -/
  same : (∀ c' depth, r.outcome ≠ .failed (.depthExceeded c' depth)) →
    wide.handle b fuel c w = some r
  /-- Where it was stopped, the other one passes, with the same store and after the same calls. -/
  passed : ∀ c' depth, r.outcome = .failed (.depthExceeded c' depth) → ∃ rounds ≤ fuel,
    (wide.soFar b rounds ((wide.start c).run b w)).world = r.world ∧
    calls (wide.soFar b rounds ((wide.start c).run b w)).transcript = calls r.transcript
  /-- Its calls come first, however many rounds the other one goes. -/
  begins : ∀ c' depth, r.outcome = .failed (.depthExceeded c' depth) → ∀ rounds, fuel ≤ rounds →
    calls r.transcript <+: calls (wide.soFar b rounds ((wide.start c).run b w)).transcript
  /-- And also where that one ends. -/
  ends : ∀ c' depth, r.outcome = .failed (.depthExceeded c' depth) → ∀ more r',
    wide.handle b more c w = some r' → calls r.transcript <+: calls r'.transcript

theorem truncated_of_handle {e : DepthLimit → Engine P (Failure C R) C A} (he : LimitedBy e)
    {limit wider : DepthLimit}
    (hle : ∀ depth, limit.allows depth = true → wider.allows depth = true) {b : Backend P ω} {c : C}
    {w : ω} {fuel : Nat} {r : Run P (Failure C R) A ω}
    (hr : (e limit).handle b fuel c w = some r) : Truncated (e wider) b c w fuel r := by
  obtain ⟨X, O, reaction, list, start, after, he⟩ := he
  rw [he] at hr ⊢
  have hended : ((Engine.cascading reaction list start after limit).soFar b fuel
      ((start c).run b w)).ended? = some r := by
    rw [← Engine.goOn_eq_soFar]
    exact hr
  obtain ⟨hworld, htranscript, hfailed⟩ := Run.ended?_eq_some hended
  let wide := Engine.cascading reaction list start after wider
  have hpassed : ∃ rounds ≤ fuel,
      (wide.soFar b rounds ((start c).run b w)).world = r.world ∧
      calls (wide.soFar b rounds ((start c).run b w)).transcript = calls r.transcript := by
    rw [hworld, htranscript]
    rcases soFar_wider hle fuel ((start c).run b w) with
      hsame | ⟨c', depth, passed, -, hpassed, hsame⟩
    · exact ⟨fuel, Nat.le_refl fuel, congrArg Run.world hsame,
        congrArg (fun s => calls (Run.transcript s)) hsame⟩
    · exact ⟨passed, hpassed, hsame⟩
  have hbegins : ∀ rounds, fuel ≤ rounds →
      calls r.transcript <+: calls (wide.soFar b rounds ((start c).run b w)).transcript := by
    intro rounds hrounds
    obtain ⟨passed, hbefore, -, hcalls⟩ := hpassed
    rw [← hcalls]
    exact (Engine.soFar_prefix (Nat.le_trans hbefore hrounds) _).filter _
  constructor
  case same =>
    intro hnot
    rcases soFar_wider hle fuel ((start c).run b w) with hsame | ⟨c', depth, passed, hstopped, -⟩
    · rw [Engine.handle, Engine.goOn_eq_soFar]
      exact (congrArg Run.ended? hsame).trans hended
    · exact absurd ((hfailed _).mpr hstopped) (hnot c' depth)
  case passed => exact fun _ _ _ => hpassed
  case begins => exact fun _ _ _ => hbegins
  case ends =>
    intro _ _ _ more r' hr'
    rw [← Engine.soFar_of_handle hr' (Nat.le_max_right fuel more)]
    exact hbegins _ (Nat.le_max_left fuel more)

/-! ## The engines -/

theorem EventSourced.orchestrating_limitedBy (d : Decider C S E R) (g : Saga E C) :
    LimitedBy (orchestrating d g) :=
  ⟨_, _, g.react, id, _, _, fun _ => rfl⟩

theorem EventSourced.lockingOrchestrating_limitedBy (d : Decider C S E R) (g : Saga E C) :
    LimitedBy (lockingOrchestrating d g) :=
  ⟨_, _, g.reactSaved, id, _, _, fun _ => rfl⟩

theorem StateStored.orchestrating_limitedBy (d : Decider C S E R) (g : Saga E C) :
    LimitedBy (orchestrating d g) :=
  ⟨_, _, g.react, Orchestration.cascade, _, _, fun _ =>
    congrArg (Engine.mk (Orchestration C S E) _) (funext fun _ => bind_assoc _ _ _)⟩

theorem StateStored.lockingOrchestrating_limitedBy (d : Decider C S E R) (g : Saga E C) :
    LimitedBy (lockingOrchestrating d g) :=
  ⟨_, _, g.react, fun k => k.1.cascade, _, _, fun _ =>
    congrArg (Engine.mk (Orchestration C S E × Option Version) _)
      (funext fun _ => bind_assoc _ _ _)⟩

/-! ## Where a run is stopped -/

/-- What a command decides in memory does not fail for its depth. -/
theorem Decider.inMemory_shallow {d : Decider C S E R} {c : C} {depth : Nat} {s s' : S}
    {e : Failure C R} (h : d.inMemory c depth s = (.failed e, s')) : e.depth? = none := by
  have hattempt := Decider.attempt_of_failed (congrArg Prod.fst h)
  rcases Decider.attempt_eq_error.mp hattempt with ⟨-, rfl⟩ | ⟨-, reason, -, rfl⟩ <;> rfl

/-- A cascade over states is stopped between the fetch and the save. -/
theorem stoppedAt_of_memory {T : Type} {d : Decider C S E R} {g : Saga E C} {n : Nat}
    {b : Backend P ω} {c c' : C} {depth : Nat} {input : P.Input} {begin : P.Read → Checked T}
    {first : T → S} {conclude : T → S → ω → Run P (Failure C R) P.Ack ω}
    {e : Engine P (Failure C R) C P.Ack}
    (he : InMemory d g ⟨some n⟩ b c input begin first conclude e) {fuel : Nat} {w : ω}
    {r : Run P (Failure C R) P.Ack ω} (h : e.handle b fuel c w = some r)
    (hdeep : r.outcome = .failed (.depthExceeded c' depth)) :
    ∃ stored t visits s, b.fetch input w = (.ok (.ok stored), r.world) ∧ begin stored = .ok t ∧
      calls r.transcript = [.fetched input (.ok (.ok stored))] ∧
      Executes d.inMemory (first t) visits s ∧ StoppedAt n g.react c visits c' depth := by
  by_cases hread : ∃ stored t, (b.fetch input w).1 = .ok (.ok stored) ∧ begin stored = .ok t
  · obtain ⟨stored, t, hfetch, hbegin⟩ := hread
    have hr : (e.handle b fuel c w).map Run.quiet = some r.quiet :=
      congrArg (Option.map Run.quiet) h
    rw [he.read fuel w stored t hfetch hbegin] at hr
    obtain ⟨j, hj, hquiet⟩ := Option.map_eq_some_iff.mp hr
    rcases hend : j.outcome with events | e' | x <;>
      simp only [Journey.arrival, hend, Run.andThen] at hquiet
    · have hshallow := he.shallow t _ _ _ ((congrArg Run.outcome hquiet).trans hdeep)
      cases hshallow
    · obtain ⟨houtcome, hworld, hcalls⟩ := Run.mk.inj hquiet
      obtain rfl := Outcome.failed.inj (houtcome.trans hdeep)
      obtain ⟨hexecutes, hstopped⟩ :=
        stoppedAt_of_drive (fun _ _ _ _ _ => Decider.inMemory_shallow) hj hend
      exact ⟨stored, t, j.visits, j.world, Prod.ext hfetch hworld, hbegin, hcalls.symm, hexecutes,
        hstopped⟩
    · cases (congrArg Run.outcome hquiet).trans hdeep
  · obtain ⟨r', hr', hshallow⟩ :=
      he.unread fuel w fun stored t hfetch hbegin => hread ⟨stored, t, hfetch, hbegin⟩
    obtain rfl := Option.some.inj (h.symm.trans hr')
    cases hshallow _ hdeep

/-- A cascade over events is stopped after executions that have made all its calls. -/
theorem stoppedAt_of_events {I D W : Type} {n : Nat} {reaction : O → Checked (List C)}
    {execute : C → Nat → Program ⟨I, D, W, List O⟩ (Failure C R) (List O)}
    {b : Backend ⟨I, D, W, List O⟩ ω} {c c' : C} {depth : Nat} {w : ω} {fuel : Nat}
    (e : Engine ⟨I, D, W, List O⟩ (Failure C R) C (List O))
    (hsaves : ∀ c depth, (execute c depth).Keeps (savesAnswer C R) [])
    (hdrive : (e.handle b fuel c w).map Run.quiet =
      (drive ⟨some n⟩ reaction (fun c depth => (execute c depth).exec b) fuel (.start c)
        (w, [])).map fun j => ⟨j.outcome, j.world.1, j.world.2⟩)
    {r : Run ⟨I, D, W, List O⟩ (Failure C R) (List O) ω} (hr : e.handle b fuel c w = some r)
    (hdeep : r.outcome = .failed (.depthExceeded c' depth)) :
    ∃ visits, Executes (fun c depth => (execute c depth).exec b) (w, []) visits
      (r.world, calls r.transcript) ∧ StoppedAt n reaction c visits c' depth := by
  rw [hr] at hdrive
  obtain ⟨j, hj, hquiet⟩ := Option.map_eq_some_iff.mp hdrive.symm
  obtain ⟨houtcome, hworld, hcalls⟩ := Run.mk.inj hquiet
  have hshallow : ∀ c depth (s : ω × List (Happening ⟨I, D, W, List O⟩)) e s',
      (execute c depth).exec b s = (.failed e, s') → e.depth? = none := by
    intro c depth s e s' hexec
    exact (SavesOutputs.of_keeps (hsaves c depth) b s.1).shallow e (congrArg Prod.fst hexec)
  obtain ⟨hexecutes, hstopped⟩ := stoppedAt_of_drive hshallow hj (houtcome.trans hdeep)
  refine ⟨j.visits, ?_, hstopped⟩
  have hend : j.world = (r.world, calls r.transcript) := Prod.ext hworld hcalls
  exact hend ▸ hexecutes

/-- **A limit only cuts off.** A run that was not stopped for its depth is the run with every wider
limit. One that was stopped has come, with the same store and after the same calls, to where the run
with the wider limit passes, whether or not that one ends; it has executed no command deeper than
its limit, and stops at the first of the commands that some output of an execution at the limit
causes. -/
theorem depth_limit_truncates (d : Decider C S E R) (g : Saga E C) (n : Nat) (wider : DepthLimit)
    (hwider : ∀ m ∈ wider.max?, n ≤ m) (c : C) (fuel : Nat) :
    (∀ (b : Backend (Exchange.events C E) ω) (w : ω) r,
      (EventSourced.orchestrating d g ⟨some n⟩).handle b fuel c w = some r →
      Truncated (EventSourced.orchestrating d g wider) b c w fuel r ∧
      ∀ c' depth, r.outcome = .failed (.depthExceeded c' depth) → ∃ visits,
        Executes (fun c _ => (EventSourced.execute d c).exec b) (w, []) visits
          (r.world, calls r.transcript) ∧ StoppedAt n g.react c visits c' depth) ∧
    (∀ (b : Backend (Exchange.lockedEvents C E) ω) (w : ω) r,
      (EventSourced.lockingOrchestrating d g ⟨some n⟩).handle b fuel c w = some r →
      Truncated (EventSourced.lockingOrchestrating d g wider) b c w fuel r ∧
      ∀ c' depth, r.outcome = .failed (.depthExceeded c' depth) → ∃ visits,
        Executes (fun c depth => (EventSourced.executeAt d c depth).exec b) (w, []) visits
          (r.world, calls r.transcript) ∧ StoppedAt n g.reactSaved c visits c' depth) ∧
    (∀ (b : Backend (Exchange.states C S) ω) (w : ω) r,
      (StateStored.orchestrating d g ⟨some n⟩).handle b fuel c w = some r →
      Truncated (StateStored.orchestrating d g wider) b c w fuel r ∧
      ∀ c' depth, r.outcome = .failed (.depthExceeded c' depth) → ∃ stored s visits s',
        b.fetch c w = (.ok (.ok stored), r.world) ∧ d.current stored = .ok s ∧
        calls r.transcript = [.fetched c (.ok (.ok stored))] ∧
        Executes d.inMemory s visits s' ∧ StoppedAt n g.react c visits c' depth) ∧
    ∀ (b : Backend (Exchange.lockedStates C S) ω) (w : ω) r,
      (StateStored.lockingOrchestrating d g ⟨some n⟩).handle b fuel c w = some r →
      Truncated (StateStored.lockingOrchestrating d g wider) b c w fuel r ∧
      ∀ c' depth, r.outcome = .failed (.depthExceeded c' depth) → ∃ stored t visits s',
        b.fetch c w = (.ok (.ok stored), r.world) ∧ storedOr d.initial stored = .ok t ∧
        calls r.transcript = [.fetched c (.ok (.ok stored))] ∧
        Executes d.inMemory t.1 visits s' ∧ StoppedAt n g.react c visits c' depth := by
  have hle : ∀ depth, (⟨some n⟩ : DepthLimit).allows depth = true → wider.allows depth = true := by
    intro depth hallowed
    have hdepth : depth ≤ n := of_decide_eq_true hallowed
    rw [DepthLimit.allows]
    cases hmax : wider.max? with
    | none => rfl
    | some m => exact decide_eq_true (Nat.le_trans hdepth (hwider m hmax))
  refine ⟨fun b w r hr => ⟨?_, fun c' depth hdeep => ?_⟩,
    fun b w r hr => ⟨?_, fun c' depth hdeep => ?_⟩, fun b w r hr => ⟨?_, fun c' depth hdeep => ?_⟩,
    fun b w r hr => ⟨?_, fun c' depth hdeep => ?_⟩⟩
  · exact truncated_of_handle (EventSourced.orchestrating_limitedBy d g) hle hr
  · exact stoppedAt_of_events _ (fun c _ => EventSourced.execute_saves d c)
      (EventSourced.quiet_handle_orchestrating d g ⟨some n⟩ b fuel c w) hr hdeep
  · exact truncated_of_handle (EventSourced.lockingOrchestrating_limitedBy d g) hle hr
  · exact stoppedAt_of_events _ (EventSourced.executeAt_saves d)
      (EventSourced.quiet_handle_lockingOrchestrating d g ⟨some n⟩ b fuel c w) hr hdeep
  · exact truncated_of_handle (StateStored.orchestrating_limitedBy d g) hle hr
  · exact stoppedAt_of_memory (StateStored.orchestrating_inMemory d g ⟨some n⟩ b c) hr hdeep
  · exact truncated_of_handle (StateStored.lockingOrchestrating_limitedBy d g) hle hr
  · exact stoppedAt_of_memory (StateStored.lockingOrchestrating_inMemory d g ⟨some n⟩ b c) hr hdeep

/-- A cascade without end is stopped after three commands; one that ends by itself is the same with
a wider limit. -/
theorem endless_truncated :
    (∃ r, (EventSourced.orchestrating .summing .endless ⟨some 2⟩).handle Backend.log 9 0 [] =
        some r ∧
      r.outcome = .failed (.depthExceeded 0 3) ∧ r.world = [0, 0, 0] ∧
      Truncated (EventSourced.orchestrating .summing .endless .unlimited) Backend.log 0 [] 9 r ∧
      ∃ visits : List (Visit Nat Nat String),
        Executes (fun c _ => (EventSourced.execute .summing c).exec Backend.log) ([], []) visits
          (r.world, calls r.transcript) ∧ StoppedAt 2 Saga.endless.react 0 visits 0 3) ∧
    ∃ r, (StateStored.orchestrating .summing .countdown ⟨some 3⟩).handle Backend.slot 30 4
        (some 7) = some r ∧
      (StateStored.orchestrating .summing .countdown ⟨some 4⟩).handle Backend.slot 30 4
        (some 7) = some r := by
  refine ⟨⟨_, rfl, rfl, rfl, ?_⟩, ⟨_, rfl, ?_⟩⟩
  · have hrun := (depth_limit_truncates .summing .endless 2 .unlimited
      (by simp [DepthLimit.unlimited]) 0 9).1 Backend.log [] _ rfl
    exact ⟨hrun.1, hrun.2 0 3 rfl⟩
  · have hrun := (depth_limit_truncates .summing .countdown 3 ⟨some 4⟩ (by simp) 4 30).2.2.1
      Backend.slot (some 7) _ rfl
    exact hrun.1.same (by simp)

end EventMachines
