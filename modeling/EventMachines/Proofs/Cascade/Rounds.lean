import EventMachines.Engine.EventSourced
import EventMachines.Engine.StateStored
import EventMachines.Proofs.Cascade.Exploration
import EventMachines.Proofs.Execution.Calls
import EventMachines.Proofs.Store.Single
import EventMachines.Sample.Countdown

/-!
The orchestrating engines drive a cascade. One round of an engine is one round of `Cascade.drive`,
where executing a command is what the engine does with its store, or, for the engines that keep
their cascade in memory, what the decider does with a state.

* `goOn_rounds`: an engine whose rounds execute one command each is `Cascade.drive` over its store;
* `goOn_orchestration`: an engine whose rounds are those of a cascade in memory is `Cascade.drive`
  over states, and then whatever it does with the last state;
* `handle_explores`: all four engines do what the recursion from their command does.
-/

namespace EventMachines

open Cascade
open Program hiding bind

variable {P : Exchange} {C S E R O ω X A : Type}

/-- Going on after a round is the rest of the run, behind the calls made so far. -/
private theorem goOn_again (e : Engine P (Failure C R) X A) (b : Backend P ω) (fuel : Nat)
    (rest : e.Pending) (w : ω) (transcript : List (Happening P)) :
    (e.goOn b (fuel + 1) ⟨.done (.again rest), w, transcript⟩).map Run.quiet =
      ((e.goOn b fuel ((e.resume rest).run b w).quiet).map Run.quiet).map fun r =>
        { r with transcript := calls transcript ++ r.transcript } := by
  rw [← e.goOn_quiet, Engine.goOn, Option.map_map]
  simp only [bind]
  cases e.goOn b fuel ((e.resume rest).run b w) <;> simp [Run.quiet]

/-! ## A cascade over a store -/

/-- One round of an engine that executes the commands of a cascade. -/
def Cascade.round (limit : DepthLimit) (reaction : O → Checked (List C)) (ended : List O → Note)
    (execute : C → Nat → Program P (Failure C R) (List O)) (k : Cascade C O) :
    Program P (Failure C R) (Progress (Cascade C O) (List O)) := do
  match ← advance limit reaction k with
  | .finished outputs =>
    tell (ended outputs)
    return .answer outputs
  | .command c depth _ rest =>
    let outputs ← execute c depth
    return .again (rest.push outputs depth)

section

variable (limit : DepthLimit) (reaction : O → Checked (List C)) (ended : List O → Note)
  (execute : C → Nat → Program P (Failure C R) (List O)) (b : Backend P ω)

theorem quiet_run_round (k : Cascade C O) (w : ω) :
    ((round limit reaction ended execute k).run b w).quiet =
      match k.next reaction with
      | .error x => ⟨.broken x, w, []⟩
      | .ok (.finished outputs) => ⟨.done (.answer outputs), w, []⟩
      | .ok (.command c depth _ rest) =>
        if limit.allows depth then
          ((execute c depth).run b w).quiet.andThen fun outputs w =>
            ⟨.done (.again (rest.push outputs depth)), w, []⟩
        else ⟨.failed (.depthExceeded c depth), w, []⟩ := by
  rw [Cascade.round, run_bind, Run.quiet_andThen, quiet_run_advance]
  rcases k.next reaction with x | ⟨outputs⟩ | ⟨c, depth, derived, rest⟩
  · rfl
  · rfl
  · by_cases hallowed : limit.allows depth = true
    · simp only [hallowed, if_true]
      rw [Run.done_andThen, run_bind, Run.quiet_andThen]
      rfl
    · simp only [hallowed]
      rfl

/-- **Rounds over a store.** What is left of such an engine is the loop over its work list, with the
calls already made in front. -/
theorem goOn_rounds (start : X → Program P (Failure C R) (Progress (Cascade C O) (List O)))
    (fuel : Nat) (k : Cascade C O) (w : ω) (transcript : List (Happening P)) :
    ((⟨Cascade C O, start, round limit reaction ended execute⟩ : Engine P _ X (List O)).goOn b fuel
        ⟨.done (.again k), w, transcript⟩).map Run.quiet =
      (drive limit reaction (fun c depth => (execute c depth).exec b) fuel k
        (w, calls transcript)).map fun j => ⟨j.outcome, j.world.1, j.world.2⟩ := by
  induction fuel generalizing k w transcript with
  | zero => rfl
  | succ fuel ih =>
    rw [goOn_again, quiet_run_round]
    rcases hnext : k.next reaction with x | ⟨outputs⟩ | ⟨c, depth, derived, rest⟩
    · rw [drive, hnext, Engine.goOn_broken]
      simp [Trip.stop]
    · rw [drive, hnext, Engine.goOn_answer]
      simp [Trip.emitted, Trip.stop]
    · by_cases hallowed : limit.allows depth = true
      · rw [drive_allowed limit reaction _ fuel hnext hallowed]
        simp only [hallowed, if_true]
        rcases hrun : (execute c depth).run b w with ⟨outputs | e' | x, w', hs⟩
        · have hexec : (execute c depth).exec b (w, calls transcript) =
              (.done outputs, (w', calls transcript ++ calls hs)) := by
            simp [exec, hrun]
          rw [Trip.execute_done _ hexec, Option.map_map]
          have hrest := ih (rest.push outputs depth) w' (calls transcript ++ calls hs)
          rw [Engine.goOn_append] at hrest
          simp only [Option.map_map, calls_append, calls_calls] at hrest
          rw [Run.quiet_mk, Run.andThen]
          simp only [List.append_nil, Option.map_map]
          refine Eq.trans ?_ (hrest.trans ?_)
          · refine congrArg (Option.map · _) (funext fun r => ?_)
            simp [Run.quiet]
          · refine congrArg (Option.map · _) (funext fun j => ?_)
            rcases j with ⟨o | e' | x, w'', visits⟩ <;> rfl
        · have hexec : (execute c depth).exec b (w, calls transcript) =
              (.failed e', (w', calls transcript ++ calls hs)) := by
            simp [exec, hrun]
          rw [Trip.execute_failed _ hexec, Run.quiet_mk, Run.andThen, Engine.goOn_failed]
          simp
        · have hexec : (execute c depth).exec b (w, calls transcript) =
              (.broken x, (w', calls transcript ++ calls hs)) := by
            simp [exec, hrun]
          rw [Trip.execute_broken _ hexec, Run.quiet_mk, Run.andThen, Engine.goOn_broken]
          simp
      · rw [drive_tooDeep limit reaction _ fuel hnext hallowed]
        simp only [hallowed]
        rw [if_neg (by simp), Engine.goOn_failed]
        simp [Trip.stop]

end

theorem EventSourced.quiet_handle_orchestrating (d : Decider C S E R) (g : Saga E C)
    (limit : DepthLimit) (b : Backend (Exchange.events C E) ω) (fuel : Nat) (c : C) (w : ω) :
    ((orchestrating d g limit).handle b fuel c w).map Run.quiet =
      (drive limit g.react (fun c _ => (execute d c).exec b) fuel (.start c) (w, [])).map
        fun j => ⟨j.outcome, j.world.1, j.world.2⟩ :=
  goOn_rounds limit g.react (fun events => .orchestrated events.length) (fun c _ => execute d c) b
    (orchestrating d g limit).start fuel (.start c) w [.noted (.began .eventSourcedOrchestrating)]

/-- One command of a cascade with versions: the first may ask for a version of its own. -/
def EventSourced.executeAt (d : Decider C S E R) (c : C) (depth : Nat) :
    Program (Exchange.lockedEvents C E) (Failure C R) (List (E × Version)) := do
  let asked ← if depth = 0 then expect c else pure none
  executeLocking d c asked

theorem EventSourced.resume_lockingOrchestrating (d : Decider C S E R) (g : Saga E C)
    (limit : DepthLimit) (k : Cascade C (E × Version)) :
    (lockingOrchestrating d g limit).resume k =
      round limit (fun saved => g.react saved.1) (fun events => .orchestrated events.length)
        (executeAt d) k := by
  refine congrArg (advance limit (fun saved : E × Version => g.react saved.1) k >>= ·)
    (funext fun next => ?_)
  cases next with
  | finished events => rfl
  | command c depth derived rest =>
    by_cases hroot : depth = 0
    · simp only [executeAt, hroot, if_true, bind_assoc]
    · simp only [executeAt, hroot, if_false, bind_assoc]

theorem EventSourced.quiet_handle_lockingOrchestrating (d : Decider C S E R) (g : Saga E C)
    (limit : DepthLimit) (b : Backend (Exchange.lockedEvents C E) ω) (fuel : Nat) (c : C) (w : ω) :
    ((lockingOrchestrating d g limit).handle b fuel c w).map Run.quiet =
      (drive limit (fun saved => g.react saved.1) (fun c depth => (executeAt d c depth).exec b) fuel
        (.start c) (w, [])).map fun j => ⟨j.outcome, j.world.1, j.world.2⟩ := by
  have hengine : lockingOrchestrating d g limit =
      ⟨Cascade C (E × Version), (lockingOrchestrating d g limit).start,
        round limit (fun saved => g.react saved.1) (fun events => .orchestrated events.length)
          (executeAt d)⟩ :=
    congrArg (Engine.mk (Cascade C (E × Version)) (lockingOrchestrating d g limit).start)
      (funext (resume_lockingOrchestrating d g limit))
  rw [hengine]
  exact goOn_rounds limit _ _ (executeAt d) b _ fuel (.start c) w
    [.noted (.began .eventSourcedLockingOrchestrating)]

/-! ## A cascade in memory -/

/-- Executes a command on a state in memory. -/
def Decider.inMemory (d : Decider C S E R) (c : C) (_ : Nat) (s : S) :
    Outcome (Failure C R) (List E) × S :=
  match d.attempt c s with
  | .error x => (.broken x, s)
  | .ok (.error e) => (.failed e, s)
  | .ok (.ok events) =>
    match d.evolveAll s events with
    | .error x => (.broken x, s)
    | .ok s => (.done events, s)

/-- The state a journey through states ends in, unless it failed or broke off. -/
def Journey.arrival (j : Journey C E R S) : Outcome (Failure C R) S :=
  match j.outcome with
  | .done _ => .done j.world
  | .failed e => .failed e
  | .broken x => .broken x

section

variable (d : Decider C S E R) (g : Saga E C) (limit : DepthLimit) (b : Backend P ω)

theorem run_attempt (c : C) (s : S) (w : ω) :
    ((attempt d c s : Program P (Failure C R) _).run b w) =
      match d.attempt c s with
      | .error x => ⟨.broken x, w, []⟩
      | .ok (.error e) => ⟨.failed e, w, []⟩
      | .ok (.ok events) => ⟨.done events, w, []⟩ := by
  rw [attempt]
  rcases d.attempt c s with x | e | events <;> rfl

open StateStored in
theorem quiet_run_orchestration (run : Orchestration C S E) (w : ω) :
    ((run.advance d g limit : Program P (Failure C R) _).run b w).quiet =
      match run.cascade.next g.react with
      | .error x => ⟨.broken x, w, []⟩
      | .ok (.finished _) => ⟨.done (.inl run.state), w, []⟩
      | .ok (.command c depth _ rest) =>
        if limit.allows depth then
          match d.inMemory c depth run.state with
          | (.done events, s) =>
            ⟨.done (.inr { run with state := s, cascade := rest.push events depth }), w, []⟩
          | (.failed e, _) => ⟨.failed e, w, []⟩
          | (.broken x, _) => ⟨.broken x, w, []⟩
        else ⟨.failed (.depthExceeded c depth), w, []⟩ := by
  rw [Orchestration.advance, run_bind, Run.quiet_andThen, quiet_run_advance]
  rcases run.cascade.next g.react with x | ⟨outputs⟩ | ⟨c, depth, derived, rest⟩
  · rfl
  · rfl
  · by_cases hallowed : limit.allows depth = true
    · simp only [hallowed, if_true]
      rw [Run.done_andThen, run_bind, run_attempt, Decider.inMemory]
      rcases d.attempt c run.state with x | e | events
      · rfl
      · rfl
      · simp only [Run.done_andThen, run_bind]
        cases d.evolveAll run.state events <;> rfl
    · simp only [hallowed]
      rfl

/-- One round of an engine that works a cascade off in memory: one command, or what the engine does
with the last state. -/
def StateStored.Orchestration.round (embed : Orchestration C S E → X)
    (conclude : S → Program P (Failure C R) A) (run : Orchestration C S E) :
    Program P (Failure C R) (Progress X A) := do
  match ← run.advance d g limit with
  | .inr rest => return .again (embed rest)
  | .inl s => return .answer (← conclude s)

open StateStored in
/-- **Rounds in memory.** What is left of an engine that keeps its cascade in memory is the loop
over its work list, and then what it does with the last state. -/
theorem goOn_orchestration (e : Engine P (Failure C R) X A)
    (embed : Orchestration C S E → e.Pending) (c : C) (conclude : S → Program P (Failure C R) A)
    (hresume : ∀ run : Orchestration C S E, run.command = c →
      e.resume (embed run) = run.round d g limit embed conclude)
    (fuel : Nat) (run : Orchestration C S E) (hrun : run.command = c) (w : ω)
    (transcript : List (Happening P)) :
    (e.goOn b fuel ⟨.done (.again (embed run)), w, transcript⟩).map Run.quiet =
      (drive limit g.react d.inMemory fuel run.cascade run.state).map fun j =>
        (⟨j.arrival, w, calls transcript⟩ : Run P _ S ω).andThen fun s w =>
          ((conclude s).run b w).quiet := by
  induction fuel generalizing run transcript with
  | zero => rfl
  | succ fuel ih =>
    rw [goOn_again, hresume run hrun, Orchestration.round, run_bind, Run.quiet_andThen,
      quiet_run_orchestration]
    rcases hnext : run.cascade.next g.react with x | ⟨outputs⟩ | ⟨c', depth, derived, rest⟩
    · rw [drive, hnext, Run.andThen, e.goOn_broken]
      simp [Trip.stop, Journey.arrival, Run.andThen]
    · rw [drive, hnext, Run.done_andThen, run_bind, Run.quiet_andThen]
      simp only [Trip.emitted, Trip.stop, Option.map_some, Journey.arrival]
      rcases hlast : (conclude run.state).run b w with ⟨a | e' | x, w', hs⟩
      · rw [Run.quiet_mk, Run.andThen]
        show Option.map _ (Option.map _ (e.goOn b fuel ⟨.done (.answer a), w', calls hs ++ []⟩)) = _
        rw [e.goOn_answer]
        simp [Run.andThen, hlast]
      · rw [Run.quiet_mk, Run.andThen, e.goOn_failed]
        simp [Run.andThen, hlast]
      · rw [Run.quiet_mk, Run.andThen, e.goOn_broken]
        simp [Run.andThen, hlast]
    · by_cases hallowed : limit.allows depth = true
      · rw [drive_allowed limit g.react _ fuel hnext hallowed]
        simp only [hallowed, if_true]
        rcases hexec : d.inMemory c' depth run.state with ⟨events | e' | x, s⟩
        · rw [Trip.execute_done _ hexec]
          rw [Run.done_andThen]
          have hrest := ih { run with state := s, cascade := rest.push events depth } hrun []
          show Option.map _ (Option.map _ (e.goOn b fuel ⟨.done (.again (embed _)), w, []⟩)) = _
          rw [hrest, Option.map_map, Option.map_map]
          refine congrArg (Option.map · _) (funext fun j => ?_)
          rcases j with ⟨o | e' | x, s', visits⟩
          · simp [Run.andThen, Journey.arrival, Journey.after, Outcome.prepend, Run.quiet]
          · simp [Run.andThen, Journey.arrival, Journey.after, Outcome.prepend]
          · simp [Run.andThen, Journey.arrival, Journey.after, Outcome.prepend]
        · rw [Trip.execute_failed _ hexec, Run.andThen, e.goOn_failed]
          simp [Run.andThen, Journey.arrival]
        · rw [Trip.execute_broken _ hexec, Run.andThen, e.goOn_broken]
          simp [Run.andThen, Journey.arrival]
      · rw [drive_tooDeep limit g.react _ fuel hnext hallowed]
        simp only [hallowed]
        rw [if_neg (by simp), Run.andThen, e.goOn_failed]
        simp [Trip.stop, Run.andThen, Journey.arrival]

end

namespace StateStored

/-- What an engine does with the last state of a cascade in memory. -/
def conclude (c : C) (s : S) : Program (Exchange.states C S) (Failure C R) S := do
  let saved ← save s (.storeFailed c)
  tell .stateSaved
  return saved

/-- The version to expect is the one asked for now, or else the fetched one. -/
def concludeLocking (c : C) (version : Option Version) (s : S) :
    Program (Exchange.lockedStates C S) (Failure C R) (S × Version) := do
  let asked ← expect c
  saveLocking c s (asked.getD (.ofCurrent version))

theorem resume_orchestrating (d : Decider C S E R) (g : Saga E C) (limit : DepthLimit)
    (run : Orchestration C S E) :
    (orchestrating d g limit).resume run =
      run.round d g limit (fun rest => rest) (conclude run.command) := by
  refine congrArg (run.advance d g limit >>= ·) (funext fun next => ?_)
  cases next with
  | inl s =>
    simp only [conclude, bind_assoc, pure_bind]
  | inr rest => rfl

theorem resume_lockingOrchestrating (d : Decider C S E R) (g : Saga E C) (limit : DepthLimit)
    (run : Orchestration C S E) (version : Option Version) :
    (lockingOrchestrating d g limit).resume (run, version) =
      run.round d g limit (·, version) (concludeLocking run.command version) := by
  refine congrArg (run.advance d g limit >>= ·) (funext fun next => ?_)
  cases next with
  | inl s =>
    simp only [concludeLocking, bind_assoc]
  | inr rest => rfl

theorem quiet_handle_orchestrating (d : Decider C S E R) (g : Saga E C) (limit : DepthLimit)
    (b : Backend (Exchange.states C S) ω) (fuel : Nat) {c : C} {w w' : ω}
    {stored : Option S} {s : S}
    (hfetch : b.fetch c w = (.ok (.ok stored), w')) (hcurrent : d.current stored = .ok s) :
    ((orchestrating d g limit).handle b fuel c w).map Run.quiet =
      (drive limit g.react d.inMemory fuel (.start c) s).map fun j =>
        (⟨j.arrival, w', [.fetched c (.ok (.ok stored))]⟩ : Run _ _ S ω).andThen fun s w =>
          ((conclude c s).run b w).quiet := by
  have hstart : ((orchestrating d g limit).start c).run b w =
      ⟨.done (.again ⟨c, s, .start c⟩), w',
        [.noted (.began .stateStoredOrchestrating), .fetched c (.ok (.ok stored))]⟩ := by
    simp only [orchestrating, tell_bind]
    rw [read_bind]
    simp only [run, hfetch, hcurrent, ofChecked_ok, pure_bind]
    rfl
  rw [Engine.handle, hstart]
  exact goOn_orchestration d g limit b (orchestrating d g limit) (fun run => run) c (conclude c)
    (fun run hrun => by
      subst hrun
      exact resume_orchestrating d g limit run)
    fuel ⟨c, s, .start c⟩ rfl w' _

theorem quiet_handle_lockingOrchestrating (d : Decider C S E R) (g : Saga E C) (limit : DepthLimit)
    (b : Backend (Exchange.lockedStates C S) ω) (fuel : Nat) {c : C} {w w' : ω}
    {stored : Option (S × Version)} {s : S} {version : Option Version}
    (hfetch : b.fetch c w = (.ok (.ok stored), w'))
    (hcurrent : storedOr d.initial stored = .ok (s, version)) :
    ((lockingOrchestrating d g limit).handle b fuel c w).map Run.quiet =
      (drive limit g.react d.inMemory fuel (.start c) s).map fun j =>
        (⟨j.arrival, w', [.fetched c (.ok (.ok stored))]⟩ : Run _ _ S ω).andThen fun s w =>
          ((concludeLocking c version s).run b w).quiet := by
  have hstart : ((lockingOrchestrating d g limit).start c).run b w =
      ⟨.done (.again (⟨c, s, .start c⟩, version)), w',
        [.noted (.began .stateStoredLockingOrchestrating), .fetched c (.ok (.ok stored))]⟩ := by
    simp only [lockingOrchestrating, tell_bind]
    rw [read_bind]
    simp only [run, hfetch, hcurrent, ofChecked_ok, pure_bind]
    rfl
  rw [Engine.handle, hstart]
  exact goOn_orchestration d g limit b (lockingOrchestrating d g limit) (·, version) c
    (concludeLocking c version)
    (fun run hrun => by
      subst hrun
      exact resume_lockingOrchestrating d g limit run version)
    fuel ⟨c, s, .start c⟩ rfl w' _

end StateStored

/-! ## The engines and the recursion -/

/-- What runs like the loop over a work list comes to what the recursion comes to. -/
private theorem exists_run_iff_explore {limit : DepthLimit} {reaction : O → Checked (List C)}
    {exec : C → Nat → ω → Outcome (Failure C R) (List O) × ω} {c : C} {w : ω}
    {runs : Nat → Option A} {quiet : A → X} {result : Journey C O R ω → X}
    (h : ∀ fuel, (runs fuel).map quiet =
      (drive limit reaction exec fuel (.start c) w).map result) (x : X) :
    (∃ fuel r, runs fuel = some r ∧ quiet r = x) ↔
      ∃ n j, explore limit reaction exec n c 0 w = some j ∧ result j = x := by
  have hruns : ∀ fuel, (∃ r, runs fuel = some r ∧ quiet r = x) ↔
      ∃ j, drive limit reaction exec fuel (.start c) w = some j ∧ result j = x := by
    intro fuel
    rw [← Option.map_eq_some_iff, h fuel, Option.map_eq_some_iff]
  simp only [hruns]
  constructor
  · rintro ⟨fuel, j, hj, hx⟩
    obtain ⟨n, hn⟩ := (exists_drive_iff_explore limit reaction exec c w j).mp ⟨fuel, hj⟩
    exact ⟨n, j, hn, hx⟩
  · rintro ⟨n, j, hj, hx⟩
    obtain ⟨fuel, hfuel⟩ := (exists_drive_iff_explore limit reaction exec c w j).mpr ⟨n, hj⟩
    exact ⟨fuel, j, hfuel, hx⟩

/-- **Depth first.** The loop over the work list and the recursion end for the same commands, with
the same outputs or first failure, the same executions and the same world, however commands are
executed. So do all four engines: those over a store of events execute a command by a whole round of
calls, and those over a store of states execute it in memory between their fetch and what they do
with the last state. -/
theorem handle_explores (limit : DepthLimit) (c : C) (d : Decider C S E R) (g : Saga E C) :
    (∀ (O ω : Type) (reaction : O → Checked (List C))
      (exec : C → Nat → ω → Outcome (Failure C R) (List O) × ω) (w : ω) (j : Journey C O R ω),
      (∃ fuel, drive limit reaction exec fuel (.start c) w = some j) ↔
        ∃ n, explore limit reaction exec n c 0 w = some j) ∧
    (∀ (ω : Type) (b : Backend (Exchange.events C E) ω) (w : ω) (q : Run _ (Failure C R) _ ω),
      (∃ fuel r, (EventSourced.orchestrating d g limit).handle b fuel c w = some r ∧
        r.quiet = q) ↔
        ∃ n j, explore limit g.react (fun c _ => (EventSourced.execute d c).exec b) n c 0
          (w, []) = some j ∧ ⟨j.outcome, j.world.1, j.world.2⟩ = q) ∧
    (∀ (ω : Type) (b : Backend (Exchange.lockedEvents C E) ω) (w : ω)
      (q : Run _ (Failure C R) _ ω),
      (∃ fuel r, (EventSourced.lockingOrchestrating d g limit).handle b fuel c w = some r ∧
        r.quiet = q) ↔
        ∃ n j, explore limit (fun saved => g.react saved.1)
          (fun c depth => (EventSourced.executeAt d c depth).exec b) n c 0 (w, []) = some j ∧
          ⟨j.outcome, j.world.1, j.world.2⟩ = q) ∧
    (∀ (ω : Type) (b : Backend (Exchange.states C S) ω) (w w' : ω) (stored : Option S) (s : S)
      (q : Run _ (Failure C R) _ ω), b.fetch c w = (.ok (.ok stored), w') →
      d.current stored = .ok s →
      ((∃ fuel r, (StateStored.orchestrating d g limit).handle b fuel c w = some r ∧
        r.quiet = q) ↔
        ∃ n j, explore limit g.react d.inMemory n c 0 s = some j ∧
          (⟨j.arrival, w', [.fetched c (.ok (.ok stored))]⟩ : Run _ _ S ω).andThen
            (fun s w => ((StateStored.conclude c s).run b w).quiet) = q)) ∧
    (∀ (ω : Type) (b : Backend (Exchange.lockedStates C S) ω) (w w' : ω)
      (stored : Option (S × Version)) (s : S) (version : Option Version)
      (q : Run _ (Failure C R) _ ω), b.fetch c w = (.ok (.ok stored), w') →
      storedOr d.initial stored = .ok (s, version) →
      ((∃ fuel r, (StateStored.lockingOrchestrating d g limit).handle b fuel c w = some r ∧
        r.quiet = q) ↔
        ∃ n j, explore limit g.react d.inMemory n c 0 s = some j ∧
          (⟨j.arrival, w', [.fetched c (.ok (.ok stored))]⟩ : Run _ _ S ω).andThen
            (fun s w => ((StateStored.concludeLocking c version s).run b w).quiet) = q)) := by
  refine ⟨?_, ?_, ?_, ?_, ?_⟩
  · intro O ω reaction exec w j
    exact exists_drive_iff_explore limit reaction exec c w j
  · intro ω b w q
    exact exists_run_iff_explore
      (fun fuel => EventSourced.quiet_handle_orchestrating d g limit b fuel c w) q
  · intro ω b w q
    exact exists_run_iff_explore
      (fun fuel => EventSourced.quiet_handle_lockingOrchestrating d g limit b fuel c w) q
  · intro ω b w w' stored s q hfetch hcurrent
    exact exists_run_iff_explore
      (fun fuel => StateStored.quiet_handle_orchestrating d g limit b fuel hfetch hcurrent) q
  · intro ω b w w' stored s version q hfetch hcurrent
    exact exists_run_iff_explore
      (fun fuel => StateStored.quiet_handle_lockingOrchestrating d g limit b fuel hfetch
        hcurrent) q

/-- Three is followed by two and one, two by one and nought, and all of them are added to what the
slot holds. -/
theorem countdown_explored :
    (∃ fuel r, (StateStored.orchestrating .summing .countdown ⟨some 3⟩).handle Backend.slot fuel 3
      (some 7) = some r ∧ r.quiet = ⟨.done 14, some 14,
        [.fetched 3 (.ok (.ok (some 7))), .wrote 14 (.ok (.ok 14))]⟩) ∧
    ∃ fuel r, (StateStored.lockingOrchestrating .summing .countdown ⟨some 3⟩).handle
      (Store.lockedStates .single .faithful fun _ _ => none) fuel 3
      (.empty : Store Unit Nat Nat Empty) = some r ∧ r.outcome = .done (7, ⟨1⟩) := by
  have h := handle_explores ⟨some 3⟩ 3 .summing .countdown
  refine ⟨?_, ?_⟩
  · exact (h.2.2.2.1 _ Backend.slot (some 7) (some 7) (some 7) 7 _ rfl rfl).mpr ⟨4, _, rfl, rfl⟩
  · obtain ⟨fuel, r, hr, hquiet⟩ := (h.2.2.2.2 _ (Store.lockedStates .single .faithful
      fun _ _ => none) .empty .empty none 0 none _ rfl rfl).mpr ⟨4, _, rfl, rfl⟩
    exact ⟨fuel, r, hr, congrArg Run.outcome hquiet⟩

end EventMachines
