import EventMachines.Proofs.Execution.Pipeline
import EventMachines.Proofs.Orchestration.Conservation

/-!
A saga that has nothing to say. Where no event that can be decided, or that the store can give back,
causes a command, a cascade is its first command, and an orchestrating engine does what the plain
one does: the same calls, the same end, the same store. It may ask which version to expect, but only
where it is not told.

* `drive_of_silent`: a cascade whose outputs cause nothing executes one command;
* `mem_of_execute`: over a store of events, outputs are given back by the store;
* `arrival_of_silent`: in memory, the cascade comes to what its command makes of the state;
* `silent_orchestration_is_plain`: so it is for all four engines, over every store;
* `Store.events_returns`, `Store.lockedEvents_returns`: the store in memory gives back what its
  intake makes of the events.
-/

namespace EventMachines

open Cascade
open Program hiding bind

variable {P : Exchange} {C S E R O I D W ε Item Answer α β ω : Type}

/-! ## What the store can tell -/

/-- Whether the store has a part in it. Notes are none of its business, and being asked for a
version that it does not tell leaves it as it is. -/
def Happening.isRequest : Happening P → Bool
  | noted _ => false
  | consulted _ none => false
  | _ => true

namespace Run

/-- The run as far as the store can tell. -/
def ported (r : Run P ε α ω) : Run P ε α ω :=
  { r with transcript := r.transcript.filter Happening.isRequest }

theorem ported_quiet (r : Run P ε α ω) : r.quiet.ported = r.ported := by
  refine congrArg (Run.mk r.outcome r.world) ?_
  show (r.transcript.filter Happening.isCall).filter Happening.isRequest = _
  rw [List.filter_filter]
  refine List.filter_congr fun h _ => ?_
  rcases h with n | ⟨i, reply⟩ | ⟨data, reply⟩ | ⟨i, _ | v⟩ <;> rfl

theorem ported_andThen (r : Run P ε α ω) (f : α → ω → Run P ε β ω) :
    (r.andThen f).ported = r.ported.andThen fun a w => (f a w).ported := by
  rcases r with ⟨a | e | x, w, transcript⟩
  · simp [ported, andThen]
  · rfl
  · rfl

end Run

/-- Both engines come to an end with the item, and the store cannot tell one from the other. -/
def Engine.Mirrors (e e' : Engine P ε Item Answer) (b : Backend P ω) (item : Item) (w : ω) : Prop :=
  ∀ fuel fuel', ∃ r r', e.handle b (fuel + 2) item w = some r ∧
    e'.handle b fuel' item w = some r' ∧ r.ported = r'.ported

/-- Two engines mirror each other where the runs they come to do, notes apart. -/
theorem Engine.mirrors_of_quiet {e e' : Engine P ε Item Answer} {b : Backend P ω} {item : Item}
    {w : ω} {q p : Run P ε Answer ω}
    (h : ∀ fuel, (e.handle b (fuel + 2) item w).map Run.quiet = some q)
    (h' : ∀ fuel, (e'.handle b fuel item w).map Run.quiet = some p) (hq : q.ported = p.ported) :
    e.Mirrors e' b item w := by
  intro fuel fuel'
  obtain ⟨r, hr, rfl⟩ := Option.map_eq_some_iff.mp (h fuel)
  obtain ⟨r', hr', rfl⟩ := Option.map_eq_some_iff.mp (h' fuel')
  rw [Run.ported_quiet, Run.ported_quiet] at hq
  exact ⟨r, r', hr, hr', hq⟩

/-! ## Cascades without follow-ups -/

theorem Cascade.react_of_silent {reaction : O → Checked (List C)} {outputs : List O}
    (hsilent : ∀ o ∈ outputs, reaction o = .ok []) (reacted : List O) :
    Cascade.react reaction outputs reacted = .ok (outputs.reverse ++ reacted, none) := by
  induction outputs generalizing reacted with
  | nil => rfl
  | cons o outputs ih =>
    obtain ⟨ho, hrest⟩ := List.forall_mem_cons.mp hsilent
    rw [Cascade.react, ho, List.reverse_cons, List.append_assoc]
    exact ih hrest (o :: reacted)

/-- Outputs that cause no command are all that is left of the cascade. -/
theorem Cascade.next_of_silent {reaction : O → Checked (List C)} {outputs : List O}
    (hsilent : ∀ o ∈ outputs, reaction o = .ok []) (depth : Nat) :
    ((⟨[.commands [] 0], []⟩ : Cascade C O).push outputs depth).next reaction =
      .ok (.finished outputs) := by
  cases outputs with
  | nil => rfl
  | cons o outputs =>
    show Cascade.pull reaction [.outputs (o :: outputs) depth, .commands [] 0] [] = _
    rw [Cascade.pull, Cascade.react_of_silent hsilent]
    show Except.ok (Cascade.Next.finished ((o :: outputs).reverse ++ []).reverse) = _
    rw [List.append_nil, List.reverse_reverse]

/-- **One command.** A cascade whose first command has outputs that cause nothing is over then. -/
theorem drive_of_silent (limit : DepthLimit) (reaction : O → Checked (List C))
    {exec : C → Nat → ω → Outcome (Failure C R) (List O) × ω} {c : C} {w : ω}
    (hsilent : ∀ outputs, (exec c 0 w).1 = .done outputs → ∀ o ∈ outputs, reaction o = .ok [])
    (fuel : Nat) :
    drive limit reaction exec (fuel + 2) (.start c) w =
      some ⟨(exec c 0 w).1, (exec c 0 w).2, [⟨c, 0, (exec c 0 w).1⟩]⟩ := by
  have hnext : (Cascade.start c : Cascade C O).next reaction =
      .ok (.command c 0 0 ⟨[.commands [] 0], []⟩) := rfl
  rw [drive_allowed limit reaction exec (fuel + 1) hnext limit.allows_zero]
  rcases hexec : exec c 0 w with ⟨outputs | e | x, w'⟩
  · have hlast := next_of_silent (hsilent outputs (congrArg Prod.fst hexec)) 0
    rw [Trip.execute_done _ hexec, drive, hlast]
    simp [Trip.emitted, Trip.stop, Journey.after, Outcome.prepend]
  · exact Trip.execute_failed _ hexec
  · exact Trip.execute_broken _ hexec

/-! ## Over a store of events -/

/-- The store can answer a write with that. -/
def Backend.Returns (b : Backend P ω) (ack : P.Ack) : Prop :=
  ∃ data w, (b.write data w).1 = .ok (.ok ack)

theorem Program.accepted_returns (b : Backend P ω) (p : Program P ε α) (w : ω) :
    ∀ save ∈ accepted (p.run b w).transcript, b.Returns save.2 := by
  have hall : b.Accumulates fun saves _ => ∀ save ∈ saves, b.Returns save.2 := by
    refine ⟨fun _ _ _ h => h, fun _ _ _ _ h => h, fun data w ack before hack h => ?_⟩
    intro save hsave
    rcases List.mem_append.mp hsave with hsave | hsave
    · exact h save hsave
    · rw [List.mem_singleton.mp hsave]
      exact ⟨data, w, hack⟩
  have hnone : ∀ save ∈ ([] : List (P.Write × P.Ack)), b.Returns save.2 := fun _ h => nomatch h
  exact p.run_accumulates hall hnone

/-- What an execution has put out, the store has given back. -/
theorem mem_of_execute {b : Backend ⟨I, D, W, List O⟩ ω}
    {p : Program ⟨I, D, W, List O⟩ (Failure C R) (List O)} (hsaves : p.Keeps (savesAnswer C R) [])
    {w : ω} {outputs : List O} (hdone : (p.run b w).outcome = .done outputs) {o : O}
    (ho : o ∈ outputs) : b.Returns outputs := by
  have hsaved := (SavesOutputs.of_keeps hsaves b w).saved
  rw [hdone, Outcome.outputs, List.filter_cons_of_pos] at hsaved
  · have hmem : outputs ∈ (savedBatches (p.run b w).transcript).filter (!·.isEmpty) := by
      rw [hsaved]
      exact List.mem_cons_self
    obtain ⟨save, hsave, rfl⟩ := List.mem_map.mp (List.mem_filter.mp hmem).1
    exact p.accepted_returns b w save hsave
  · cases outputs with
    | nil => cases ho
    | cons o outputs => rfl

theorem quiet_drive_of_silent {b : Backend ⟨I, D, W, List O⟩ ω} (limit : DepthLimit)
    {reaction : O → Checked (List C)}
    (execute : C → Nat → Program ⟨I, D, W, List O⟩ (Failure C R) (List O)) {c : C}
    (hsaves : (execute c 0).Keeps (savesAnswer C R) [])
    (hsilent : ∀ saved, b.Returns saved → ∀ o ∈ saved, reaction o = .ok []) (fuel : Nat) (w : ω) :
    (drive limit reaction (fun c depth => (execute c depth).exec b) (fuel + 2) (.start c)
      (w, [])).map (fun j => (⟨j.outcome, j.world.1, j.world.2⟩ : Run _ _ _ ω)) =
      some ((execute c 0).run b w).quiet := by
  rw [drive_of_silent limit reaction]
  · rfl
  · intro outputs hdone o ho
    exact hsilent outputs (mem_of_execute hsaves hdone ho) o ho

namespace EventSourced

theorem orchestrating_mirrors {d : Decider C S E R} {g : Saga E C} (limit : DepthLimit)
    {b : Backend (Exchange.events C E) ω}
    (hsilent : ∀ saved, b.Returns saved → ∀ e ∈ saved, g.react e = .ok []) (c : C) (w : ω) :
    (orchestrating d g limit).Mirrors (plain d) b c w := by
  have horchestrating : ∀ fuel, ((orchestrating d g limit).handle b (fuel + 2) c w).map Run.quiet =
      some ((execute d c).run b w).quiet := by
    intro fuel
    rw [quiet_handle_orchestrating]
    exact quiet_drive_of_silent limit (fun c _ => execute d c) (execute_saves d c) hsilent fuel w
  have hplain : ∀ fuel, ((plain d).handle b fuel c w).map Run.quiet =
      some ((execute d c).run b w).quiet := by
    intro fuel
    rw [plain, Engine.handle_ofProgram]
    rfl
  exact Engine.mirrors_of_quiet horchestrating hplain rfl

theorem lockingOrchestrating_mirrors {d : Decider C S E R} {g : Saga E C} (limit : DepthLimit)
    {b : Backend (Exchange.lockedEvents C E) ω} (huntold : ∀ c w, b.consult c w = none)
    (hsilent : ∀ saved, b.Returns saved → ∀ e ∈ saved, g.react e.1 = .ok []) (c : C) (w : ω) :
    (lockingOrchestrating d g limit).Mirrors (locking d) b c w := by
  have horchestrating : ∀ fuel,
      ((lockingOrchestrating d g limit).handle b (fuel + 2) c w).map Run.quiet =
        some ((executeAt d c 0).run b w).quiet := by
    intro fuel
    rw [quiet_handle_lockingOrchestrating]
    exact quiet_drive_of_silent limit (executeAt d) (executeAt_saves d c 0) hsilent fuel w
  have hplain : ∀ fuel, ((locking d).handle b fuel c w).map Run.quiet =
      some ((executeLocking d c none).run b w).quiet := by
    intro fuel
    rw [locking, Engine.handle_ofProgram]
    rfl
  refine Engine.mirrors_of_quiet horchestrating hplain ?_
  have hasked : (executeAt d c 0).run b w =
      ((executeLocking d c (b.consult c w)).run b w).after (.consulted c (b.consult c w)) := rfl
  rw [Run.ported_quiet, Run.ported_quiet, hasked, huntold c w]
  rfl

end EventSourced

/-! ## In memory -/

/-- The decider can decide that event. -/
def Decider.Yields (d : Decider C S E R) (e : E) : Prop :=
  ∃ c s events, d.decide c s = .ok (.ok events) ∧ e ∈ events

/-- A silent cascade in memory leads to what its command makes of the state. -/
theorem arrival_of_silent {d : Decider C S E R} {g : Saga E C} (limit : DepthLimit)
    (hsilent : ∀ e, d.Yields e → g.react e = .ok []) (fuel : Nat) (c : C) (s : S) :
    (drive limit g.react d.inMemory (fuel + 2) (.start c) s).map Journey.arrival =
      some (d.becomes c s) := by
  rw [drive_of_silent limit g.react]
  · rw [Option.map_some, Journey.arrival, Decider.inMemory, Decider.becomes]
    rcases d.attempt c s with x | e | events
    · rfl
    · rfl
    · rcases hevolve : d.evolveAll s events with x | s' <;> simp [hevolve, Outcome.ofChecked]
  · intro events hdone e he
    have hdecided := Decider.attempt_eq_ok.mp (Decider.attempt_of_done hdone)
    exact hsilent e ⟨c, s, events, hdecided.2, he⟩

namespace StateStored

theorem orchestrating_mirrors {d : Decider C S E R} {g : Saga E C} (limit : DepthLimit)
    (hsilent : ∀ e, d.Yields e → g.react e = .ok []) (b : Backend (Exchange.states C S) ω) (c : C)
    (w : ω) : (orchestrating d g limit).Mirrors (plain d) b c w := by
  refine Engine.mirrors_of_quiet (fun fuel => ?_) (fun fuel => quiet_handle_plain d b fuel c w) rfl
  exact quiet_handle_orchestrating_of_ends d g limit b fun _ s _ _ =>
    arrival_of_silent limit hsilent fuel c s

/-- A version that is asked for and not told makes no difference. -/
theorem ported_run_concludeLocking {b : Backend (Exchange.lockedStates C S) ω}
    (huntold : ∀ c w, b.consult c w = none) (c : C)
    (begin : Option (S × Version) → Checked (S × Option Version))
    (comes : S × Option Version → Outcome (Failure C R) S) (w : ω) :
    ((pipeline c (.fetchFailed c) begin comes fun t s => concludeLocking c t.2 s).run b w).ported =
      ((pipeline c (.fetchFailed c) begin comes fun t s =>
        saveLocking c s (.ofCurrent t.2)).run b w).ported := by
  have hconclude : ∀ (t : S × Option Version) s w,
      ((concludeLocking c t.2 s : Program _ (Failure C R) _).run b w).ported =
        ((saveLocking c s (.ofCurrent t.2) : Program _ (Failure C R) _).run b w).ported := by
    intro t s w
    have hasked : (concludeLocking c t.2 s : Program _ (Failure C R) _).run b w =
        ((saveLocking c s ((b.consult c w).getD (.ofCurrent t.2))).run b w).after
          (.consulted c (b.consult c w)) := rfl
    rw [hasked, huntold c w]
    rfl
  simp only [pipeline, run_bind, Run.ported_andThen, hconclude]

theorem lockingOrchestrating_mirrors {d : Decider C S E R} {g : Saga E C} (limit : DepthLimit)
    (hsilent : ∀ e, d.Yields e → g.react e = .ok []) {b : Backend (Exchange.lockedStates C S) ω}
    (huntold : ∀ c w, b.consult c w = none) (c : C) (w : ω) :
    (lockingOrchestrating d g limit).Mirrors (locking d) b c w := by
  refine Engine.mirrors_of_quiet
    (fun fuel => quiet_handle_lockingOrchestrating_of_ends d g limit b fun _ t _ _ =>
      arrival_of_silent limit hsilent fuel c t.1)
    (fun fuel => quiet_handle_locking d b fuel c w) ?_
  rw [Run.ported_quiet, Run.ported_quiet]
  exact ported_run_concludeLocking huntold c _ _ w

end StateStored

/-- **A silent saga.** Where a saga derives no command from what the store gives back, the
orchestrating engines over events do what the plain ones do, and where it derives none from what the
decider can decide, so do those over states: whatever the store answers, whatever the depth
limit. -/
theorem silent_orchestration_is_plain (d : Decider C S E R) (g : Saga E C) (limit : DepthLimit)
    (c : C) (w : ω) :
    (∀ b : Backend (Exchange.events C E) ω,
      (∀ saved, b.Returns saved → ∀ e ∈ saved, g.react e = .ok []) →
      (EventSourced.orchestrating d g limit).Mirrors (EventSourced.plain d) b c w) ∧
    (∀ b : Backend (Exchange.lockedEvents C E) ω, (∀ c w, b.consult c w = none) →
      (∀ saved, b.Returns saved → ∀ e ∈ saved, g.react e.1 = .ok []) →
      (EventSourced.lockingOrchestrating d g limit).Mirrors (EventSourced.locking d) b c w) ∧
    ((∀ e, d.Yields e → g.react e = .ok []) →
      (∀ b : Backend (Exchange.states C S) ω,
        (StateStored.orchestrating d g limit).Mirrors (StateStored.plain d) b c w) ∧
      ∀ b : Backend (Exchange.lockedStates C S) ω, (∀ c w, b.consult c w = none) →
        (StateStored.lockingOrchestrating d g limit).Mirrors (StateStored.locking d) b c w) :=
  ⟨fun _ hsilent => EventSourced.orchestrating_mirrors limit hsilent c w,
    fun _ huntold hsilent => EventSourced.lockingOrchestrating_mirrors limit huntold hsilent c w,
    fun hsilent => ⟨fun b => StateStored.orchestrating_mirrors limit hsilent b c w,
      fun _ huntold => StateStored.lockingOrchestrating_mirrors limit hsilent huntold c w⟩⟩

/-! ## The store in memory -/

section

variable {K T : Type} {layout : Layout K I E T} {intake : Intake E T A}

/-- What is stored has been taken in. -/
theorem Intake.mem_take {current : Option Version} {events : List E} {added : List (E × Version)}
    (h : intake.take current events = .ok added) :
    ∀ p ∈ added, ∃ e, intake.onEvent e = .ok p.1 := by
  induction events generalizing current added with
  | nil =>
    obtain rfl := Except.ok.inj h
    simp
  | cons e rest ih =>
    simp only [take, Checked.bind_eq_ok] at h
    obtain ⟨v, -, stored, hstored, more, hmore, h⟩ := h
    obtain rfl := Except.ok.inj h
    exact List.forall_mem_cons.mpr ⟨⟨e, hstored⟩, ih hmore⟩

theorem Echo.subset_of {α : Type} (echo : Echo) (items : List α) : echo.of items ⊆ items := by
  cases echo with
  | all => exact List.Subset.refl items
  | first => exact List.take_subset 1 items
  | none => exact List.nil_subset items

variable [DecidableEq K]

theorem Store.events_returns {saved : List E} (h : (Store.events layout intake).Returns saved) :
    ∀ e ∈ saved, ∃ e', intake.onEvent e' = .ok e := by
  obtain ⟨batch, st, haccepted⟩ := h
  rcases write_events st batch with ⟨e, rest, added, -, htake, hwrite⟩ | ⟨-, hnil⟩
  · rw [hwrite] at haccepted
    obtain rfl := Except.ok.inj (Except.ok.inj haccepted)
    intro e he
    obtain ⟨p, hp, rfl⟩ := List.mem_map.mp (intake.echo.subset_of _ he)
    exact Intake.mem_take htake p hp
  · obtain rfl := hnil saved haccepted
    obtain rfl : [] = saved := Except.ok.inj (Except.ok.inj haccepted)
    simp

theorem Store.lockedEvents_returns {latest : I → Store K E T A → Option ExpectedVersion}
    {saved : List (E × Version)} (h : (Store.lockedEvents layout intake latest).Returns saved) :
    ∀ p ∈ saved, ∃ e, intake.onEvent e = .ok p.1 := by
  obtain ⟨⟨batch, expected⟩, st, haccepted⟩ := h
  rcases write_lockedEvents layout intake latest st batch expected with
    ⟨e, rest, added, -, -, htake, hwrite⟩ | ⟨-, hnil⟩
  · rw [hwrite] at haccepted
    obtain rfl := Except.ok.inj (Except.ok.inj haccepted)
    exact fun p hp => Intake.mem_take htake p (intake.echo.subset_of _ hp)
  · obtain rfl := hnil saved haccepted
    obtain rfl : [] = saved := Except.ok.inj (Except.ok.inj haccepted)
    simp

end

theorem Saga.beyond_silent {n : Nat} (h : n ≤ 8) : Saga.beyond.react n = .ok [] := by
  simp [beyond, total, Nat.not_lt.mpr h]

/-- Numbers that are too large are never decided, and a store that cuts them down never gives them
back. -/
theorem beyond_is_plain :
    let intake : Intake Nat Nat Empty := ⟨fun n => .ok (min n 8), .ok, .ok, .all⟩
    let st : Store Unit Nat Nat Empty := .empty
    ((∀ saved, (Store.events .single intake).Returns saved →
        ∀ e ∈ saved, Saga.beyond.react e = .ok []) ∧
      (EventSourced.orchestrating .summing .beyond ⟨some 0⟩).Mirrors (EventSourced.plain .summing)
        (Store.events .single intake) 3 st) ∧
    ((∀ saved, (Store.lockedEvents .single intake fun _ _ => none).Returns saved →
        ∀ e ∈ saved, Saga.beyond.react e.1 = .ok []) ∧
      (EventSourced.lockingOrchestrating .summing .beyond ⟨some 0⟩).Mirrors
        (EventSourced.locking .summing) (Store.lockedEvents .single intake fun _ _ => none) 3 st) ∧
    (∀ e, Decider.summing.Yields e → Saga.beyond.react e = .ok []) ∧
    (StateStored.orchestrating .summing .beyond ⟨some 0⟩).Mirrors (StateStored.plain .summing)
      (Store.states .single intake) 3 st ∧
    (StateStored.lockingOrchestrating .summing .beyond ⟨some 0⟩).Mirrors
      (StateStored.locking .summing) (Store.lockedStates .single intake fun _ _ => none) 3 st := by
  intro intake st
  have hsmall : ∀ {n : Nat}, (∃ m, intake.onEvent m = .ok n) → Saga.beyond.react n = .ok [] := by
    rintro n ⟨m, hm⟩
    obtain rfl : min m 8 = n := Except.ok.inj hm
    exact Saga.beyond_silent (Nat.min_le_right m 8)
  have hreturned : ∀ saved, (Store.events .single intake).Returns saved →
      ∀ e ∈ saved, Saga.beyond.react e = .ok [] :=
    fun saved h e he => hsmall (Store.events_returns h e he)
  have hlocked : ∀ saved, (Store.lockedEvents .single intake fun _ _ => none).Returns saved →
      ∀ e ∈ saved, Saga.beyond.react e.1 = .ok [] :=
    fun saved h e he => hsmall (Store.lockedEvents_returns h e he)
  have hdecided : ∀ e, Decider.summing.Yields e → Saga.beyond.react e = .ok [] := by
    rintro e ⟨n, sum, events, hdecide, he⟩
    by_cases hn : n < 9 <;> simp [Decider.summing, Decider.total, hn] at hdecide
    subst hdecide
    obtain rfl := List.mem_singleton.mp he
    exact Saga.beyond_silent (Nat.le_of_lt_succ hn)
  obtain ⟨hevents, hlockedEvents, hstates⟩ :=
    silent_orchestration_is_plain .summing .beyond ⟨some 0⟩ 3 st
  exact ⟨⟨hreturned, hevents _ hreturned⟩, ⟨hlocked, hlockedEvents _ (fun _ _ => rfl) hlocked⟩,
    hdecided, (hstates hdecided).1 _, (hstates hdecided).2 _ fun _ _ => rfl⟩

end EventMachines
