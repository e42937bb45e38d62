import EventMachines.Proofs.Execution.Attribution
import EventMachines.Proofs.Orchestration.Atomicity

/-!
The grounds of orchestrations. Over a store of events a failure that is no call's is that of the
command under way, which was tried on what was fetched for it; over a store of states it is that of
the next command of a cascade in memory, which was tried in the state that all commands before it
led to.

* `Cascade.exists_next`: a work list has a next command, or is finished, if every reaction answers;
* `Grounds.attributes_of_rounds`: an engine that executes its cascade over its store;
* `StateStored.Leads`: one cascade in memory comes to another; `keeps_orchestration_bind`: what one
  command of it keeps; `attributes_of_orchestration`: an engine that works its cascade off in
  memory;
* `failures_name_their_step`: all twelve engines.
-/

namespace EventMachines

open Cascade
open Program hiding bind

variable {P : Exchange} {C S S' E E' R O T A β : Type}

/-! ## Sagas that answer -/

/-- The saga does not fail. -/
def Saga.Answers (g : Saga E C) : Prop := ∀ e, ∃ commands, g.react e = .ok commands

section

variable {reaction : O → Checked (List C)} (h : ∀ o, ∃ commands, reaction o = .ok commands)
include h

theorem Cascade.exists_react (waiting reacted : List O) :
    ∃ found, react reaction waiting reacted = .ok found := by
  induction waiting generalizing reacted with
  | nil => exact ⟨_, rfl⟩
  | cons o waiting ih =>
    obtain ⟨commands, hcommands⟩ := h o
    rw [react, hcommands]
    cases commands with
    | nil => exact ih (o :: reacted)
    | cons c commands => exact ⟨_, rfl⟩

theorem Cascade.exists_next (k : Cascade C O) : ∃ next, k.next reaction = .ok next := by
  obtain ⟨stack, reacted⟩ := k
  show ∃ next, pull reaction stack reacted = .ok next
  induction stack generalizing reacted with
  | nil => exact ⟨_, rfl⟩
  | cons frame stack ih =>
    rcases frame with ⟨_ | ⟨c, waiting⟩, depth⟩ | ⟨waiting, depth⟩
    · exact ih reacted
    · exact ⟨_, rfl⟩
    · obtain ⟨⟨now, found⟩, hfound⟩ := exists_react h waiting reacted
      rw [pull, hfound]
      rcases found with _ | ⟨c, commands, later⟩
      · exact ih now
      · exact ⟨_, rfl⟩

theorem Cascade.next_ne_error (k : Cascade C O) (x : Fault) : k.next reaction ≠ .error x := by
  obtain ⟨next, hnext⟩ := exists_next h k
  rw [hnext]
  simp

end

namespace Grounds

/-- With a saga, whose cascade may go too deep and may break off in a reaction. -/
def cascading (g : Grounds P R) (saga : Saga E C)
    (deep : P.Input → Nat → List (Happening P) → Prop) : Grounds P R :=
  { g with
    deep := deep
    broken := fun x past => g.broken x past ∨ ¬ saga.Answers }

variable {g : Grounds P R} {saga : Saga E C} {deep : P.Input → Nat → List (Happening P) → Prop}
  {past : List (Happening P)}

theorem Holds.cascading {o : Outcome (Failure P.Input R) A} (h : g.Holds o past)
    (hdeep : ∀ c depth past, ¬ g.deep c depth past) : (g.cascading saga deep).Holds o past := by
  rcases o with answer | (_ | _ | _ | _ | _ | ⟨c, depth⟩) | x
  case failed.depthExceeded => exact absurd h (hdeep c depth past)
  case broken => exact .inl h
  all_goals exact h

theorem Covers.cascading {o : Outcome (Failure P.Input R) A} (h : g.Covers o past)
    (hdeep : ∀ c depth past, ¬ g.deep c depth past) : (g.cascading saga deep).Covers o past :=
  ⟨h.holds.cascading hdeep, h.refused⟩

/-! ## A cascade over a store -/

/-- An engine that executes the commands of a cascade one by one attributes its ends to the calls if
the executions do. -/
theorem attributes_of_rounds {limit : DepthLimit} {reaction : O → Checked (List P.Input)}
    {ended : List O → Note} {execute : P.Input → Nat → Program P (Failure P.Input R) (List O)}
    {start : P.Input → Program P (Failure P.Input R) (Progress (Cascade P.Input O) (List O))}
    (began : Note) (hstart : ∀ c, start c = do tell began; return .again (.start c))
    (hrefused : ∀ stored e, ¬ g.refused stored e)
    (hexecute : ∀ c depth past, (∀ h ∈ past, h.fails = false) →
      (execute c depth).Keeps (g.contract (List O)) past)
    (hdeep : ∀ c depth past, ¬ limit.allows depth = true → g.deep c depth past)
    (hbroken : ∀ k x past, Cascade.next k reaction = .error x → g.broken x past) :
    (⟨Cascade P.Input O, start, Cascade.round limit reaction ended execute⟩ :
      Engine P (Failure P.Input R) P.Input (List O)).Attributes fun _ => g := by
  refine Protocol.Kept.attributes (fun _ _ past => ∀ h ∈ past, h.fails = false)
    ⟨fun c => ?_, fun root k past hpast => ?_⟩
  · show (start c).Keeps _ []
    rw [hstart c]
    exact List.forall_mem_nil _
  · have hown : ∀ o : Outcome (Failure P.Input R) (List O), g.Holds o past → g.Explains o past :=
      fun o ho => .own hpast (.of_holds hrefused ho)
    show (Cascade.round limit reaction ended execute k).Keeps _ past
    unfold Cascade.round
    refine keeps_advance_bind_in_full (fun outputs _ => hown (.done outputs) trivial)
      (fun c depth derived rest _ _ => keeps_bind.mpr ?_)
      (fun c depth derived rest _ hdeeper => hown _ (hdeep c depth past hdeeper))
      fun x hx => hown _ (hbroken k x past hx)
    refine (hexecute c depth past hpast).mono (fun _ _ _ => trivial) fun o past ho => ?_
    rcases o with outputs | e | x
    · exact ho.attributed.done outputs rfl
    · exact ho
    · exact ho

end Grounds

namespace EventSourced

/-- A cascade over a store of events: every command is tried on what was fetched for it. -/
def cascadeGrounds (d : Decider P.Input S E R) (g : Saga E P.Input) (limit : DepthLimit)
    (state : P.Read → Checked S) : Grounds P R :=
  (d.grounds (TriedOn state)).cascading g fun _ depth _ => ¬ limit.allows depth = true

theorem execute_keeps (d : Decider C S E R) (g : Saga E C) (limit : DepthLimit) (c : C)
    {past : List (Happening (Exchange.events C E))} (hpast : ∀ h ∈ past, h.fails = false) :
    (execute d c).Keeps ((cascadeGrounds d g limit d.replay).contract (List E)) past := by
  refine keeps_unnoted.mp ?_
  rw [unnoted_execute]
  exact Grounds.keeps_contract hpast fun history =>
    (course_covers d c history past).mono fun o ho => ho.cascading fun _ _ _ => id

/-- Asking for a version is no call that fails. -/
theorem executeAt_keeps (d : Decider C S E R) (g : Saga E C) (limit : DepthLimit) (c : C)
    (depth : Nat) {past : List (Happening (Exchange.lockedEvents C E))}
    (hpast : ∀ h ∈ past, h.fails = false) :
    (executeAt d c depth).Keeps
      ((cascadeGrounds d g limit d.replayLocked).contract (List (E × Version))) past := by
  have hexecute : ∀ asked past, (∀ h ∈ past, h.fails = false) →
      (executeLocking d c asked).Keeps
        ((cascadeGrounds d g limit d.replayLocked).contract (List (E × Version))) past := by
    intro asked past hpast
    refine keeps_unnoted.mp ?_
    rw [unnoted_executeAsked]
    exact Grounds.keeps_contract hpast fun history =>
      (courseAsked_covers d c asked history past).mono fun o ho => ho.cascading fun _ _ _ => id
  unfold executeAt
  by_cases hroot : depth = 0
  · rw [if_pos hroot]
    exact ⟨trivial, fun asked => hexecute asked _ (List.forall_mem_cons.mpr ⟨rfl, hpast⟩)⟩
  · rw [if_neg hroot]
    exact hexecute none past hpast

theorem orchestrating_attributes (d : Decider C S E R) (g : Saga E C) (limit : DepthLimit) :
    (orchestrating d g limit).Attributes fun _ => cascadeGrounds d g limit d.replay :=
  Grounds.attributes_of_rounds (.began .eventSourcedOrchestrating) (fun _ => rfl) (fun _ _ => id)
    (fun c _ _ => execute_keeps d g limit c) (fun _ _ _ => id)
    fun _ _ _ hx => .inr fun hg => next_ne_error hg _ _ hx

theorem lockingOrchestrating_attributes (d : Decider C S E R) (g : Saga E C) (limit : DepthLimit) :
    (lockingOrchestrating d g limit).Attributes fun _ =>
      cascadeGrounds d g limit d.replayLocked := by
  have hengine : lockingOrchestrating d g limit =
      ⟨Cascade C (E × Version), (lockingOrchestrating d g limit).start,
        Cascade.round limit (fun saved => g.react saved.1)
          (fun events => .orchestrated events.length) (executeAt d)⟩ :=
    congrArg (Engine.mk (Cascade C (E × Version)) (lockingOrchestrating d g limit).start)
      (funext (resume_lockingOrchestrating d g limit))
  rw [hengine]
  exact Grounds.attributes_of_rounds (.began .eventSourcedLockingOrchestrating) (fun _ => rfl)
    (fun _ _ => id) (fun c depth _ => executeAt_keeps d g limit c depth) (fun _ _ _ => id)
    fun _ _ _ hx => .inr fun hg => next_ne_error (fun saved : E × Version => hg saved.1) _ _ hx

end EventSourced

/-! ## A cascade in memory -/

namespace StateStored

section

variable (d : Decider C S E R) (g : Saga E C) (limit : DepthLimit)

/-- The one cascade comes to the other by commands that are decided, one after the other, each in
the state that the ones before led to. -/
inductive Leads (first : Orchestration C S E) : Orchestration C S E → Prop
  | refl : Leads first first
  | step {run : Orchestration C S E} {c : C} {depth derived : Nat} {rest : Cascade C E}
      {events : List E} {s : S} (before : Leads first run)
      (next : run.cascade.next g.react = .ok (.command c depth derived rest))
      (allowed : limit.allows depth = true) (taken : d.isTerminal c run.state = .ok false)
      (decided : d.decide c run.state = .ok (.ok events))
      (evolved : d.evolveAll run.state events = .ok s) :
      Leads first { run with state := s, cascade := rest.push events depth }

/-- The command comes next, at that depth and in that state, in the cascade of a command whose state
was fetched. -/
def Due {P : Exchange} (d : Decider P.Input S E R) (g : Saga E P.Input) (limit : DepthLimit)
    (state : P.Read → Checked S) (c : P.Input) (depth : Nat) (s : S) (past : List (Happening P)) :
    Prop :=
  ∃ root stored first run derived rest, past = [.fetched root (.ok (.ok stored))] ∧
    state stored = .ok first ∧ Leads d g limit ⟨root, first, .start root⟩ run ∧ run.state = s ∧
    run.cascade.next g.react = .ok (.command c depth derived rest)

/-- A cascade in memory: every command is tried in the state that the ones before led to. -/
def cascadeGrounds {P : Exchange} (d : Decider P.Input S E R) (g : Saga E P.Input)
    (limit : DepthLimit) (state : P.Read → Checked S) : Grounds P R :=
  (d.grounds fun c s past => ∃ depth, limit.allows depth = true ∧
    Due d g limit state c depth s past).cascading g fun c depth past =>
      ¬ limit.allows depth = true ∧ ∃ s, Due d g limit state c depth s past

variable {d g limit}

theorem Leads.command {first run : Orchestration C S E} (h : Leads d g limit first run) :
    run.command = first.command := by
  induction h with
  | refl => rfl
  | step _ _ _ _ _ _ ih => exact ih

/-- What one command of a cascade in memory keeps. -/
theorem keeps_orchestration_bind {run : Orchestration C S E} {k : Contract P (Failure C R) β}
    {f : S ⊕ Orchestration C S E → Program P (Failure C R) β} {past : List (Happening P)}
    (hfinished : (f (.inl run.state)).Keeps k past)
    (hcommand : ∀ {c depth derived rest events s},
      run.cascade.next g.react = .ok (.command c depth derived rest) → limit.allows depth = true →
      d.attempt c run.state = .ok (.ok events) → d.evolveAll run.state events = .ok s →
      (f (.inr { run with state := s, cascade := rest.push events depth })).Keeps k past)
    (hdeep : ∀ {c depth derived rest},
      run.cascade.next g.react = .ok (.command c depth derived rest) →
      ¬ limit.allows depth = true → k.ends (.failed (.depthExceeded c depth)) past)
    (hfailed : ∀ {c depth derived rest e},
      run.cascade.next g.react = .ok (.command c depth derived rest) → limit.allows depth = true →
      d.attempt c run.state = .ok (.error e) → k.ends (.failed e) past)
    (hbroken : ∀ {x}, ¬ d.Answers ∨ ¬ g.Answers → k.ends (.broken x) past) :
    (run.advance d g limit >>= f).Keeps k past := by
  refine keeps_bind.mpr ?_
  unfold Orchestration.advance
  refine keeps_advance_bind_in_full (fun outputs _ => hfinished)
    (fun c depth derived rest hnext hallowed => ?_) (fun c depth derived rest => hdeep)
    fun x hx => hbroken (.inr fun hg => next_ne_error hg _ _ hx)
  refine keeps_attempt_bind (fun events hattempt => ?_) (fun e => hfailed hnext hallowed)
    fun x hx => hbroken (.inl fun hd => ?_)
  · refine keeps_ofChecked_bind (fun s => hcommand hnext hallowed hattempt)
      fun x hx => hbroken (.inl fun hd => ?_)
    obtain ⟨s, hs⟩ := d.exists_evolveAll hd.evolve run.state events
    cases hx.symm.trans hs
  · obtain ⟨answer, hanswer⟩ := hd.attempt c run.state
    cases hx.symm.trans hanswer

end

/-- An engine that begins with a fetch, works its cascade off in memory and concludes with what ends
as its calls say attributes its ends to the calls. -/
theorem attributes_of_orchestration {d : Decider P.Input S E R} {g : Saga E P.Input}
    {limit : DepthLimit} {e : Engine P (Failure P.Input R) P.Input P.Ack} (began : Note)
    {begin : P.Read → Checked T} {start : T → S} {state : P.Read → Checked S}
    (embed : Orchestration P.Input S E → T → e.Pending)
    (conclude : P.Input → T → S → Program P (Failure P.Input R) P.Ack)
    (hstart : ∀ c, e.start c =
      opening began c (.fetchFailed c) begin fun t => embed ⟨c, start t, .start c⟩ t)
    (hresume : ∀ run t, e.resume (embed run t) =
      run.round d g limit (embed · t) (conclude run.command t))
    (hstate : ∀ {stored t}, begin stored = .ok t → state stored = .ok (start t))
    (hbegin : d.Answers → ∀ stored, ∃ t, begin stored = .ok t)
    (hconclude : ∀ c t s past, (∀ h ∈ past, h.fails = false) → lastFetched past = some c →
      (conclude c t s).Keeps ((cascadeGrounds d g limit state).contract P.Ack) past) :
    e.Attributes fun _ => cascadeGrounds d g limit state := by
  refine Protocol.Kept.attributes (fun root pending past => ∃ run t stored,
    pending = embed run t ∧ past = [.fetched root (.ok (.ok stored))] ∧ begin stored = .ok t ∧
    Leads d g limit ⟨root, start t, .start root⟩ run) ⟨fun c => ?_, ?_⟩
  · rw [hstart c]
    refine keeps_read_bind trivial (fun stored => ?_) (fun e => .unread (by simp))
      fun x => .fetchBroke (by simp)
    refine keeps_ofChecked_bind (fun t ht => ⟨_, t, stored, rfl, rfl, ht, .refl⟩) fun x hx => ?_
    refine .own (by simp [Happening.fails]) (.of_holds (fun _ _ => id) (.inl fun hd => ?_))
    obtain ⟨t, ht⟩ := hbegin hd stored
    cases hx.symm.trans ht
  · rintro root _ _ ⟨run, t, stored, rfl, rfl, ht, hleads⟩
    have hread : ∀ h ∈ [(.fetched root (.ok (.ok stored)) : Happening P)], h.fails = false := by
      simp [Happening.fails]
    have hown : ∀ o : Outcome (Failure P.Input R) P.Ack,
        (cascadeGrounds d g limit state).Holds o [.fetched root (.ok (.ok stored))] →
        (cascadeGrounds d g limit state).Explains o [.fetched root (.ok (.ok stored))] :=
      fun o ho => .own hread (.of_holds (fun _ _ => id) ho)
    rw [hresume run t, Orchestration.round]
    refine keeps_orchestration_bind (keeps_bind.mpr ?_)
      (fun hnext hallowed hattempt hevolve => ?_) (fun hnext hdeep => ?_)
      (fun hnext hallowed hattempt => ?_) fun hbroken => hown _ hbroken
    · refine (hconclude run.command t run.state _ hread ?_).mono (fun _ _ _ => trivial) ?_
      · rw [hleads.command]
        rfl
      · intro o past ho
        cases o <;> exact ho
    · obtain ⟨hopen, hdecide⟩ := Decider.attempt_eq_ok.mp hattempt
      exact ⟨_, t, stored, rfl, rfl, ht, hleads.step hnext hallowed hopen hdecide hevolve⟩
    · exact hown _ ⟨hdeep, run.state, root, stored, start t, run, _, _, rfl, hstate ht, hleads, rfl,
        hnext⟩
    · refine hown _ (.cascading (Decider.holds_of_attempt ?_ hattempt) fun _ _ _ => id)
      exact ⟨_, hallowed, root, stored, start t, run, _, _, rfl, hstate ht, hleads, rfl, hnext⟩

/-- A write of what a call has come to ends as the store answers it. -/
theorem keeps_save_contract {P : Exchange} {g : Grounds P R} {data : P.Write} {c : P.Input}
    {past : List (Happening P)} (hpast : ∀ h ∈ past, h.fails = false)
    (hlast : lastFetched past = some c) :
    (save data (.storeFailed c)).Keeps (g.contract P.Ack) past := by
  refine ⟨trivial, fun reply => ?_, fun x => .writeBroke hpast⟩
  cases reply with
  | error e => exact .unsaved hpast hlast
  | ok ack => exact .written ack hpast

theorem orchestrating_attributes (d : Decider C S E R) (g : Saga E C) (limit : DepthLimit) :
    (orchestrating d g limit).Attributes fun _ => cascadeGrounds d g limit d.current := by
  refine attributes_of_orchestration (.began .stateStoredOrchestrating) (fun run _ => run)
    (fun c _ s => conclude c s) (fun _ => rfl) (fun run _ => resume_orchestrating d g limit run) id
    (fun hd stored => hd.current stored) fun c _ s past hpast hlast => ?_
  refine keeps_unnoted.mp ?_
  rw [conclude, unnoted_save_tell]
  exact keeps_save_contract hpast hlast

theorem lockingOrchestrating_attributes (d : Decider C S E R) (g : Saga E C) (limit : DepthLimit) :
    (lockingOrchestrating d g limit).Attributes fun _ =>
      cascadeGrounds d g limit (slotState d.initial) := by
  refine attributes_of_orchestration (.began .stateStoredLockingOrchestrating)
    (fun run t => (run, t.2)) (fun c t s => concludeLocking c t.2 s) (fun _ => rfl)
    (fun run t => resume_lockingOrchestrating d g limit run t.2) slotState_of_storedOr
    (fun hd stored => exists_storedOr hd.initial stored)
    fun c t s past hpast hlast => ⟨trivial, fun asked => ?_⟩
  refine keeps_unnoted.mp ?_
  show (saveLocking c s (asked.getD (.ofCurrent t.2))).unnoted.Keeps _ _
  rw [saveLocking, unnoted_save]
  exact keeps_save_contract (List.forall_mem_cons.mpr ⟨rfl, hpast⟩) hlast

end StateStored

/-! ## All engines -/

/-- **Failures name their step.** Whatever the stores answer, the end of an item and the calls that
were made for it tell of each other, for every engine: a failed fetch or write is named, with its
error and input, exactly where it is the last call; nothing follows a call that failed; and any
other failure is grounded in what the machines make of the state that was read or led to. The
engines that do not orchestrate come to an end with every item. -/
theorem failures_name_their_step (d : Decider C S E R) (g : Saga E C) (v : View S' E')
    (limit : DepthLimit) :
    ((EventSourced.plain d).Settles ∧
      (EventSourced.plain d).Attributes fun _ => d.grounds (TriedOn d.replay)) ∧
    ((EventSourced.locking d).Settles ∧
      (EventSourced.locking d).Attributes fun _ => d.grounds (TriedOn d.replayLocked)) ∧
    ((EventSourced.orchestrating d g limit).Attributes fun _ =>
      EventSourced.cascadeGrounds d g limit d.replay) ∧
    ((EventSourced.lockingOrchestrating d g limit).Attributes fun _ =>
      EventSourced.cascadeGrounds d g limit d.replayLocked) ∧
    ((StateStored.plain d).Settles ∧
      (StateStored.plain d).Attributes fun _ => d.grounds (TriedOn d.current)) ∧
    ((StateStored.locking d).Settles ∧
      (StateStored.locking d).Attributes fun _ => d.grounds (TriedOn (slotState d.initial))) ∧
    ((StateStored.deduplicating d).Settles ∧
      (StateStored.deduplicating d).Attributes fun item =>
        (d.grounds (TriedOn (slotState d.initial))).numbered d.initial item.2) ∧
    ((StateStored.orchestrating d g limit).Attributes fun _ =>
      StateStored.cascadeGrounds d g limit d.current) ∧
    ((StateStored.lockingOrchestrating d g limit).Attributes fun _ =>
      StateStored.cascadeGrounds d g limit (slotState d.initial)) ∧
    ((Projection.plain v).Settles ∧ (Projection.plain v).Attributes fun _ => v.grounds) ∧
    ((Projection.locking v).Settles ∧ (Projection.locking v).Attributes fun _ => v.grounds) ∧
    ((Projection.deduplicating v).Settles ∧
      (Projection.deduplicating v).Attributes fun item => v.grounds.numbered v.initial item.2) :=
  ⟨EventSourced.plain_attributes d, EventSourced.locking_attributes d,
    EventSourced.orchestrating_attributes d g limit,
    EventSourced.lockingOrchestrating_attributes d g limit, StateStored.plain_attributes d,
    StateStored.locking_attributes d, StateStored.deduplicating_attributes d,
    StateStored.orchestrating_attributes d g limit,
    StateStored.lockingOrchestrating_attributes d g limit, Projection.plain_attributes v,
    Projection.locking_attributes v, Projection.deduplicating_attributes v⟩

/-- A booking whose write is refused at its version tells of that write. In memory, four is added
up to nineteen and three to twenty-two; so two, which comes next, finds the sum terminal, and it is
that sum that its failure tells of. -/
theorem refused_write_named :
    let b := (Store.lockedStates Account.layout (.faithful : Intake _ _ Empty) fun _ _ =>
      none).failing [⟨.save, none, .versionMismatch .noStream (some ⟨3⟩)⟩] .save
    (∃ r, (StateStored.locking Account.decider).handle b 0 (1, 5) (.empty, .zero) = some r ∧
      r.outcome = .failed (.storeFailed (1, 5) (.versionMismatch .noStream (some ⟨3⟩))) ∧
      ∃ data, (calls r.transcript).reverse.head? =
        some (.wrote data (.ok (.error (.versionMismatch .noStream (some ⟨3⟩)))))) ∧
    ∃ r, (StateStored.orchestrating .summing .countdown .unlimited).handle Backend.slot 3 4
        (some 15) = some r ∧ r.outcome = .failed (.terminal 2) ∧
      ∃ sum depth, StateStored.Due (P := Exchange.states Nat Nat) .summing .countdown .unlimited
        Decider.summing.current 2 depth sum (calls r.transcript).reverse ∧
        Decider.summing.isTerminal 2 sum = .ok true := by
  intro b
  obtain ⟨-, -, -, -, -, ⟨-, hlocking⟩, -⟩ := failures_name_their_step Account.decider
    (.empty : Saga Account.Entry Account.Entry) Account.view .unlimited
  obtain ⟨-, -, -, -, -, -, -, horchestrating, -⟩ :=
    failures_name_their_step .summing .countdown Account.view .unlimited
  refine ⟨⟨_, rfl, rfl, ?_⟩, _, rfl, rfl, ?_⟩
  · have hfailed := (hlocking.run b 0 (1, 5) (.empty, .zero) _ rfl).storeFailed
      (.versionMismatch .noStream (some ⟨3⟩))
    rcases hfailed.mp ⟨_, rfl⟩ with hwrote | ⟨_, _, -, hrefused⟩
    · exact hwrote
    · exact hrefused.elim
  · obtain ⟨-, sum, ⟨depth, -, hdue⟩, hterminal⟩ :=
      (horchestrating.run Backend.slot 3 4 (some 15) _ rfl).terminal 2 rfl
    exact ⟨sum, depth, hdue, hterminal⟩

/-- On top of the largest number a delivery that is not the next one is neither taken nor refused:
no failure tells of it. -/
theorem replay_ends_untold :
    ¬ ∃ r, (StateStored.deduplicating Account.decider).handle Backend.numberedSlot 0
      ((1, 2), ⟨7⟩) (some ((1, 1), ⟨18446744073709551615⟩)) = some r ∧
        ((∃ answer, r.outcome = .done answer) ∨ ∃ e, r.outcome = .failed e) := by
  rintro ⟨r, hr, hended⟩
  cases hr
  rcases hended with ⟨answer, h⟩ | ⟨e, h⟩ <;> cases h

end EventMachines
