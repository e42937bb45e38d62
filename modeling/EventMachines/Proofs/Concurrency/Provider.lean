import EventMachines.Proofs.Cascade.Rounds
import EventMachines.Proofs.Concurrency.Freshness

/-!
Asking for the version to expect. Both locking engines with a cascade may ask a provider which
version to name, and a provider may tell the truth every time. The engine over events asks before it
fetches, so the version is no newer than what it decides on. The engine over states asks when its
cascade has ended, so the version may be newer than the state it started from.

* `groundedProtocol`, `arrivingProtocol`: what the two engines know when they write;
* `truthful_provider`: over events, every save was decided on the stream as it stood; over states,
  exactly if the version named is the one fetched;
* `overwritten_by_truthful_provider`: two calls where it is not, and a booking is lost.
-/

namespace EventMachines

open Cascade

variable {C S E R K A T : Type}

/-! ## Over events -/

namespace EventSourced

/-- When it writes, a call has just fetched the history it decided on, and if it names another
version, it was told that version right before. -/
def groundedProtocol (d : Decider C S E R) (g : Saga E C) (limit : DepthLimit) :
    Protocol (lockingOrchestrating d g limit) where
  may _
    | .fetch _, _ => True
    | .write (events, expected), past => ∃ c history older asked,
      past = .fetched c (.ok (.ok history)) :: older ∧ d.Decides c history events ∧
      expected = asked.getD (.ofCurrent (lastVersion history)) ∧
      ∀ v, asked = some v → ∃ before, older = .consulted c (some v) :: before
    | .consult _, _ => True
  ends _ _ _ := True
  waits _ _ _ := True

theorem lockingOrchestrating_kept (d : Decider C S E R) (g : Saga E C) (limit : DepthLimit) :
    (groundedProtocol d g limit).Kept where
  start _ := trivial
  resume root k past _ := by
    have hexecute : ∀ c asked past (f : List (E × Version) → Program _ (Failure C R) _),
        (∀ v, asked = some v → ∃ before, past = .consulted c (some v) :: before) →
        (∀ saved past, (f saved).Keeps ((groundedProtocol d g limit).round root) past) →
        (executeLocking d c asked).Keeps
          (((groundedProtocol d g limit).round root).before f) past := by
      intro c asked past f hasked hf
      refine keeps_executeLocking trivial ?_ ?_ ?_
      · intro history events hdecides
        exact ⟨c, history, past, asked, rfl, hdecides, rfl, hasked⟩
      · intro data saved later _
        exact hf saved _
      · intro o later _ _ _
        cases o with
        | done saved => exact hf saved _
        | failed e => trivial
        | broken x => trivial
    have hresume : (lockingOrchestrating d g limit).resume k = _ :=
      resume_lockingOrchestrating d g limit k
    rw [hresume]
    unfold Cascade.round
    refine keeps_advance_bind (fun events _ => trivial) (fun c depth derived rest _ _ => ?_)
      (fun _ _ _ _ _ _ => trivial) (fun _ => trivial)
    refine Program.keeps_bind.mpr ?_
    unfold executeAt
    by_cases hroot : depth = 0
    · rw [if_pos hroot]
      refine ⟨trivial, fun asked => hexecute c asked _ _ ?_ fun _ _ => trivial⟩
      rintro v rfl
      exact ⟨past, rfl⟩
    · rw [if_neg hroot]
      exact hexecute c none past _ nofun fun _ _ => trivial

end EventSourced

/-! ## Over states -/

/-- The cascade of the command takes one state to the other. -/
def Decider.Arrives (d : Decider C S E R) (g : Saga E C) (limit : DepthLimit) (c : C)
    (s s' : S) : Prop :=
  ∃ fuel j, drive limit g.react d.inMemory fuel (.start c) s = some j ∧ j.arrival = .done s'

/-- From where a cascade is it goes on as from where it began. -/
def Decider.Underway (d : Decider C S E R) (g : Saga E C) (limit : DepthLimit) (c : C) (s : S)
    (k : Cascade C E) (now : S) : Prop :=
  ∃ rounds visits, ∀ fuel j, drive limit g.react d.inMemory fuel k now = some j →
    drive limit g.react d.inMemory (rounds + fuel) (.start c) s = some (j.after [] visits)

section

variable {d : Decider C S E R} {g : Saga E C} {limit : DepthLimit} {c : C} {s now : S}
  {k : Cascade C E}

theorem underway_start : d.Underway g limit c s (.start c) s := by
  refine ⟨0, [], fun fuel j hj => ?_⟩
  rw [Nat.zero_add, hj]
  rcases j with ⟨o, w, visits⟩
  cases o <;> rfl

theorem Decider.Underway.step (h : d.Underway g limit c s k now) {c' : C} {depth derived : Nat}
    {rest : Cascade C E} {events : List E} {next : S}
    (hnext : k.next g.react = .ok (.command c' depth derived rest))
    (hallowed : limit.allows depth = true) (hattempt : d.attempt c' now = .ok (.ok events))
    (hevolve : d.evolveAll now events = .ok next) :
    d.Underway g limit c s (rest.push events depth) next := by
  obtain ⟨rounds, visits, h⟩ := h
  refine ⟨rounds + 1, visits ++ [⟨c', depth, .done events⟩], fun fuel j hj => ?_⟩
  have hexec : d.inMemory c' depth now = (.done events, next) := by
    simp [inMemory, hattempt, hevolve]
  have hdrive := h (fuel + 1) (j.after [] [⟨c', depth, .done events⟩]) (by
    rw [drive_allowed limit g.react _ fuel hnext hallowed, Trip.execute_done _ hexec, hj]
    rfl)
  rw [Nat.add_right_comm, Nat.add_assoc, hdrive, Journey.after_after]
  rfl

theorem Decider.Underway.arrives (h : d.Underway g limit c s k now) {outputs : List E}
    (hnext : k.next g.react = .ok (.finished outputs)) : d.Arrives g limit c s now := by
  obtain ⟨rounds, visits, h⟩ := h
  refine ⟨rounds + 1, _, h 1 ⟨.done outputs, now, []⟩ ?_, rfl⟩
  rw [drive, hnext]
  rfl

end

namespace StateStored

/-- When it writes, a call knows the state it started from and what it was told afterwards, and the
state it writes is the one its cascade ended in. -/
def arrivingProtocol (d : Decider C S E R) (g : Saga E C) (limit : DepthLimit) :
    Protocol (lockingOrchestrating d g limit) where
  may c
    | .fetch i, past => i = c ∧ past = []
    | .write (s', expected), past => ∃ stored s version asked,
      past = [.consulted c asked, .fetched c (.ok (.ok stored))] ∧
      storedOr d.initial stored = .ok (s, version) ∧ d.Arrives g limit c s s' ∧
      expected = asked.getD (.ofCurrent version)
    | .consult i, _ => i = c
  ends _ _ _ := True
  waits c
    | (run, version), past => run.command = c ∧ ∃ stored s, past = [.fetched c (.ok (.ok stored))] ∧
      storedOr d.initial stored = .ok (s, version) ∧
      d.Underway g limit c s run.cascade run.state

theorem lockingOrchestrating_kept (d : Decider C S E R) (g : Saga E C) (limit : DepthLimit) :
    (arrivingProtocol d g limit).Kept := by
  refine lockingOrchestrating_keeps (fun _ => ⟨rfl, rfl⟩) (fun _ _ _ _ => trivial) ?begin ?next
    (fun _ _ _ => trivial) (fun hwaits _ => hwaits.1) ?write (fun _ _ _ _ _ => trivial)
  case begin =>
    exact fun c stored s version hstored => ⟨rfl, stored, s, rfl, hstored, underway_start⟩
  case next =>
    rintro root run version past c depth derived rest events s ⟨rfl, stored, begun, hpast, hstored,
      hunderway⟩ hnext hallowed hattempt hevolve
    exact ⟨rfl, stored, begun, hpast, hstored, hunderway.step hnext hallowed hattempt hevolve⟩
  case write =>
    rintro root run version past events ⟨rfl, stored, begun, rfl, hstored, hunderway⟩ hnext asked
    exact ⟨stored, begun, version, asked, rfl, hstored, hunderway.arrives hnext, rfl⟩

end StateStored

/-! ## What a provider is good for -/

section

variable [DecidableEq K] {d : Decider C S E R} {g : Saga E C} {limit : DepthLimit}
  {layout : Layout K C E S}

/-- The next step of the task changes nothing, or it adds to a stream what a command decides on
exactly that stream, which is also what the task has just fetched. -/
def EventSourced.Guarded (d : Decider C S E R) (g : Saga E C) (limit : DepthLimit)
    (layout : Layout K C E S) (b : Backend (Exchange.lockedEvents C E) (Store K E S A))
    (s : System (lockingOrchestrating d g limit) (Store K E S A)) (i : Nat) : Prop :=
  s.IdlesAt b i ∨ ∃ c events expected saved before,
    past i s.transcript = .fetched c (.ok (.ok (s.world.stream (layout.ofInput c)))) :: before ∧
    d.Decides c (s.world.stream (layout.ofInput c)) events ∧ saved.map (·.1) = events ∧
    s.SavesAt b i (events, expected) saved (s.world.extend (layout.ofInput c) saved)

/-- The next step of the task changes nothing, or it replaces the slot of its command by what the
cascade makes of the state it fetched. The slot is as it was when its version was asked for, and it
holds what was fetched exactly if the save names the version that was fetched. -/
def StateStored.Guarded (d : Decider C S E R) (g : Saga E C) (limit : DepthLimit)
    (layout : Layout K C E S) (b : Backend (Exchange.lockedStates C S) (Store K E S A))
    (items : List (Checked C)) (st : Store K E S A)
    (s : System (lockingOrchestrating d g limit) (Store K E S A)) (i : Nat) : Prop :=
  s.IdlesAt b i ∨ ∃ c stored begun version asked ended saved,
    items[i]? = some (.ok c) ∧
    past i s.transcript = [.consulted c asked, .fetched c (.ok (.ok stored))] ∧
    storedOr d.initial stored = .ok (begun, version) ∧ d.Arrives g limit c begun ended ∧
    s.SavesAt b i (ended, asked.getD (.ofCurrent version)) saved
      (s.world.putSlot (layout.ofInput c) ended saved.2.number) ∧
    (asked.isSome → ∃ atConsult, (i, .consulted c asked) :: atConsult <:+ s.transcript ∧
      (worldAfter b st atConsult).slot (layout.ofInput c) = s.world.slot (layout.ofInput c)) ∧
    (Store.held (s.world.slot (layout.ofInput c)) = stored ↔
      asked.getD (.ofCurrent version) = .ofCurrent version)

theorem EventSourced.guarded (hroutes : layout.Routes d)
    {latest : C → Store K E S A → Option ExpectedVersion}
    (htruthful : ∀ c st v, latest c st = some v →
      v = .ofCurrent (st.streamVersion (layout.ofInput c)))
    (items : List (Checked C)) (st : Store K E S A) (schedule : List Nat) (i : Nat) :
    let b := Store.lockedEvents layout .faithful latest
    EventSourced.Guarded d g limit layout b
      ((System.start (lockingOrchestrating d g limit) items st).run b schedule) i := by
  intro b
  let s := (System.start (lockingOrchestrating d g limit) items st).run b schedule
  refine (System.rests_or_saves (lockingOrchestrating_kept d g limit) id
    (fun _ _ => happening_events) items st schedule i).imp_right ?_
  rintro ⟨⟨events, expected⟩, saved, w, hsaves, hworld, ⟨-, hrecorded⟩, hnext⟩
  obtain ⟨root, -, c, history, older, asked, hpast, hdecides, rfl, hasked⟩ :=
    hnext i _ _ _ List.suffix_rfl rfl
  obtain ⟨hversion, htake, hwrite⟩ := wrote_events hroutes hdecides (congrArg Prod.fst hsaves.1)
  obtain rfl : _ = w := (Prod.mk.inj (hwrite.symm.trans hsaves.1)).2
  have hcurrent : s.world.stream (layout.ofInput c) = history := by
    rw [hworld] at hversion ⊢
    cases asked with
    | none =>
      rw [Option.getD_none, ExpectedVersion.toCurrent_ofCurrent] at hversion
      exact stream_of_fetched hrecorded hpast hversion
    | some v =>
      obtain ⟨before, rfl⟩ := hasked v rfl
      exact stream_of_consulted htruthful hrecorded hpast hversion
  refine ⟨c, events, _, saved, older, ?_, ?_, Intake.faithful_take htake, hsaves⟩
  · rw [hcurrent]
    exact hpast
  · rw [hcurrent]
    exact hdecides

theorem StateStored.guarded
    (harrives : ∀ c s s', d.Arrives g limit c s s' → layout.ofState s' = layout.ofInput c)
    {latest : C → Store K E S A → Option ExpectedVersion}
    (htruthful : ∀ c st v, latest c st = some v →
      v = .ofCurrent (Store.slotVersion (st.slot (layout.ofInput c))))
    (items : List (Checked C)) (st : Store K E S A) (schedule : List Nat) (i : Nat) :
    let b := Store.lockedStates layout .faithful latest
    StateStored.Guarded d g limit layout b items st
      ((System.start (lockingOrchestrating d g limit) items st).run b schedule) i := by
  intro b
  let s := (System.start (lockingOrchestrating d g limit) items st).run b schedule
  refine (System.rests_or_saves (lockingOrchestrating_kept d g limit) id
    (fun _ _ => happening_states) items st schedule i).imp_right ?_
  rintro ⟨⟨ended, expected⟩, saved, w, hsaves, hworld, ⟨-, hrecorded⟩, hnext⟩
  obtain ⟨c, hitem, stored, begun, version, asked, hpast, hstored, hends, rfl⟩ :=
    hnext i _ _ _ List.suffix_rfl rfl
  obtain ⟨hversion, -, hwrite⟩ := wrote_state (congrArg Prod.fst hsaves.1)
  have hkey := harrives c begun ended hends
  rw [hkey] at hversion hwrite
  obtain rfl : _ = w := (Prod.mk.inj (hwrite.symm.trans hsaves.1)).2
  obtain ⟨atConsult, hconsult, hbefore⟩ := exists_of_past hpast
  obtain ⟨atFetch, hfetch, -⟩ := exists_of_past hbefore
  refine ⟨c, stored, begun, version, asked, ended, saved, hitem, hpast, hstored, hends, hsaves,
    ?_, ?_⟩
  · intro hasked
    obtain ⟨v, rfl⟩ := Option.isSome_iff_exists.mp hasked
    rw [hworld] at hversion ⊢
    exact ⟨atConsult, hconsult, slot_of_consulted htruthful hrecorded hconsult hversion⟩
  · have hread := slot_of_fetched hrecorded (hfetch.trans ((List.suffix_cons _ _).trans hconsult))
    rw [← hworld, storedOr_token hstored, ← hversion] at hread
    rw [hread]
    constructor
    · intro hsame
      exact ((congrArg ExpectedVersion.ofCurrent hsame).trans
        (ExpectedVersion.ofCurrent_toCurrent _)).symm
    · intro hsame
      rw [hsame, ExpectedVersion.toCurrent_ofCurrent]

/-- **Truthful providers.** Let what a command decides, and the state its cascade ends in, belong to
what the command is decided on, and let the providers tell the version at the moment, if any. In
every order of steps the engine over events saves only what was decided on exactly the stream as it
stands. The engine over states does so exactly where the version that a save names is the one that
was fetched: it asks too late to learn of a save between the fetch and the question. -/
theorem truthful_provider (hroutes : layout.Routes d)
    (harrives : ∀ c s s', d.Arrives g limit c s s' → layout.ofState s' = layout.ofInput c)
    {ofStream ofSlot : C → Store K E S A → Option ExpectedVersion}
    (hstream : ∀ c st v, ofStream c st = some v →
      v = .ofCurrent (st.streamVersion (layout.ofInput c)))
    (hslot : ∀ c st v, ofSlot c st = some v →
      v = .ofCurrent (Store.slotVersion (st.slot (layout.ofInput c))))
    (items : List (Checked C)) (st : Store K E S A) (schedule : List Nat) (i : Nat) :
    let streams := Store.lockedEvents layout .faithful ofStream
    let slots := Store.lockedStates layout .faithful ofSlot
    EventSourced.Guarded d g limit layout streams
        ((System.start (EventSourced.lockingOrchestrating d g limit) items st).run streams schedule)
        i ∧
      StateStored.Guarded d g limit layout slots items st
        ((System.start (StateStored.lockingOrchestrating d g limit) items st).run slots schedule)
        i :=
  ⟨EventSourced.guarded hroutes hstream items st schedule i,
    StateStored.guarded harrives hslot items st schedule i⟩

end

/-! ## Bookings -/

namespace Account

/-- Tells the version that the stream of an account has at the moment. -/
def streamVersion (c : Entry) (st : Store Nat Entry Entry A) : Option ExpectedVersion :=
  some (.ofCurrent (st.streamVersion c.1))

/-- Tells the version that the balance of an account has at the moment. -/
def slotVersion (c : Entry) (st : Store Nat Entry Entry A) : Option ExpectedVersion :=
  some (.ofCurrent (Store.slotVersion (st.slot c.1)))

theorem arrives (c s s' : Entry)
    (h : decider.Arrives .empty .unlimited c s s') :
    layout.ofState s' = layout.ofInput c := by
  obtain ⟨fuel, j, hj, hend⟩ := h
  cases fuel with
  | zero => simp [drive] at hj
  | succ fuel =>
    rw [drive_allowed .unlimited Saga.empty.react _ fuel (rfl : (start c).next _ = _) rfl] at hj
    by_cases hsmall : c.2 ≤ 1000
    · have hexec : decider.inMemory c 0 s = (.done [c], (c.1, s.2 + c.2)) := by
        simp [Decider.inMemory, Decider.attempt, decider, Decider.total, hsmall]
        rfl
      rw [Trip.execute_done _ hexec] at hj
      obtain ⟨k, hk, rfl⟩ := Option.map_eq_some_iff.mp hj
      cases fuel with
      | zero => simp [drive] at hk
      | succ fuel =>
        obtain rfl := Option.some.inj hk
        obtain rfl := Outcome.done.inj hend
        rfl
    · have hexec : decider.inMemory c 0 s = (.failed (.rejected c "too much"), s) := by
        simp [Decider.inMemory, Decider.attempt, decider, Decider.total, hsmall]
        rfl
      rw [Trip.execute_failed _ hexec] at hj
      obtain rfl := Option.some.inj hj
      cases hend

end Account

theorem bookings_guarded :
    let streams := Store.lockedEvents Account.layout .faithful Account.streamVersion
    let slots := Store.lockedStates Account.layout .faithful Account.slotVersion
    EventSourced.Guarded Account.decider .empty .unlimited Account.layout streams
        ((System.start (EventSourced.lockingOrchestrating Account.decider .empty .unlimited)
          [.ok (1, 5), .ok (1, 7)] (.empty : Store Nat Account.Entry Account.Entry Empty)).run streams
          [0, 0, 0, 1, 1, 1, 1, 1, 0, 0]) 0 ∧
      StateStored.Guarded Account.decider .empty .unlimited Account.layout slots
        [.ok (1, 5), .ok (1, 7)] .empty
        ((System.start (StateStored.lockingOrchestrating Account.decider .empty .unlimited)
          [.ok (1, 5), .ok (1, 7)] (.empty : Store Nat Account.Entry Account.Entry Empty)).run slots
          [0, 0, 0, 1, 1, 1, 1, 1, 0, 0]) 0 :=
  truthful_provider Account.routes Account.arrives (by rintro c st v ⟨⟩; rfl)
    (by rintro c st v ⟨⟩; rfl) _ _ _ _

/-- Both calls fetch, one of them books, and the other learns of the version of that booking but not
of the booking. -/
theorem overwritten_by_truthful_provider :
    let b := Store.lockedStates Account.layout .faithful Account.slotVersion
    let s := (System.start (StateStored.lockingOrchestrating Account.decider .empty .unlimited)
      [.ok (1, 5), .ok (1, 7)] (.empty : Store Nat Account.Entry Account.Entry Empty)).run b
      ([0, 0] ++ List.replicate 12 1 ++ List.replicate 4 0)
    past 0 s.transcript = [.consulted (1, 5) (some (.exact ⟨1⟩)), .fetched (1, 5) (.ok (.ok none))] ∧
      s.world.slot 1 = some ((1, 7), 1) ∧ (s.step b 0).world.slot 1 = some ((1, 5), 2) :=
  ⟨rfl, rfl, rfl⟩

end EventMachines
