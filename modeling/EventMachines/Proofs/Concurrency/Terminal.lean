import EventMachines.Proofs.Concurrency.Stored
import EventMachines.Proofs.Machine.Part
import EventMachines.Proofs.Orchestration.Atomicity
import EventMachines.Sample.Countdown

/-!
Terminal states under calls at the same time. Whether a state is terminal is asked of the state that
a call fetched, and that may be an old one. But what is saved was decided on what is stored right
before. So once a part of a decider is terminal in what is stored, nothing of it is saved any more,
by no call, however early that call fetched.

* `Part.own_of_terminal`: in a state that is terminal for a part, no command decides an event of it;
* `Part.state_of_turns`, `Part.state_of_arrives`: neither a command nor a whole cascade in memory
  changes the state of such a part;
* `Part.freezesStream`, `Part.freezesSlot`: so calls at the same time leave the part as it is, and
  without other parts they write nothing (`closesStream`, `closesSlot`);
* `terminal_halves_stay_frozen`: the four locking engines, over combined deciders and over one.
-/

namespace EventMachines

open Cascade

variable {P : Exchange} {C C' S S' E E' I R W T F K A α ε ω : Type}

/-! ## Terminal states -/

theorem Decider.attempt_withTerminal {d : Decider C S E R} {p : S → Checked Bool} {s : S}
    (hp : p s = .ok true) (c : C) :
    (d.withTerminal p).attempt c s = .ok (.error (.terminal c)) :=
  Decider.attempt_eq_error.mpr (.inl ⟨hp, rfl⟩)

/-- A cascade in memory that comes to an end began with a command that was accepted. -/
theorem Decider.attempt_of_arrives {d : Decider C S E R} {g : Saga E C} {limit : DepthLimit} {c : C}
    {s s' : S} (h : d.Arrives g limit c s s') : ∃ events, d.attempt c s = .ok (.ok events) := by
  obtain ⟨fuel, j, hj, harrival⟩ := h
  cases fuel with
  | zero => simp [drive] at hj
  | succ fuel =>
    have hnext : (start c).next g.react = .ok (.command c 0 0 ⟨[.commands [] 0], []⟩) := rfl
    rw [drive_allowed limit g.react d.inMemory fuel hnext limit.allows_zero] at hj
    rcases hexec : d.inMemory c 0 s with ⟨events | e | x, s''⟩
    · exact ⟨events, Decider.attempt_of_done (congrArg Prod.fst hexec)⟩
    · rw [Trip.execute_failed _ hexec] at hj
      obtain rfl := Option.some.inj hj
      cases harrival
    · rw [Trip.execute_broken _ hexec] at hj
      obtain rfl := Option.some.inj hj
      cases harrival

theorem Journey.world_of_arrival {j : Journey C E R S} {s : S} (h : j.arrival = .done s) :
    j.world = s := by
  rcases j with ⟨o | e | x, w, visits⟩
  · exact Outcome.done.inj h
  · cases h
  · cases h

namespace Decider.Part

variable {x : Decider C S E R} {p : S → Checked Bool} {whole : Decider W T F R}
  (π : (x.withTerminal p).Part whole) {g : Saga F W} {limit : DepthLimit} {w : W} {t t' : T}

/-- In a state that is terminal for the part, no command decides an event of the part. -/
theorem own_of_terminal (hp : p (π.state t) = .ok true) {events : List F}
    (h : whole.attempt w t = .ok (.ok events)) : events.filterMap π.event? = [] := by
  rcases hw : π.command? w with _ | c
  · exact π.attempt_foreign hw h
  · obtain rfl := π.eq_command hw
    rw [π.attempt_own, Decider.attempt_withTerminal hp] at h
    cases h

/-- Events of other parts leave the part as it is. -/
theorem state_of_foreign {events : List F} (hforeign : events.filterMap π.event? = [])
    (h : whole.evolveAll t events = .ok t') : π.state t' = π.state t := by
  have hown := π.evolveAll h
  rw [hforeign] at hown
  exact (Except.ok.inj hown).symm

theorem state_of_turns (hp : p (π.state t) = .ok true) (h : whole.Turns w t t') :
    π.state t' = π.state t := by
  obtain ⟨events, hterminal, hdecide, hevolve⟩ := h
  have hattempt := Decider.attempt_eq_ok.mpr ⟨hterminal, hdecide⟩
  exact π.state_of_foreign (π.own_of_terminal hp hattempt) hevolve

theorem state_of_inMemory (hp : p (π.state t) = .ok true) (w : W) (depth : Nat) :
    π.state (whole.inMemory w depth t).2 = π.state t := by
  refine π.state_of_foreign ?_ (whole.inMemory_evolves w depth t)
  rcases hend : (whole.inMemory w depth t).1 with events | e | x
  · exact π.own_of_terminal hp (Decider.attempt_of_done hend)
  · rfl
  · rfl

/-- The part stays as it is through every command of a cascade, so also after the last one. -/
theorem state_of_arrives (hp : p (π.state t) = .ok true) (h : whole.Arrives g limit w t t') :
    π.state t' = π.state t := by
  obtain ⟨fuel, j, hj, harrival⟩ := h
  obtain rfl := Journey.world_of_arrival harrival
  refine drive_visits (I := fun t _ t' => p (π.state t) = .ok true → π.state t' = π.state t)
    limit g.react (fun _ _ => rfl) ?_ hj hp
  intro c depth t visits t' hrest hp
  have hkept := π.state_of_inMemory hp c depth
  rw [← hkept] at hp
  exact (hrest hp).trans hkept

end Decider.Part

/-! ## What stays -/

section

variable {x : Decider C S E R} {p : S → Checked Bool} {whole : Decider W T F R}

/-- One history is the other with events of other parts at its end. -/
def Decider.Part.Spared {part : Decider C S E R} (π : part.Part whole)
    (before now : List (F × Version)) : Prop :=
  ∃ added, now = before ++ added ∧ (added.map (·.1)).filterMap π.event? = []

/-- Once the part is terminal in what the stream leads to, no event of it is appended any more, and
the stream leads to the same state of the part for ever. -/
def Decider.Part.FreezesStream (π : (x.withTerminal p).Part whole)
    (e : Engine (Exchange.lockedEvents W F) ε W (List (F × Version)))
    (b : Backend (Exchange.lockedEvents W F) ω) (stream : ω → List (F × Version)) : Prop :=
  ∀ (items : List (Checked W)) (w : ω) (schedule later : List Nat) (t : T),
    let s := (System.start e items w).run b schedule
    let now := stream (s.run b later).world
    whole.replay ((stream s.world).map (·.1)) = .ok t → p (π.state t) = .ok true →
    π.Spared (stream s.world) now ∧
      x.replay ((now.map (·.1)).filterMap π.event?) = .ok (π.state t) ∧
      ∀ t', whole.replay (now.map (·.1)) = .ok t' → π.state t' = π.state t

/-- Once the part is terminal in the state of the slot, it has the same state there for ever. -/
def Decider.Part.FreezesSlot (π : (x.withTerminal p).Part whole)
    (e : Engine (Exchange.lockedStates W T) ε W (T × Version))
    (b : Backend (Exchange.lockedStates W T) ω) (slot : ω → Option (T × Version)) : Prop :=
  ∀ (items : List (Checked W)) (w : ω) (schedule later : List Nat) (t : T),
    let s := (System.start e items w).run b schedule
    whole.current ((slot s.world).map (·.1)) = .ok t → p (π.state t) = .ok true →
    ∃ t', whole.current ((slot (s.run b later).world).map (·.1)) = .ok t' ∧ π.state t' = π.state t

end

/-- Once what is stored has come to an end, it stays as it is, and nothing is saved any more. -/
def Engine.Closes (e : Engine P ε I α) (b : Backend P ω) (stored : ω → P.Read)
    (ended : P.Read → Prop) : Prop :=
  ∀ (items : List (Checked I)) (w : ω) (schedule later : List Nat),
    let s := (System.start e items w).run b schedule
    ended (stored s.world) → stored (s.run b later).world = stored s.world ∧
      saves (s.run b later).transcript = saves s.transcript

/-! ## Streams -/

namespace Decider.Part.Spared

variable {part : Decider C S E R} {whole : Decider W T F R} {π : part.Part whole}
  {before now : List (F × Version)} {t t' : T}

theorem refl (before : List (F × Version)) : π.Spared before before :=
  ⟨[], (List.append_nil before).symm, rfl⟩

theorem append (h : π.Spared before now) {saved : List (F × Version)}
    (hforeign : (saved.map (·.1)).filterMap π.event? = []) : π.Spared before (now ++ saved) := by
  obtain ⟨added, rfl, hadded⟩ := h
  refine ⟨added ++ saved, List.append_assoc before added saved, ?_⟩
  rw [List.map_append, List.filterMap_append, hadded, hforeign]
  rfl

/-- The part's own history has stayed, so it leads to the same state. -/
theorem replay (h : π.Spared before now) (hbefore : whole.replay (before.map (·.1)) = .ok t) :
    part.replay ((now.map (·.1)).filterMap π.event?) = .ok (π.state t) := by
  obtain ⟨added, rfl, hadded⟩ := h
  rw [List.map_append, List.filterMap_append, hadded, List.append_nil]
  exact π.replay hbefore

theorem state (h : π.Spared before now) (hbefore : whole.replay (before.map (·.1)) = .ok t)
    (hnow : whole.replay (now.map (·.1)) = .ok t') : π.state t' = π.state t :=
  Except.ok.inj ((π.replay hnow).symm.trans (h.replay hbefore))

end Decider.Part.Spared

theorem Decider.Decides.ne_nil {d : Decider C S E R} (c : C) (history : List (E × Version))
    (write : List E × ExpectedVersion) (h : d.Decides c history write.1) :
    ¬ (Revision.events : Revision (Exchange.lockedEvents C E)).isVoid write := h.1

section

variable {x : Decider C S E R} {p : S → Checked Bool} {whole : Decider W T F R}

/-- The part is where it was as long as it was spared, so it is still terminal when the next batch
is decided, and that batch spares it too. -/
theorem Decider.Part.freezesStream (π : (x.withTerminal p).Part whole)
    {e : Engine (Exchange.lockedEvents W F) ε W (List (F × Version))}
    (he : e.WritesBased .events fun w history write => whole.Decides w history write.1)
    {b : Backend (Exchange.lockedEvents W F) ω} {stream : ω → List (F × Version)}
    (hb : Revision.events.Atomic b stream) (hunasked : ∀ w st, b.consult w st = none) :
    π.FreezesStream e b stream := by
  intro items st schedule later t s now hreplay hp
  have hspared : π.Spared (stream s.world) now := by
    refine hb.run_based hunasked he Decider.Decides.ne_nil (J := π.Spared (stream s.world)) ?_
      schedule later (.refl _)
    rintro w ⟨events, expected⟩ before after hspared ⟨-, t', ht', hattempt⟩ ⟨added, rfl, hadded⟩
    rw [← hspared.state hreplay ht'] at hp
    refine hspared.append ?_
    rw [hadded]
    exact π.own_of_terminal hp hattempt
  exact ⟨hspared, hspared.replay hreplay, fun t' ht' => hspared.state hreplay ht'⟩

theorem Decider.closesStream {e : Engine (Exchange.lockedEvents C E) ε C (List (E × Version))}
    (he : e.WritesBased .events fun c history write =>
      (x.withTerminal p).Decides c history write.1)
    {b : Backend (Exchange.lockedEvents C E) ω} {stream : ω → List (E × Version)}
    (hb : Revision.events.Atomic b stream) (hunasked : ∀ c st, b.consult c st = none) :
    e.Closes b stream fun history =>
      ∃ s, x.replay (history.map (·.1)) = .ok s ∧ p s = .ok true := by
  rintro items st schedule later now ⟨s, hreplay, hp⟩
  refine hb.run_ended hunasked he Decider.Decides.ne_nil schedule later ?_
  rintro c ⟨events, expected⟩ ⟨-, s', hs', hattempt⟩
  obtain rfl : s = s' := Except.ok.inj (hreplay.symm.trans hs')
  rw [Decider.attempt_withTerminal hp] at hattempt
  cases hattempt

end

/-! ## Slots -/

theorem Decider.current_of_storedOr {d : Decider C S E R} {stored : Option (S × Version)} {s : S}
    {version : Option Version} (h : storedOr d.initial stored = .ok (s, version)) :
    d.current (stored.map (·.1)) = .ok s := by
  rw [← first_storedOr, h]
  rfl

section

variable {x : Decider C S E R} {p : S → Checked Bool} {whole : Decider W T F R}

/-- What a call saves is what the state in the slot leads to, so the part stays as it is from save
to save. -/
theorem Decider.Part.freezesSlot (π : (x.withTerminal p).Part whole)
    {e : Engine (Exchange.lockedStates W T) ε W (T × Version)} {leads : W → T → T → Prop}
    (he : Replaces e whole.initial leads)
    (hleads : ∀ {w t t'}, p (π.state t) = .ok true → leads w t t' → π.state t' = π.state t)
    {b : Backend (Exchange.lockedStates W T) ω} {slot : ω → Option (T × Version)}
    (hb : Revision.states.Atomic b slot) (hunasked : ∀ w st, b.consult w st = none) :
    π.FreezesSlot e b slot := by
  intro items st schedule later t s hcurrent hp
  refine hb.run_based hunasked he.based (fun _ _ _ _ hvoid => hvoid)
    (J := fun stored => ∃ t', whole.current (stored.map (·.1)) = .ok t' ∧ π.state t' = π.state t) ?_
    schedule later ⟨t, hcurrent, rfl⟩
  rintro w ⟨t₂, expected⟩ before after ⟨t₁, hbefore, hkept⟩ ⟨t', version, hstored, hnext⟩ ⟨v, rfl⟩
  obtain rfl : t' = t₁ :=
    Except.ok.inj ((Decider.current_of_storedOr hstored).symm.trans hbefore)
  rw [← hkept] at hp
  exact ⟨t₂, rfl, (hleads hp hnext).trans hkept⟩

theorem Decider.closesSlot {e : Engine (Exchange.lockedStates C S) ε C (S × Version)}
    {leads : C → S → S → Prop} (he : Replaces e x.initial leads)
    (hleads : ∀ {c s s'}, p s = .ok true → ¬ leads c s s')
    {b : Backend (Exchange.lockedStates C S) ω} {slot : ω → Option (S × Version)}
    (hb : Revision.states.Atomic b slot) (hunasked : ∀ c st, b.consult c st = none) :
    e.Closes b slot fun stored => ∃ s, x.current (stored.map (·.1)) = .ok s ∧ p s = .ok true := by
  rintro items st schedule later now ⟨s, hcurrent, hp⟩
  refine hb.run_ended hunasked he.based (fun _ _ _ _ hvoid => hvoid) schedule later ?_
  rintro c ⟨s', expected⟩ ⟨s₁, version, hstored, hnext⟩
  obtain rfl : s₁ = s :=
    Except.ok.inj ((Decider.current_of_storedOr hstored).symm.trans hcurrent)
  exact hleads hp hnext

end

/-! ## The four engines -/

theorem Decider.not_turns_withTerminal {d : Decider C S E R} {p : S → Checked Bool} {c : C}
    {s s' : S} (hp : p s = .ok true) : ¬ (d.withTerminal p).Turns c s s' := by
  rintro ⟨events, hterminal, -, -⟩
  have hboth : Except.ok true = Except.ok false := hp.symm.trans hterminal
  cases hboth

theorem Decider.not_arrives_withTerminal {d : Decider C S E R} {p : S → Checked Bool}
    {g : Saga E C} {limit : DepthLimit} {c : C} {s s' : S} (hp : p s = .ok true) :
    ¬ (d.withTerminal p).Arrives g limit c s s' := by
  intro h
  obtain ⟨events, hattempt⟩ := attempt_of_arrives h
  rw [attempt_withTerminal hp] at hattempt
  cases hattempt

/-- **Terminal for good.** Let a store of one stream or one slot check the expected version and
write in one step, and let there be no provider. Two deciders with terminal states of their own run
side by side, in any number of calls at the same time, of one of the locking engines. Once one of
the halves is terminal in what is stored, whatever steps follow, it stays as it is, and on a stream
none of its events is appended: not by the command that a call began with, nor by one that a saga
derived, nor by a call that fetched before. Once a decider on its own is terminal in what is stored,
nothing is saved any more. -/
theorem terminal_halves_stay_frozen (x : Decider C S E R) (p : S → Checked Bool)
    (y : Decider C' S' E' R) (q : S' → Checked Bool) (g : Saga (E ⊕ E') (C ⊕ C')) (g' : Saga E C)
    (limit : DepthLimit) :
    let both := (x.withTerminal p).combine (y.withTerminal q)
    let left := (x.withTerminal p).leftHalf (y.withTerminal q)
    let right := (x.withTerminal p).rightHalf (y.withTerminal q)
    let alone := x.withTerminal p
    (∀ {ω : Type} (b : Backend (Exchange.lockedEvents (C ⊕ C') (E ⊕ E')) ω)
      (stream : ω → List ((E ⊕ E') × Version)),
      Revision.events.Atomic b stream → (∀ c st, b.consult c st = none) →
      (left.FreezesStream (EventSourced.locking both) b stream ∧
        right.FreezesStream (EventSourced.locking both) b stream) ∧
      left.FreezesStream (EventSourced.lockingOrchestrating both g limit) b stream ∧
        right.FreezesStream (EventSourced.lockingOrchestrating both g limit) b stream) ∧
    (∀ {ω : Type} (b : Backend (Exchange.lockedStates (C ⊕ C') (S × S')) ω)
      (slot : ω → Option ((S × S') × Version)),
      Revision.states.Atomic b slot → (∀ c st, b.consult c st = none) →
      (left.FreezesSlot (StateStored.locking both) b slot ∧
        right.FreezesSlot (StateStored.locking both) b slot) ∧
      left.FreezesSlot (StateStored.lockingOrchestrating both g limit) b slot ∧
        right.FreezesSlot (StateStored.lockingOrchestrating both g limit) b slot) ∧
    (∀ {ω : Type} (b : Backend (Exchange.lockedEvents C E) ω) (stream : ω → List (E × Version)),
      let ended := fun history : List (E × Version) =>
        ∃ s, x.replay (history.map (·.1)) = .ok s ∧ p s = .ok true
      Revision.events.Atomic b stream → (∀ c st, b.consult c st = none) →
      (EventSourced.locking alone).Closes b stream ended ∧
        (EventSourced.lockingOrchestrating alone g' limit).Closes b stream ended) ∧
    ∀ {ω : Type} (b : Backend (Exchange.lockedStates C S) ω) (slot : ω → Option (S × Version)),
      let ended := fun stored : Option (S × Version) =>
        ∃ s, x.current (stored.map (·.1)) = .ok s ∧ p s = .ok true
      Revision.states.Atomic b slot → (∀ c st, b.consult c st = none) →
      (StateStored.locking alone).Closes b slot ended ∧
        (StateStored.lockingOrchestrating alone g' limit).Closes b slot ended := by
  intro both left right alone
  have hlocking := EventSourced.locking_based both
  have hcascade := EventSourced.lockingOrchestrating_based both g limit
  have hslot := StateStored.locking_replaces both
  have hmemory := StateStored.lockingOrchestrating_replaces both g limit
  refine ⟨?_, ?_, ?_, ?_⟩
  · intro ω b stream hb hunasked
    refine ⟨⟨?_, ?_⟩, ?_, ?_⟩
    · exact left.freezesStream hlocking hb hunasked
    · exact right.freezesStream hlocking hb hunasked
    · exact left.freezesStream hcascade hb hunasked
    · exact right.freezesStream hcascade hb hunasked
  · intro ω b slot hb hunasked
    refine ⟨⟨?_, ?_⟩, ?_, ?_⟩
    · exact left.freezesSlot hslot left.state_of_turns hb hunasked
    · exact right.freezesSlot hslot right.state_of_turns hb hunasked
    · exact left.freezesSlot hmemory left.state_of_arrives hb hunasked
    · exact right.freezesSlot hmemory right.state_of_arrives hb hunasked
  · intro ω b stream ended hb hunasked
    refine ⟨?_, ?_⟩
    · exact Decider.closesStream (EventSourced.locking_based alone) hb hunasked
    · exact Decider.closesStream (EventSourced.lockingOrchestrating_based alone g' limit) hb
        hunasked
  · intro ω b slot ended hb hunasked
    refine ⟨?_, ?_⟩
    · exact Decider.closesSlot (StateStored.locking_replaces alone)
        Decider.not_turns_withTerminal hb hunasked
    · exact Decider.closesSlot (StateStored.lockingOrchestrating_replaces alone g' limit)
        Decider.not_arrives_withTerminal hb hunasked

/-- Six is enough on the left. The call that adds five there has fetched before, and is refused for
the version; three is added on the right, but the same number that it causes on the left is refused
for the state. With only one sum, in a store that fails its first save, the call that comes too
late saves nothing. -/
theorem full_half_stays_full :
    let enough : Nat → Checked Bool := fun sum => .ok (decide (6 ≤ sum))
    let both := (Decider.summing.withTerminal enough).combine
      (Decider.summing.withTerminal fun _ => .ok false)
    let left := (Decider.summing.withTerminal enough).leftHalf
      (Decider.summing.withTerminal fun _ => .ok false)
    let layout : Layout Unit (Nat ⊕ Nat) (Nat ⊕ Nat) (Nat × Nat) :=
      ⟨fun _ => (), fun _ => (), fun _ => ()⟩
    let streams : Backend _ (Store Unit (Nat ⊕ Nat) (Nat × Nat) Empty) :=
      Store.lockedEvents layout .faithful fun _ _ => none
    let s := (System.start (EventSourced.lockingOrchestrating both .leftwards .unlimited)
      [.ok (.inl 8), .ok (.inl 5), .ok (.inr 3)] .empty).run streams
      (List.replicate 4 1 ++ List.replicate 5 0)
    let later := s.run streams (List.replicate 5 1 ++ List.replicate 20 2)
    let slots : Backend _ (Store Unit Nat Nat Empty × Tally) :=
      (Store.lockedStates .single .faithful fun _ _ => none).failing
        [⟨.save, some 1, .io "disk full"⟩] .save
    let s' := (System.start (StateStored.locking (Decider.summing.withTerminal enough))
      [.ok 4, .ok 5, .ok 8] (.empty, .zero)).run slots
      (List.replicate 2 1 ++ List.replicate 6 0 ++ List.replicate 6 2)
    let later' := s'.run slots (List.replicate 6 1)
    (past 1 s.transcript = [.fetched (.inl 5) (.ok (.ok [])), .consulted (.inl 5) none] ∧
      both.replay ((s.world.stream ()).map (·.1)) = .ok (8, 0) ∧ enough 8 = .ok true ∧
      left.Spared (s.world.stream ()) (later.world.stream ()) ∧
      later.world.stream () = [(.inl 8, ⟨1⟩), (.inr 3, ⟨2⟩)]) ∧
    past 1 s'.transcript = [.fetched 5 (.ok (.ok none))] ∧
    Decider.summing.current ((Store.held (s'.world.1.slot ())).map (·.1)) = .ok 8 ∧
    saves later'.transcript = saves s'.transcript ∧
    past 1 later'.transcript =
      [.wrote (5, .noStream) (.ok (.error (.versionMismatch .noStream (some ⟨1⟩)))),
        .fetched 5 (.ok (.ok none))] := by
  obtain ⟨hstreams, -, -, hslots⟩ := terminal_halves_stay_frozen
    Decider.summing (fun sum => .ok (decide (6 ≤ sum))) Decider.summing (fun _ => .ok false)
    .leftwards .empty .unlimited
  obtain ⟨-, hleft, -⟩ := hstreams _ _ (Store.lockedEvents_atomic (A := Empty)
    ⟨fun _ => (), fun _ => (), fun _ => ()⟩ fun _ _ => none) fun _ _ => rfl
  obtain ⟨hslot, -⟩ := hslots _ _ ((Store.lockedStates_atomic (A := Empty) .single
    fun _ _ => none).failing [⟨.save, some 1, .io "disk full"⟩] .save) fun _ _ => rfl
  refine ⟨⟨rfl, rfl, rfl, ?_, rfl⟩, rfl, rfl, ?_, rfl⟩
  · exact (hleft [.ok (.inl 8), .ok (.inl 5), .ok (.inr 3)] .empty
      (List.replicate 4 1 ++ List.replicate 5 0) (List.replicate 5 1 ++ List.replicate 20 2) (8, 0)
      rfl rfl).1
  · exact (hslot [.ok 4, .ok 5, .ok 8] (.empty, .zero)
      (List.replicate 2 1 ++ List.replicate 6 0 ++ List.replicate 6 2) (List.replicate 6 1)
      ⟨8, rfl, rfl⟩).2

end EventMachines
