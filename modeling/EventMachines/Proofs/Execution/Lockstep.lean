import EventMachines.Proofs.Execution.Independence

/-!
Two ways to run a decider. One keeps the log of what was decided and replays it for every command,
the other keeps the latest state in a slot. Given the same items, some of which could not be read,
they never part: before and after each item the slot holds what the log leads to, and what comes of
the item is the same on either side.

* `Comes`: what the engines make of one item, in the state that both hold;
* `comes_of_becomes`, `comes_of_attempt`: whatever one engine makes of a command, so does the other;
* `Comes.matches`: log and slot match afterwards;
* `plain_engines_in_lockstep`: so it is for every batch.
-/

namespace EventMachines

variable {C S E R : Type}

namespace Decider

/-! ## One item -/

/-- What comes of one item in the state `s`, over a log and over a slot. A command that the state is
not terminal for is computed in full: after the log, and from the slot. -/
inductive Comes (d : Decider C S E R) (s : S) (slot : Option S) (log : List E) :
    Except String C → Except (Failure C R) (List E) → Except (Failure C R) S → Prop
  | unreadable (reason : String) :
    Comes d s slot log (.error reason) (.error (.publishingFailed none (.text reason)))
      (.error (.publishingFailed none (.text reason)))
  | terminal {c : C} (hterminal : d.isTerminal c s = .ok true) :
    Comes d s slot log (.ok c) (.error (.terminal c)) (.error (.terminal c))
  | rejected {c : C} {reason : R} (hterminal : d.isTerminal c s = .ok false)
    (hevents : d.newEvents log c = .ok (.error reason))
    (hstate : d.newState slot c = .ok (.error reason)) :
    Comes d s slot log (.ok c) (.error (.rejected c reason)) (.error (.rejected c reason))
  | accepted {c : C} {events : List E} {s' : S} (hterminal : d.isTerminal c s = .ok false)
    (hevents : d.newEvents log c = .ok (.ok events)) (hstate : d.newState slot c = .ok (.ok s'))
    (hevolve : d.evolveAll s events = .ok s') :
    Comes d s slot log (.ok c) (.ok events) (.ok s')

variable {d : Decider C S E R} {s : S} {slot : Option S} {log : List E}

theorem newEvents_of_replay (hlog : d.replay log = .ok s) (c : C) :
    d.newEvents log c = d.decide c s := by
  rw [newEvents, hlog]
  rfl

theorem newState_rejected {c : C} {reason : R} (hslot : d.current slot = .ok s)
    (hdecide : d.decide c s = .ok (.error reason)) : d.newState slot c = .ok (.error reason) :=
  Checked.bind_eq_ok.mpr ⟨s, hslot, Checked.bind_eq_ok.mpr ⟨_, hdecide, rfl⟩⟩

theorem newState_accepted {c : C} {events : List E} {s' : S} (hslot : d.current slot = .ok s)
    (hdecide : d.decide c s = .ok (.ok events)) (hevolve : d.evolveAll s events = .ok s') :
    d.newState slot c = .ok (.ok s') :=
  Checked.bind_eq_ok.mpr ⟨s, hslot, Checked.bind_eq_ok.mpr
    ⟨_, hdecide, Checked.bind_eq_ok.mpr ⟨s', hevolve, rfl⟩⟩⟩

section

variable (hslot : d.current slot = .ok s) (hlog : d.replay log = .ok s)
include hslot hlog

/-- A refusal is the same on either side. -/
theorem comes_refused {c : C} {e : Failure C R} (h : d.attempt c s = .ok (.error e)) :
    d.Comes s slot log (.ok c) (.error e) (.error e) := by
  rcases attempt_eq_error.mp h with ⟨hterminal, rfl⟩ | ⟨hterminal, reason, hdecide, rfl⟩
  · exact .terminal hterminal
  · exact .rejected hterminal ((newEvents_of_replay hlog c).trans hdecide)
      (newState_rejected hslot hdecide)

theorem comes_accepted {c : C} {events : List E} {s' : S} (h : d.attempt c s = .ok (.ok events))
    (hevolve : d.evolveAll s events = .ok s') :
    d.Comes s slot log (.ok c) (.ok events) (.ok s') := by
  obtain ⟨hterminal, hdecide⟩ := attempt_eq_ok.mp h
  exact .accepted hterminal ((newEvents_of_replay hlog c).trans hdecide)
    (newState_accepted hslot hdecide hevolve) hevolve

theorem comes_of_becomes {c : C} {stored : Except (Failure C R) S}
    (h : (d.becomes c s).result = .ok stored) :
    ∃ decided, d.attempt c s = .ok decided ∧ d.Comes s slot log (.ok c) decided stored := by
  rw [becomes] at h
  rcases hattempt : d.attempt c s with fault | e | events <;> rw [hattempt] at h
  · cases h
  · obtain rfl := Except.ok.inj h
    exact ⟨.error e, rfl, comes_refused hslot hlog hattempt⟩
  · change (Outcome.ofChecked (d.evolveAll s events)).result = .ok stored at h
    rcases hevolve : d.evolveAll s events with fault | s' <;> rw [hevolve] at h
    · cases h
    · obtain rfl := Except.ok.inj h
      exact ⟨.ok events, rfl, comes_accepted hslot hlog hattempt hevolve⟩

/-- The engine over the slot folds what is decided at once, the one over the log only when it
replays the log again. -/
theorem comes_of_attempt {c : C} {decided : Except (Failure C R) (List E)}
    (h : d.attempt c s = .ok decided)
    (hlater : ∃ later, d.replay (extended log decided) = .ok later) :
    ∃ stored, (d.becomes c s).result = .ok stored ∧ d.Comes s slot log (.ok c) decided stored := by
  rw [becomes, h]
  cases decided with
  | error e => exact ⟨.error e, rfl, comes_refused hslot hlog h⟩
  | ok events =>
    obtain ⟨s', hs'⟩ := hlater
    have hevolve : d.evolveAll s events = .ok s' := by
      rwa [extended, replay_append hlog] at hs'
    refine ⟨.ok s', ?_, comes_accepted hslot hlog h hevolve⟩
    show (Outcome.ofChecked (d.evolveAll s events)).result = _
    rw [hevolve]
    rfl

theorem Comes.matches {item : Except String C} {decided : Except (Failure C R) (List E)}
    {stored : Except (Failure C R) S} (h : d.Comes s slot log item decided stored) :
    d.Matches (replaced slot stored) (extended log decided) := by
  cases h with
  | unreadable reason => exact ⟨s, hslot, hlog⟩
  | terminal hterminal => exact ⟨s, hslot, hlog⟩
  | rejected hterminal hevents hstate => exact ⟨s, hslot, hlog⟩
  | accepted hterminal hevents hstate hevolve =>
    exact matches_some ((replay_append hlog _).trans hevolve)

end

/-! ## Batches -/

/-- The same items over a slot and over a log, with the results on either side: whatever is left of
the batch, the slot holds what the log leads to, and the next item comes out alike. -/
inductive Lockstep (d : Decider C S E R) : List (Except String C) → Option S → List E →
    List (Except (Failure C R) (List E)) → List (Except (Failure C R) S) → Option S → List E → Prop
  | nil {slot : Option S} {log : List E} (h : d.Matches slot log) :
    Lockstep d [] slot log [] [] slot log
  | cons {item : Except String C} {items : List (Except String C)} {s : S} {slot slot' : Option S}
    {log log' : List E} {decided : Except (Failure C R) (List E)} {stored : Except (Failure C R) S}
    {results : List (Except (Failure C R) (List E))} {states : List (Except (Failure C R) S)}
    (hslot : d.current slot = .ok s) (hlog : d.replay log = .ok s)
    (h : d.Comes s slot log item decided stored)
    (rest : Lockstep d items (replaced slot stored) (extended log decided) results states slot'
      log') :
    Lockstep d (item :: items) slot log (decided :: results) (stored :: states) slot' log'

/-- A log that leads to a state did so before it was extended. -/
theorem replay_before {log more : List E} {last : S} (h : d.replay (log ++ more) = .ok last) :
    ∃ s, d.replay log = .ok s := by
  obtain ⟨first, hfirst, hall⟩ := Checked.bind_eq_ok.mp h
  rw [evolveAll_append] at hall
  obtain ⟨s, hs, -⟩ := Checked.bind_eq_ok.mp hall
  exact ⟨s, Checked.bind_eq_ok.mpr ⟨first, hfirst, hs⟩⟩

end Decider

section

variable {d : Decider C S E R} {fuel : Nat} {items : List (Except String C)}

/-- A handled batch only extends the log. -/
theorem handles_log_extends {log log' : List E} {results : List (Except (Failure C R) (List E))}
    (h : (EventSourced.plain d).Handles Backend.log fuel items log results log') :
    ∃ more, log' = log ++ more := by
  induction items generalizing log results with
  | nil =>
    obtain ⟨-, rfl⟩ := Engine.handles_nil.mp h
    exact ⟨[], (List.append_nil log).symm⟩
  | cons item items ih =>
    cases item with
    | error reason =>
      obtain ⟨rest, hrest, -⟩ := Engine.handles_unreadable.mp h
      exact ih hrest
    | ok c =>
      obtain ⟨s, decided, rest, -, -, hrest, -⟩ := handles_log_cons.mp h
      obtain ⟨more, hmore⟩ := ih hrest
      cases decided with
      | error e => exact ⟨more, hmore⟩
      | ok events => exact ⟨events ++ more, hmore.trans (List.append_assoc ..)⟩

theorem lockstep_of_slot {slot slot' : Option S} {log : List E}
    {states : List (Except (Failure C R) S)} (hmatches : d.Matches slot log)
    (h : (StateStored.plain d).Handles Backend.slot fuel items slot states slot') :
    ∃ results log', (EventSourced.plain d).Handles Backend.log fuel items log results log' ∧
      d.Lockstep items slot log results states slot' log' := by
  induction items generalizing slot log states with
  | nil =>
    obtain ⟨rfl, rfl⟩ := Engine.handles_nil.mp h
    exact ⟨[], log, Engine.handles_nil.mpr ⟨rfl, rfl⟩, .nil hmatches⟩
  | cons item items ih =>
    obtain ⟨s, hslot, hlog⟩ := hmatches
    cases item with
    | error reason =>
      obtain ⟨rest, hrest, rfl⟩ := Engine.handles_unreadable.mp h
      obtain ⟨results, log', hresults, hlockstep⟩ := ih ⟨s, hslot, hlog⟩ hrest
      exact ⟨_, log', Engine.handles_unreadable.mpr ⟨results, hresults, rfl⟩,
        .cons hslot hlog (.unreadable reason) hlockstep⟩
    | ok c =>
      obtain ⟨s', stored, rest, hs', hbecomes, hrest, rfl⟩ := handles_slot_cons.mp h
      obtain rfl := Except.ok.inj (hslot.symm.trans hs')
      obtain ⟨decided, hattempt, hcomes⟩ := Decider.comes_of_becomes hslot hlog hbecomes
      obtain ⟨results, log', hresults, hlockstep⟩ := ih (hcomes.matches hslot hlog) hrest
      exact ⟨decided :: results, log',
        handles_log_cons.mpr ⟨s, decided, results, hlog, hattempt, hresults, rfl⟩,
        .cons hslot hlog hcomes hlockstep⟩

theorem lockstep_of_log {slot : Option S} {log log' : List E} {last : S}
    {results : List (Except (Failure C R) (List E))} (hmatches : d.Matches slot log)
    (h : (EventSourced.plain d).Handles Backend.log fuel items log results log')
    (hlast : d.replay log' = .ok last) :
    ∃ states slot', (StateStored.plain d).Handles Backend.slot fuel items slot states slot' ∧
      d.Lockstep items slot log results states slot' log' := by
  induction items generalizing slot log results with
  | nil =>
    obtain ⟨rfl, rfl⟩ := Engine.handles_nil.mp h
    exact ⟨[], slot, Engine.handles_nil.mpr ⟨rfl, rfl⟩, .nil hmatches⟩
  | cons item items ih =>
    obtain ⟨s, hslot, hlog⟩ := hmatches
    cases item with
    | error reason =>
      obtain ⟨rest, hrest, rfl⟩ := Engine.handles_unreadable.mp h
      obtain ⟨states, slot', hstates, hlockstep⟩ := ih ⟨s, hslot, hlog⟩ hrest
      exact ⟨_, slot', Engine.handles_unreadable.mpr ⟨states, hstates, rfl⟩,
        .cons hslot hlog (.unreadable reason) hlockstep⟩
    | ok c =>
      obtain ⟨s', decided, rest, hs', hattempt, hrest, rfl⟩ := handles_log_cons.mp h
      obtain rfl := Except.ok.inj (hlog.symm.trans hs')
      obtain ⟨more, rfl⟩ := handles_log_extends hrest
      obtain ⟨stored, hbecomes, hcomes⟩ :=
        Decider.comes_of_attempt hslot hlog hattempt (Decider.replay_before hlast)
      obtain ⟨states, slot', hstates, hlockstep⟩ := ih (hcomes.matches hslot hlog) hrest
      exact ⟨stored :: states, slot',
        handles_slot_cons.mpr ⟨s, stored, states, hslot, hbecomes, hstates, rfl⟩,
        .cons hslot hlog hcomes hlockstep⟩

end

/-- **Lockstep of the plain engines.** From a slot that holds what the log leads to, a batch that is
handled over the slot is handled over the log, and the other way round where the log can still be
replayed in the end; deciders that always answer handle every batch. Item by item slot and log then
match, and the results agree. -/
theorem plain_engines_in_lockstep (d : Decider C S E R) (fuel : Nat)
    (items : List (Except String C)) (slot : Option S) (log : List E)
    (hmatches : d.Matches slot log) :
    (∀ states slot',
      (StateStored.plain d).Handles Backend.slot fuel items slot states slot' →
      ∃ results log', (EventSourced.plain d).Handles Backend.log fuel items log results log' ∧
        d.Lockstep items slot log results states slot' log') ∧
    (∀ results log' last,
      (EventSourced.plain d).Handles Backend.log fuel items log results log' →
      d.replay log' = .ok last →
      ∃ states slot', (StateStored.plain d).Handles Backend.slot fuel items slot states slot' ∧
        d.Lockstep items slot log results states slot' log') ∧
    (d.Answers → ∃ results log' states slot',
      (EventSourced.plain d).Handles Backend.log fuel items log results log' ∧
      (StateStored.plain d).Handles Backend.slot fuel items slot states slot' ∧
      d.Lockstep items slot log results states slot' log') := by
  refine ⟨fun states slot' h => lockstep_of_slot hmatches h,
    fun results log' last h hlast => lockstep_of_log hmatches h hlast, fun hd => ?_⟩
  obtain ⟨states, slot', hstates⟩ := hd.handles_slot fuel items slot
  obtain ⟨results, log', hresults, hlockstep⟩ := lockstep_of_slot hmatches hstates
  exact ⟨results, log', states, slot', hresults, hstates, hlockstep⟩

theorem summing_in_lockstep :
    let items : List (Except String Nat) := [.ok 9, .error "cut off", .ok 8, .ok 1]
    let results : List (Except (Failure Nat String) (List Nat)) :=
      [.error (.rejected 9 "too large"), .error (.publishingFailed none (.text "cut off")), .ok [8],
        .error (.terminal 1)]
    let states : List (Except (Failure Nat String) Nat) :=
      [.error (.rejected 9 "too large"), .error (.publishingFailed none (.text "cut off")), .ok 24,
        .error (.terminal 1)]
    Decider.summing.Matches (some 16) [8, 8] ∧
    ((StateStored.plain .summing).Handles Backend.slot 0 items (some 16) states (some 24) ∧
      ∃ results log',
        (EventSourced.plain .summing).Handles Backend.log 0 items [8, 8] results log' ∧
        Decider.summing.Lockstep items (some 16) [8, 8] results states (some 24) log') ∧
    ((EventSourced.plain .summing).Handles Backend.log 0 items [8, 8] results [8, 8, 8] ∧
      ∃ states slot',
        (StateStored.plain .summing).Handles Backend.slot 0 items (some 16) states slot' ∧
        Decider.summing.Lockstep items (some 16) [8, 8] results states slot' [8, 8, 8]) ∧
    ∃ results log' states slot',
      (EventSourced.plain .summing).Handles Backend.log 0 items [8, 8] results log' ∧
      (StateStored.plain .summing).Handles Backend.slot 0 items (some 16) states slot' ∧
      Decider.summing.Lockstep items (some 16) [8, 8] results states slot' log' := by
  intro items results states
  have hmatches : Decider.summing.Matches (some 16) [8, 8] := ⟨16, rfl, rfl⟩
  have h := plain_engines_in_lockstep Decider.summing 0 items (some 16) [8, 8] hmatches
  have hstates : (StateStored.plain .summing).Handles Backend.slot 0 items (some 16) states
      (some 24) := by
    refine handles_slot_cons.mpr ⟨_, _, _, rfl, rfl, ?_, rfl⟩
    refine Engine.handles_unreadable.mpr ⟨_, ?_, rfl⟩
    iterate 2 refine handles_slot_cons.mpr ⟨_, _, _, rfl, rfl, ?_, rfl⟩
    exact Engine.handles_nil.mpr ⟨rfl, rfl⟩
  have hresults : (EventSourced.plain .summing).Handles Backend.log 0 items [8, 8] results
      [8, 8, 8] := by
    refine handles_log_cons.mpr ⟨_, _, _, rfl, rfl, ?_, rfl⟩
    refine Engine.handles_unreadable.mpr ⟨_, ?_, rfl⟩
    iterate 2 refine handles_log_cons.mpr ⟨_, _, _, rfl, rfl, ?_, rfl⟩
    exact Engine.handles_nil.mpr ⟨rfl, rfl⟩
  exact ⟨hmatches, ⟨hstates, h.1 states (some 24) hstates⟩,
    ⟨hresults, h.2.1 results [8, 8, 8] 24 hresults rfl⟩, h.2.2 (Decider.answers_total _ _ _ _)⟩

end EventMachines
