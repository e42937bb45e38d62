import EventMachines.Proofs.Execution.Batches
import EventMachines.Proofs.Execution.Computation
import EventMachines.Proofs.Machine.Part
import EventMachines.Proofs.Orchestration.Agreement
import EventMachines.Sample.Countdown

/-!
The halves of a combined decider do not interfere. Over a log and over a slot, one command after
the other, each half comes to what it comes to alone with its own commands: it decides, refuses and
fails alike, and its share of what is stored is what it stores alone.

* `handles_log_cons`, `handles_slot_cons`: one command more, by what the decider makes of it;
* `Part.alone_over_log`, `Part.alone_over_slot`: a part of a decider runs in it as it does alone;
* `Answers.handles_log`, `Answers.handles_slot`: deciders that always answer handle every batch;
* `halves_do_not_interfere`: so it is for both halves, and for combined views.
-/

namespace EventMachines

open Program hiding bind

variable {C C' S S' E E' R W T F α β ε : Type}

/-! ## One command more -/

/-- The log after a result. -/
def extended (log : List E) : Except ε (List E) → List E
  | .ok events => log ++ events
  | .error _ => log

/-- The slot after a result. -/
def replaced (slot : Option S) : Except ε S → Option S
  | .ok s => some s
  | .error _ => slot

section

variable {d : Decider C S E R} {fuel : Nat} {c : C} {commands : List C}

theorem result_over_log (d : Decider C S E R) (fuel : Nat) (c : C) (log : List E) :
    ∃ r, (EventSourced.plain d).handle Backend.log fuel c log = some r ∧
      r.outcome.result = (do d.attempt c (← d.replay log)) ∧
      ∀ x, r.outcome.result = .ok x → r.world = extended log x := by
  refine ⟨_, Engine.handle_ofProgram _ Backend.log fuel c log, ?_⟩
  show ((EventSourced.execute d c).run Backend.log log).outcome.result = _ ∧
    ∀ x, ((EventSourced.execute d c).run Backend.log log).outcome.result = .ok x →
      ((EventSourced.execute d c).run Backend.log log).world = extended log x
  rcases hreplay : d.replay log with fault | s
  · have hbroken : ((EventSourced.execute d c).run Backend.log log).outcome = .broken fault := by
      rw [EventSourced.execute, read_bind]
      simp only [run, Backend.log, hreplay, ofChecked_error, halt_broken_bind]
      rfl
    rw [hbroken]
    exact ⟨rfl, fun x hx => by cases hx⟩
  · have hrun := run_execute_log hreplay c
    show _ = d.attempt c s ∧ _
    rcases hattempt : d.attempt c s with fault | e | events <;> rw [hattempt] at hrun <;>
      obtain ⟨houtcome, hworld⟩ := Prod.mk.inj hrun <;> rw [houtcome, hworld]
    · exact ⟨rfl, fun x hx => by cases hx⟩
    · exact ⟨rfl, fun x hx => by cases hx; rfl⟩
    · exact ⟨rfl, fun x hx => by cases hx; rfl⟩

theorem result_over_slot (d : Decider C S E R) (fuel : Nat) (c : C) (slot : Option S) :
    ∃ r, (StateStored.plain d).handle Backend.slot fuel c slot = some r ∧
      r.outcome.result = (do (d.becomes c (← d.current slot)).result) ∧
      ∀ x, r.outcome.result = .ok x → r.world = replaced slot x := by
  refine ⟨_, Engine.handle_ofProgram _ Backend.slot fuel c slot, ?_⟩
  let body : Program (Exchange.states C S) (Failure C R) S :=
    ofChecked (d.current slot) >>= fun s => StateStored.compute d c s >>= StateStored.conclude c
  show (body.run Backend.slot slot).outcome.result = _ ∧
    ∀ x, (body.run Backend.slot slot).outcome.result = .ok x →
      (body.run Backend.slot slot).world = replaced slot x
  rcases hcurrent : d.current slot with fault | s
  · simp only [body, hcurrent, ofChecked_error, halt_broken_bind]
    exact ⟨rfl, fun x hx => by cases hx⟩
  · have hcompute : (StateStored.compute d c s : Program (Exchange.states C S) _ S).Computes
        (d.becomes c s) := StateStored.compute_computes d c s
    obtain ⟨houtcome, hworld, -⟩ := Run.mk.inj (hcompute.quiet_run Backend.slot slot)
    simp only [body, hcurrent, ofChecked_ok, pure_bind, run_bind, Run.andThen]
    show _ = (d.becomes c s).result ∧ _
    rw [← houtcome]
    rcases hend : ((StateStored.compute d c s).run Backend.slot slot).outcome with s' | e | fault
    · exact ⟨rfl, fun x hx => by cases hx; rfl⟩
    · exact ⟨rfl, fun x hx => by cases hx; exact hworld⟩
    · exact ⟨rfl, fun x hx => by cases hx⟩

theorem handles_log_cons {items : List (Except String C)} {log log' : List E}
    {results : List (Except (Failure C R) (List E))} :
    (EventSourced.plain d).Handles Backend.log fuel (.ok c :: items) log results log' ↔
      ∃ s x rest, d.replay log = .ok s ∧ d.attempt c s = .ok x ∧
        (EventSourced.plain d).Handles Backend.log fuel items (extended log x) rest log' ∧
        results = x :: rest :=
  Engine.handles_cons_of_result (result_over_log d fuel c log)

theorem handles_slot_cons {items : List (Except String C)} {slot slot' : Option S}
    {results : List (Except (Failure C R) S)} :
    (StateStored.plain d).Handles Backend.slot fuel (.ok c :: items) slot results slot' ↔
      ∃ s x rest, d.current slot = .ok s ∧ (d.becomes c s).result = .ok x ∧
        (StateStored.plain d).Handles Backend.slot fuel items (replaced slot x) rest slot' ∧
        results = x :: rest :=
  Engine.handles_cons_of_result (result_over_slot d fuel c slot)

theorem serves_log_cons {log log' : List E} {results : List (Except (Failure C R) (List E))} :
    (EventSourced.plain d).Serves Backend.log fuel (c :: commands) log results log' ↔
      ∃ s x rest, d.replay log = .ok s ∧ d.attempt c s = .ok x ∧
        (EventSourced.plain d).Serves Backend.log fuel commands (extended log x) rest log' ∧
        results = x :: rest :=
  handles_log_cons

theorem serves_slot_cons {slot slot' : Option S} {results : List (Except (Failure C R) S)} :
    (StateStored.plain d).Serves Backend.slot fuel (c :: commands) slot results slot' ↔
      ∃ s x rest, d.current slot = .ok s ∧ (d.becomes c s).result = .ok x ∧
        (StateStored.plain d).Serves Backend.slot fuel commands (replaced slot x) rest slot' ∧
        results = x :: rest :=
  handles_slot_cons

end

/-! ## Parts -/

namespace Decider.Part

variable {part : Decider C S E R} {whole : Decider W T F R} (π : part.Part whole)

/-- The results of the part's own commands. -/
def results (commands : List W) (all : List α) : List α :=
  ((commands.zip all).filter fun p => (π.command? p.1).isSome).map (·.2)

theorem results_own {w : W} {c : C} (hw : π.command? w = some c) (commands : List W) (x : α)
    (rest : List α) : π.results (w :: commands) (x :: rest) = x :: π.results commands rest := by
  simp [results, hw]

theorem results_foreign {w : W} (hw : π.command? w = none) (commands : List W) (x : α)
    (rest : List α) : π.results (w :: commands) (x :: rest) = π.results commands rest := by
  simp [results, hw]

/-- Over its share of the log the part does alone what it does in the larger decider, and its
results are told as those of the larger one. -/
def AloneOverLog (fuel : Nat) (commands : List W) (log : List F)
    (all : List (Except (Failure W R) (List F))) (log' : List F) : Prop :=
  ∃ own, (EventSourced.plain part).Serves Backend.log fuel (commands.filterMap π.command?)
      (log.filterMap π.event?) own (log'.filterMap π.event?) ∧
    π.results commands all = own.map π.told

/-- The part does alone over its own slot what it does in the larger decider: its results are its
share of the larger ones, and its state is its share of the larger state. -/
def AloneOverSlot (fuel : Nat) (commands : List W) (slot : Option T)
    (all : List (Except (Failure W R) T)) (slot' : Option T) : Prop :=
  ∃ own slot'', (StateStored.plain part).Serves Backend.slot fuel (commands.filterMap π.command?)
      (slot.map π.state) own slot'' ∧
    (π.results commands all).map (·.map π.state) =
      own.map (·.mapError (Failure.mapInput π.command)) ∧
    ∀ t, whole.current slot' = .ok t → part.current slot'' = .ok (π.state t)

/-! ### Over a log -/

theorem extended_foreign {w : W} {t : T} {x : Except (Failure W R) (List F)}
    (hw : π.command? w = none) (hx : whole.attempt w t = .ok x) (log : List F) :
    (extended log x).filterMap π.event? = log.filterMap π.event? := by
  cases x with
  | error e => rfl
  | ok events =>
    rw [extended, List.filterMap_append, π.attempt_foreign hw hx, List.append_nil]

theorem extended_told (y : Except (Failure C R) (List E)) (log : List F) :
    (extended log (π.told y)).filterMap π.event? = extended (log.filterMap π.event?) y := by
  cases y with
  | error e => rfl
  | ok events => rw [told, extended, List.filterMap_append, π.filterMap_event, extended]

theorem alone_over_log {fuel : Nat} {commands : List W} {log log' : List F}
    {all : List (Except (Failure W R) (List F))}
    (h : (EventSourced.plain whole).Serves Backend.log fuel commands log all log') :
    π.AloneOverLog fuel commands log all log' := by
  induction commands generalizing log all with
  | nil =>
    obtain ⟨rfl, rfl⟩ := Engine.serves_nil.mp h
    exact ⟨[], Engine.serves_nil.mpr ⟨rfl, rfl⟩, rfl⟩
  | cons w commands ih =>
    obtain ⟨t, x, rest, hreplay, hattempt, hrest, rfl⟩ := serves_log_cons.mp h
    obtain ⟨own, hserves, hown⟩ := ih hrest
    cases hw : π.command? w with
    | none =>
      rw [π.extended_foreign hw hattempt] at hserves
      refine ⟨own, ?_, ?_⟩
      · rw [List.filterMap_cons_none hw]
        exact hserves
      · rw [π.results_foreign hw, hown]
    | some c =>
      rw [π.eq_command hw, π.attempt_own] at hattempt
      obtain ⟨y, hy, rfl⟩ := Checked.map_eq_ok.mp hattempt
      rw [π.extended_told] at hserves
      refine ⟨y :: own, ?_, ?_⟩
      · rw [List.filterMap_cons_some hw]
        exact serves_log_cons.mpr ⟨π.state t, y, own, π.replay hreplay, hy, hserves, rfl⟩
      · rw [π.results_own hw, hown, List.map_cons]

/-! ### Over a slot -/

/-- What a command of the part makes of the larger state is what it makes of the part's own. -/
theorem becomes_own {c : C} {t : T} {x : Except (Failure W R) T}
    (hx : (whole.becomes (π.command c) t).result = .ok x) :
    ∃ y, (part.becomes c (π.state t)).result = .ok y ∧
      x.map π.state = y.mapError (Failure.mapInput π.command) := by
  rw [becomes, π.attempt_own] at hx
  rw [becomes]
  rcases hattempt : part.attempt c (π.state t) with fault | e | events <;> rw [hattempt] at hx
  · cases hx
  · cases hx
    exact ⟨.error e, rfl, rfl⟩
  · change (Outcome.ofChecked (whole.evolveAll t (events.map π.event))).result = .ok x at hx
    rcases hevolve : whole.evolveAll t (events.map π.event) with fault | t' <;> rw [hevolve] at hx
    · cases hx
    · cases hx
      have hown := π.evolveAll hevolve
      rw [π.filterMap_event] at hown
      refine ⟨.ok (π.state t'), ?_, rfl⟩
      change (Outcome.ofChecked (part.evolveAll (π.state t) events)).result = _
      rw [hown]
      rfl

/-- Other commands leave the part's own state as it is. -/
theorem becomes_foreign {w : W} {t t' : T} (hw : π.command? w = none)
    (h : (whole.becomes w t).result = .ok (.ok t')) : π.state t' = π.state t := by
  obtain ⟨events, -, hdecide, hevolve⟩ :=
    Decider.becomes_eq_done.mp (Outcome.result_eq_ok.mp h)
  have hown := π.evolveAll hevolve
  rw [π.foreign hw hdecide] at hown
  exact (Except.ok.inj hown).symm

/-- The part's own slot stands for its share of the larger one. -/
def Stands (slot : Option T) (own : Option S) : Prop :=
  ∀ t, whole.current slot = .ok t → part.current own = .ok (π.state t)

theorem serves_over_slot {fuel : Nat} {commands : List W} {slot slot' : Option T}
    {all : List (Except (Failure W R) T)} {first : Option S} (hfirst : π.Stands slot first)
    (h : (StateStored.plain whole).Serves Backend.slot fuel commands slot all slot') :
    ∃ own last, (StateStored.plain part).Serves Backend.slot fuel
        (commands.filterMap π.command?) first own last ∧
      (π.results commands all).map (·.map π.state) =
        own.map (·.mapError (Failure.mapInput π.command)) ∧ π.Stands slot' last := by
  induction commands generalizing slot all first with
  | nil =>
    obtain ⟨rfl, rfl⟩ := Engine.serves_nil.mp h
    exact ⟨[], first, Engine.serves_nil.mpr ⟨rfl, rfl⟩, rfl, hfirst⟩
  | cons w commands ih =>
    obtain ⟨t, x, rest, hcurrent, hbecomes, hrest, rfl⟩ := serves_slot_cons.mp h
    have hstate : part.current first = .ok (π.state t) := hfirst t hcurrent
    cases hw : π.command? w with
    | none =>
      have hstands : π.Stands (replaced slot x) first := by
        cases x with
        | error e => exact hfirst
        | ok t' =>
          intro s hs
          obtain rfl := Except.ok.inj hs
          rw [π.becomes_foreign hw hbecomes]
          exact hstate
      obtain ⟨own, last, hserves, hown, hlast⟩ := ih hstands hrest
      refine ⟨own, last, ?_, ?_, hlast⟩
      · rw [List.filterMap_cons_none hw]
        exact hserves
      · rw [π.results_foreign hw, hown]
    | some c =>
      rw [π.eq_command hw] at hbecomes
      obtain ⟨y, hy, hsame⟩ := π.becomes_own hbecomes
      have hstands : π.Stands (replaced slot x) (replaced first y) := by
        rcases x with e | t' <;> rcases y with e' | s' <;> cases hsame
        · exact hfirst
        · intro s hs
          obtain rfl := Except.ok.inj hs
          rfl
      obtain ⟨own, last, hserves, hown, hlast⟩ := ih hstands hrest
      refine ⟨y :: own, last, ?_, ?_, hlast⟩
      · rw [List.filterMap_cons_some hw]
        exact serves_slot_cons.mpr ⟨π.state t, y, own, hstate, hy, hserves, rfl⟩
      · rw [π.results_own hw, List.map_cons, hown, hsame, List.map_cons]

theorem alone_over_slot {fuel : Nat} {commands : List W} {slot slot' : Option T}
    {all : List (Except (Failure W R) T)}
    (h : (StateStored.plain whole).Serves Backend.slot fuel commands slot all slot') :
    π.AloneOverSlot fuel commands slot all slot' := by
  refine π.serves_over_slot ?_ h
  intro t ht
  cases slot with
  | none => exact π.initial ht
  | some t' =>
    obtain rfl := Except.ok.inj ht
    rfl

end Decider.Part

/-! ## Deciders that always answer -/

/-- No function of the decider fails. -/
structure Decider.Answers (d : Decider C S E R) : Prop where
  decide : ∀ c s, ∃ decided, d.decide c s = .ok decided
  evolve : ∀ s e, ∃ s', d.evolve s e = .ok s'
  initial : ∃ s, d.initial = .ok s
  isTerminal : ∀ c s, ∃ terminal, d.isTerminal c s = .ok terminal

theorem Decider.answers_total (decide : C → S → Except R (List E)) (evolve : S → E → S)
    (initial : S) (isTerminal : C → S → Bool) :
    (total decide evolve initial isTerminal).Answers where
  decide _ _ := ⟨_, rfl⟩
  evolve _ _ := ⟨_, rfl⟩
  initial := ⟨_, rfl⟩
  isTerminal _ _ := ⟨_, rfl⟩

namespace Decider.Answers

variable {d : Decider C S E R} (hd : d.Answers)
include hd

theorem combine {d' : Decider C' S' E' R} (hd' : d'.Answers) : (d.combine d').Answers where
  decide c s := by
    cases c with
    | inl c =>
      obtain ⟨decided, h⟩ := hd.decide c s.1
      exact ⟨_, Checked.bind_eq_ok.mpr ⟨decided, h, rfl⟩⟩
    | inr c =>
      obtain ⟨decided, h⟩ := hd'.decide c s.2
      exact ⟨_, Checked.bind_eq_ok.mpr ⟨decided, h, rfl⟩⟩
  evolve s e := by
    cases e with
    | inl e =>
      obtain ⟨s', h⟩ := hd.evolve s.1 e
      exact ⟨_, Checked.bind_eq_ok.mpr ⟨s', h, rfl⟩⟩
    | inr e =>
      obtain ⟨s', h⟩ := hd'.evolve s.2 e
      exact ⟨_, Checked.bind_eq_ok.mpr ⟨s', h, rfl⟩⟩
  initial := by
    obtain ⟨s, hs⟩ := hd.initial
    obtain ⟨s', hs'⟩ := hd'.initial
    exact ⟨(s, s'), pair_eq_ok.mpr ⟨hs, hs'⟩⟩
  isTerminal c s := by
    cases c with
    | inl c => exact hd.isTerminal c s.1
    | inr c => exact hd'.isTerminal c s.2

theorem attempt (c : C) (s : S) : ∃ x, d.attempt c s = .ok x := by
  rw [Decider.attempt]
  obtain ⟨terminal, hterminal⟩ := hd.isTerminal c s
  obtain ⟨decided, hdecide⟩ := hd.decide c s
  rw [hterminal, hdecide]
  rcases terminal with _ | _
  · rcases decided with reason | events
    · exact ⟨_, rfl⟩
    · exact ⟨_, rfl⟩
  · exact ⟨_, rfl⟩

theorem replay (history : List E) : ∃ s, d.replay history = .ok s := by
  obtain ⟨first, hfirst⟩ := hd.initial
  obtain ⟨s, hs⟩ := d.exists_evolveAll hd.evolve first history
  exact ⟨s, Checked.bind_eq_ok.mpr ⟨first, hfirst, hs⟩⟩

theorem current (slot : Option S) : ∃ s, d.current slot = .ok s := by
  cases slot with
  | none => exact hd.initial
  | some s => exact ⟨s, rfl⟩

theorem becomes (c : C) (s : S) : ∃ x, (d.becomes c s).result = .ok x := by
  rw [Decider.becomes]
  obtain ⟨x, hx⟩ := hd.attempt c s
  rw [hx]
  cases x with
  | error e => exact ⟨.error e, rfl⟩
  | ok events =>
    obtain ⟨s', hs'⟩ := d.exists_evolveAll hd.evolve s events
    refine ⟨.ok s', ?_⟩
    change (Outcome.ofChecked (d.evolveAll s events)).result = _
    rw [hs']
    rfl

theorem handles_log (fuel : Nat) (items : List (Except String C)) (log : List E) :
    ∃ results log', (EventSourced.plain d).Handles Backend.log fuel items log results log' := by
  refine Engine.exists_handles (fun c log => ?_) items log
  obtain ⟨r, hr, hresult, -⟩ := result_over_log d fuel c log
  obtain ⟨s, hs⟩ := hd.replay log
  obtain ⟨x, hx⟩ := hd.attempt c s
  exact ⟨r, x, hr, hresult.trans (Checked.bind_eq_ok.mpr ⟨s, hs, hx⟩)⟩

theorem handles_slot (fuel : Nat) (items : List (Except String C)) (slot : Option S) :
    ∃ results slot', (StateStored.plain d).Handles Backend.slot fuel items slot results slot' := by
  refine Engine.exists_handles (fun c slot => ?_) items slot
  obtain ⟨r, hr, hresult, -⟩ := result_over_slot d fuel c slot
  obtain ⟨s, hs⟩ := hd.current slot
  obtain ⟨x, hx⟩ := hd.becomes c s
  exact ⟨r, x, hr, hresult.trans (Checked.bind_eq_ok.mpr ⟨s, hs, hx⟩)⟩

theorem serves_log (fuel : Nat) (commands : List C) (log : List E) :
    ∃ results log',
      (EventSourced.plain d).Serves Backend.log fuel commands log results log' :=
  hd.handles_log fuel (commands.map .ok) log

theorem serves_slot (fuel : Nat) (commands : List C) (slot : Option S) :
    ∃ results slot',
      (StateStored.plain d).Serves Backend.slot fuel commands slot results slot' :=
  hd.handles_slot fuel (commands.map .ok) slot

end Decider.Answers

/-! ## Both halves -/

/-- **Independence of the halves.** However the commands of two deciders interleave, after each of
them either half has come over the log, and over the slot, to what it comes to alone with its own
commands; and deciders that always answer serve every batch. So it is with the events of two
views. -/
theorem halves_do_not_interfere (d : Decider C S E R) (d' : Decider C' S' E' R) :
    (∀ fuel commands later log results log',
      (EventSourced.plain (d.combine d')).Serves Backend.log fuel (commands ++ later) log results
        log' →
      ∃ first rest middle,
        (EventSourced.plain (d.combine d')).Serves Backend.log fuel commands log first middle ∧
        (EventSourced.plain (d.combine d')).Serves Backend.log fuel later middle rest log' ∧
        results = first ++ rest ∧
        (d.leftHalf d').AloneOverLog fuel commands log first middle ∧
        (d.rightHalf d').AloneOverLog fuel commands log first middle ∧
        ∀ t, (d.combine d').replay middle = .ok t ↔
          d.replay (middle.filterMap Sum.getLeft?) = .ok t.1 ∧
          d'.replay (middle.filterMap Sum.getRight?) = .ok t.2) ∧
    (∀ fuel commands later slot results slot',
      (StateStored.plain (d.combine d')).Serves Backend.slot fuel (commands ++ later) slot results
        slot' →
      ∃ first rest middle,
        (StateStored.plain (d.combine d')).Serves Backend.slot fuel commands slot first middle ∧
        (StateStored.plain (d.combine d')).Serves Backend.slot fuel later middle rest slot' ∧
        results = first ++ rest ∧
        (d.leftHalf d').AloneOverSlot fuel commands slot first middle ∧
        (d.rightHalf d').AloneOverSlot fuel commands slot first middle) ∧
    (d.Answers → d'.Answers → ∀ fuel commands,
      (∀ log, ∃ results log',
        (EventSourced.plain (d.combine d')).Serves Backend.log fuel commands log results log') ∧
      ∀ slot, ∃ results slot',
        (StateStored.plain (d.combine d')).Serves Backend.slot fuel commands slot results slot') ∧
    ∀ (v : View S E) (v' : View S' E') stored events t,
      (v.combine v').newState stored events = .ok t ↔
        v.newState (stored.map Prod.fst) (events.filterMap Sum.getLeft?) = .ok t.1 ∧
        v'.newState (stored.map Prod.snd) (events.filterMap Sum.getRight?) = .ok t.2 := by
  refine ⟨?_, ?_, ?_, ?_⟩
  · intro fuel commands later log results log' h
    obtain ⟨first, rest, middle, hfirst, hrest, hresults⟩ := Engine.serves_append.mp h
    exact ⟨first, rest, middle, hfirst, hrest, hresults, (d.leftHalf d').alone_over_log hfirst,
      (d.rightHalf d').alone_over_log hfirst, fun t => d.combine_replay d' t middle⟩
  · intro fuel commands later slot results slot' h
    obtain ⟨first, rest, middle, hfirst, hrest, hresults⟩ := Engine.serves_append.mp h
    exact ⟨first, rest, middle, hfirst, hrest, hresults, (d.leftHalf d').alone_over_slot hfirst,
      (d.rightHalf d').alone_over_slot hfirst⟩
  · intro hd hd' fuel commands
    have hboth := hd.combine hd'
    exact ⟨hboth.serves_log fuel commands, hboth.serves_slot fuel commands⟩
  · intro v v' stored events t
    exact v.combine_newState v' stored t events

theorem summing_beside_splitting :
    let both := Decider.summing.combine Decider.splitting
    let commands : List (Nat ⊕ Nat) := [.inl 9, .inr 3, .inl 8, .inl 1, .inr 4]
    let results : List (Except (Failure (Nat ⊕ Nat) String) (List (Nat ⊕ Nat))) :=
      [.error (.rejected (.inl 9) "too large"), .ok [.inr 2, .inr 1], .ok [.inl 8],
        .error (.terminal (.inl 1)), .ok [.inr 3, .inr 2]]
    let log : List (Nat ⊕ Nat) := [.inl 8, .inl 8]
    let log' : List (Nat ⊕ Nat) := [.inl 8, .inl 8, .inr 2, .inr 1, .inl 8, .inr 3, .inr 2]
    let states : List (Except (Failure (Nat ⊕ Nat) String) (Nat × Nat)) :=
      [.error (.rejected (.inl 9) "too large"), .ok (16, 3), .ok (24, 3),
        .error (.terminal (.inl 1)), .ok (24, 8)]
    ((EventSourced.plain both).Serves Backend.log 0 commands log results log' ∧
      (Decider.summing.leftHalf .splitting).AloneOverLog 0 commands log results log') ∧
    ((StateStored.plain both).Serves Backend.slot 0 commands (some (16, 0)) states (some (24, 8)) ∧
      (Decider.summing.leftHalf .splitting).AloneOverSlot 0 commands (some (16, 0)) states
        (some (24, 8))) ∧
    ∃ results last, (EventSourced.plain both).Serves Backend.log 0 commands log' results last := by
  intro both commands results log log' states
  have h := halves_do_not_interfere Decider.summing Decider.splitting
  refine ⟨?_, ?_, ?_⟩
  · have hserved : (EventSourced.plain both).Serves Backend.log 0 (commands ++ []) log results
        log' := by
      iterate 5 refine serves_log_cons.mpr ⟨_, _, _, rfl, rfl, ?_, rfl⟩
      exact Engine.serves_nil.mpr ⟨rfl, rfl⟩
    obtain ⟨first, rest, middle, hfirst, hrest, hresults, hleft, -⟩ :=
      h.1 0 commands [] log results log' hserved
    obtain ⟨rfl, rfl⟩ := Engine.serves_nil.mp hrest
    obtain rfl : results = first := hresults.trans (List.append_nil first)
    exact ⟨hfirst, hleft⟩
  · have hserved : (StateStored.plain both).Serves Backend.slot 0 (commands ++ []) (some (16, 0))
        states (some (24, 8)) := by
      iterate 5 refine serves_slot_cons.mpr ⟨_, _, _, rfl, rfl, ?_, rfl⟩
      exact Engine.serves_nil.mpr ⟨rfl, rfl⟩
    obtain ⟨first, rest, middle, hfirst, hrest, hstates, hleft, -⟩ :=
      h.2.1 0 commands [] (some (16, 0)) states (some (24, 8)) hserved
    obtain ⟨rfl, rfl⟩ := Engine.serves_nil.mp hrest
    obtain rfl : states = first := hstates.trans (List.append_nil first)
    exact ⟨hfirst, hleft⟩
  · have hsumming : Decider.summing.Answers := Decider.answers_total _ _ _ _
    have hsplitting : Decider.splitting.Answers := Decider.answers_total _ _ _ _
    exact (h.2.2.1 hsumming hsplitting 0 commands).1 log'

end EventMachines
