import EventMachines.Proofs.Execution.Deletion
import EventMachines.Proofs.Execution.Folding
import EventMachines.Sample.Countdown
import EventMachines.Scenario
import Mathlib.Logic.Basic

/-!
Scenarios against engines. A scenario is checked on the machine alone, and passes exactly if the
engine that runs the machine comes to what was expected.

* `DeciderScenario.written_eq` and the like: of all calls that write a scenario the last ones count;
* `Panics`: an ending that does not pass; `passes_xor_panics`;
* `expectEvents_eq_pass` and the like: what an ending asks of a decider;
* `Backend.Holding`: a store that has the data and gives back what it is given;
* `scenarios_tell_what_engines_do`: for deciders, views and sagas.
-/

namespace EventMachines

open Program hiding bind

variable {C I S E E' R A K α ε ω : Type}

/-! ## How a scenario is written -/

namespace ScenarioCall

def past? : ScenarioCall C S E → Option (Past S E)
  | given history => some (.events history)
  | givenState s => some (.state s)
  | when _ => none

def command? : ScenarioCall C S E → Option C
  | when c => some c
  | _ => none

/-- The past that the last call says which says one, or an empty history. -/
def lastPast (calls : List (ScenarioCall C S E)) : Past S E :=
  (calls.filterMap past?).getLast?.getD (.events [])

/-- The command of the last call that has one. -/
def lastCommand? (calls : List (ScenarioCall C S E)) : Option C :=
  (calls.filterMap command?).getLast?

end ScenarioCall

/-- By induction on the calls, from any scenario they go on from. -/
theorem DeciderScenario.written_eq (calls : List (ScenarioCall C S E)) :
    written calls = ⟨ScenarioCall.lastPast calls, ScenarioCall.lastCommand? calls⟩ := by
  have hfrom : ∀ sc : DeciderScenario C S E,
      calls.foldl (fun sc call => match call with
        | .given history => sc.given history
        | .givenState s => sc.givenState s
        | .when c => sc.when c) sc =
      ⟨(calls.filterMap ScenarioCall.past?).getLast?.getD sc.past,
        (calls.filterMap ScenarioCall.command?).getLast?.or sc.command?⟩ := by
    induction calls with
    | nil => exact fun sc => rfl
    | cons call calls ih =>
      intro sc
      rw [List.foldl_cons, ih]
      cases call <;>
        simp [given, givenState, when, ScenarioCall.past?, ScenarioCall.command?,
          List.filterMap_cons, List.getLast?_cons]
  refine (hfrom blank).trans ?_
  rw [ScenarioCall.lastPast, ScenarioCall.lastCommand?, blank, Option.or_none]

theorem ViewScenario.written_eq (calls : List (List E)) :
    written calls = ⟨calls.getLast?.getD []⟩ := by
  have hfrom : ∀ sc : ViewScenario E, calls.foldl given sc = ⟨calls.getLast?.getD sc.history⟩ := by
    induction calls with
    | nil => exact fun sc => rfl
    | cons history calls ih =>
      intro sc
      rw [List.foldl_cons, ih, List.getLast?_cons]
      rfl
  exact hfrom blank

theorem SagaScenario.written_eq (calls : List E) : written calls = ⟨calls.getLast?⟩ := by
  have hfrom : ∀ sc : SagaScenario E, calls.foldl when sc = ⟨calls.getLast?.or sc.result?⟩ := by
    induction calls with
    | nil => exact fun sc => rfl
    | cons result calls ih =>
      intro sc
      rw [List.foldl_cons, ih, List.getLast?_cons]
      cases calls.getLast? <;> rfl
  refine (hfrom blank).trans ?_
  rw [blank, Option.or_none]

/-! ## Endings -/

/-- The ending stops the scenario: with the message of a verdict, or because the machine broke off.
-/
inductive Panics : Checked Verdict → Prop
  | broken (x : Fault) : Panics (.error x)
  | unmet (message : String) : Panics (.ok (.unmet message))
  | differs (message came expected : String) : Panics (.ok (.differs message came expected))

theorem passes_xor_panics (ending : Checked Verdict) :
    Xor (ending = .ok .pass) (Panics ending) := by
  rcases ending with x | _ | message | ⟨message, came, expected⟩
  · exact .inr ⟨.broken x, nofun⟩
  · exact .inl ⟨rfl, nofun⟩
  · exact .inr ⟨.unmet message, nofun⟩
  · exact .inr ⟨.differs message came expected, nofun⟩

theorem Verdict.compare_eq_pass [BEq α] {text : α → String} {message : String} {came expected : α} :
    compare text message came expected = pass ↔ (came == expected) = true := by
  rw [compare]
  split
  next h => simp [h]
  next h => simp [h]

namespace DeciderScenario

variable {sc : DeciderScenario C S E} {d : Decider C S E R} {c : C} {event : E → String}
  {state : S → String} {reason : R → String}

theorem decided_eq_ok {s : S} {decided : Except R (List E)} :
    sc.decided d c = .ok (s, decided) ↔ sc.state d = .ok s ∧ d.decide c s = .ok decided := by
  rw [DeciderScenario.decided, Checked.bind_eq_ok]
  constructor
  · rintro ⟨t, ht, h⟩
    obtain ⟨decided', hdecided, h⟩ := Checked.bind_eq_ok.mp h
    obtain ⟨rfl, rfl⟩ := Prod.mk.inj (Except.ok.inj h)
    exact ⟨ht, hdecided⟩
  · rintro ⟨hs, hdecided⟩
    exact ⟨s, hs, Checked.bind_eq_ok.mpr ⟨decided, hdecided, rfl⟩⟩

theorem expectEvents_eq_pass [BEq E] (hc : sc.command? = some c) {expected : List E} :
    sc.expectEvents d event reason expected = .ok .pass ↔
      ∃ s events, sc.state d = .ok s ∧ d.decide c s = .ok (.ok events) ∧
        (events == expected) = true := by
  rw [expectEvents, hc]
  show (sc.decided d c >>= _) = _ ↔ _
  rw [Checked.bind_eq_ok]
  constructor
  · rintro ⟨⟨s, r | events⟩, hdecided, h⟩
    · cases h
    · obtain ⟨hs, hdecide⟩ := decided_eq_ok.mp hdecided
      exact ⟨s, events, hs, hdecide, Verdict.compare_eq_pass.mp (Except.ok.inj h)⟩
  · rintro ⟨s, events, hs, hdecide, hsame⟩
    exact ⟨(s, .ok events), decided_eq_ok.mpr ⟨hs, hdecide⟩,
      congrArg Except.ok (Verdict.compare_eq_pass.mpr hsame)⟩

theorem expectState_eq_pass [BEq S] (hc : sc.command? = some c) {expected : S} :
    sc.expectState d state reason expected = .ok .pass ↔
      ∃ s events t, sc.state d = .ok s ∧ d.decide c s = .ok (.ok events) ∧
        d.evolveAll s events = .ok t ∧ (t == expected) = true := by
  rw [expectState, hc]
  show (sc.decided d c >>= _) = _ ↔ _
  rw [Checked.bind_eq_ok]
  constructor
  · rintro ⟨⟨s, r | events⟩, hdecided, h⟩
    · cases h
    · obtain ⟨hs, hdecide⟩ := decided_eq_ok.mp hdecided
      obtain ⟨t, ht, h⟩ := Checked.bind_eq_ok.mp h
      exact ⟨s, events, t, hs, hdecide, ht, Verdict.compare_eq_pass.mp (Except.ok.inj h)⟩
  · rintro ⟨s, events, t, hs, hdecide, ht, hsame⟩
    exact ⟨(s, .ok events), decided_eq_ok.mpr ⟨hs, hdecide⟩, Checked.bind_eq_ok.mpr
      ⟨t, ht, congrArg Except.ok (Verdict.compare_eq_pass.mpr hsame)⟩⟩

theorem expectError_eq_pass [BEq R] (hc : sc.command? = some c) {expected : R} :
    sc.expectError d event reason expected = .ok .pass ↔
      ∃ s r, sc.state d = .ok s ∧ d.decide c s = .ok (.error r) ∧ (r == expected) = true := by
  rw [expectError, hc]
  show (sc.decided d c >>= _) = _ ↔ _
  rw [Checked.bind_eq_ok]
  constructor
  · rintro ⟨⟨s, r | events⟩, hdecided, h⟩
    · obtain ⟨hs, hdecide⟩ := decided_eq_ok.mp hdecided
      exact ⟨s, r, hs, hdecide, Verdict.compare_eq_pass.mp (Except.ok.inj h)⟩
    · cases h
  · rintro ⟨s, r, hs, hdecide, hsame⟩
    exact ⟨(s, .error r), decided_eq_ok.mpr ⟨hs, hdecide⟩,
      congrArg Except.ok (Verdict.compare_eq_pass.mpr hsame)⟩

end DeciderScenario

/-! ## Engines -/

/-- The store has that for the input, and gives back whatever is written next. -/
def Backend.Holding (b : Backend ⟨I, α, A, A⟩ ω) (i : I) (w : ω) (stored : α) : Prop :=
  ∃ w', b.fetch i w = (.ok (.ok stored), w') ∧ ∀ data, (b.write data w').1 = .ok (.ok data)

theorem Backend.holding_log (c : C) (log : List E) :
    (Backend.log : Backend (Exchange.events C E) _).Holding c log log :=
  ⟨log, rfl, fun _ => rfl⟩

theorem Backend.holding_slot (i : I) (slot : Option S) :
    (Backend.slot : Backend (Exchange.states I S) _).Holding i slot slot :=
  ⟨slot, rfl, fun _ => rfl⟩

/-- The actions published, all of them accepted. -/
def Backend.published : Backend (Exchange.actions I A) (List A) where
  fetch _ done := (.error .malformed, done)
  write actions done := (.ok (.ok actions), done ++ actions)
  consult _ _ := none

theorem Backend.slot_keepsStates (layout : Layout Unit I E S) :
    Backend.slot.KeepsStates layout fun slot _ => slot where
  fetch _ slot := ⟨slot, rfl, rfl⟩
  write s _ := .inr ⟨some s, rfl, rfl, fun () hne => absurd rfl hne⟩

theorem Backend.slot_hasRoom (target : S → Unit) :
    (Backend.slot : Backend (Exchange.states I S) _).HasRoom target fun _ _ _ => True where
  fetch _ _ _ _ h := h
  write _ _ _ _ := ⟨Reply.not_breaks_ok _, trivial⟩

theorem Outcome.result_eq_failed {o : Outcome ε α} {e : ε} :
    o.result = .ok (.error e) ↔ o = .failed e := by
  cases o <;> simp [result]

/-- What a call comes to over such a store. -/
def Course.result (course : Course ⟨I, α, A, A⟩ ε) : Checked (Except ε A) :=
  match course with
  | .ends o => o.result
  | .writes data => .ok (.ok data)

theorem result_of_holding {b : Backend ⟨I, α, A, A⟩ ω} {i : I} {w : ω} {stored : α}
    (h : b.Holding i w stored) (onFetch onWrite : StoreError → ε)
    (course : α → Course ⟨I, α, A, A⟩ ε) :
    ((once i onFetch onWrite course).run b w).outcome.result = (course stored).result := by
  obtain ⟨w', hfetch, hwrite⟩ := h
  rcases hcourse : course stored with o | data
  · rw [run_once_ends hfetch hcourse]
    rfl
  · rcases hd : b.write data w' with ⟨reply, w''⟩
    have hreply := hwrite data
    rw [hd] at hreply
    obtain rfl : reply = .ok (.ok data) := hreply
    rw [run_once_writes hfetch hcourse hd]
    rfl

theorem EventSourced.result_of_holding {d : Decider C S E R} {b : Backend (Exchange.events C E) ω}
    {c : C} {w : ω} {log : List E} (h : b.Holding c w log) (fuel : Nat) :
    ∃ r, (plain d).handle b fuel c w = some r ∧
      r.outcome.result = (do d.attempt c (← d.replay log)) := by
  refine ⟨_, Engine.handle_ofProgram _ b fuel c w, ?_⟩
  have hrun := EventMachines.result_of_holding h (.fetchFailed c) (.storeFailed c) (course d c)
  rw [← unnoted_execute, run_unnoted] at hrun
  refine hrun.trans ?_
  rw [course]
  rcases d.replay log with x | s
  · rfl
  · show ((Outcome.ofResult (d.attempt c s)).course _).result = d.attempt c s
    rcases d.attempt c s with x | e | _ | ⟨e, events⟩ <;> rfl

theorem StateStored.result_of_holding {d : Decider C S E R} {b : Backend (Exchange.states C S) ω}
    {c : C} {w : ω} {slot : Option S} (h : b.Holding c w slot) (fuel : Nat) :
    ∃ r, (plain d).handle b fuel c w = some r ∧
      r.outcome.result = (do (d.becomes c (← d.current slot)).result) := by
  refine ⟨_, Engine.handle_ofProgram _ b fuel c w, ?_⟩
  have hrun := EventMachines.result_of_holding h (.fetchFailed c) (.storeFailed c)
    (.update d.current (d.becomes c))
  rw [← unnoted_plain, run_unnoted] at hrun
  refine hrun.trans ?_
  rw [Course.update]
  rcases d.current slot with x | s
  · rfl
  · show ((d.becomes c s).course _).result = (d.becomes c s).result
    cases d.becomes c s <;> rfl

/-! ## What a scenario tells of an engine -/

namespace Past

/-- The log is the history, or one that leads to the state. -/
def Logged (d : Decider C S E R) : Past S E → List E → Prop
  | events history, log => log = history
  | state s, log => d.replay log = .ok s

/-- What is stored is the state, or the one that the history leads to. -/
def Stored (d : Decider C S E R) : Past S E → S → Prop
  | events history, t => d.replay history = .ok t
  | state s, t => t = s

end Past

section

variable {sc : DeciderScenario C S E} {d : Decider C S E R} {c : C}

theorem Past.Logged.replay_eq {log : List E} (h : sc.past.Logged d log) :
    d.replay log = sc.state d := by
  rcases sc with ⟨history | s, command?⟩
  · exact congrArg d.replay h
  · exact h

theorem Past.Stored.state_eq {t : S} (h : sc.past.Stored d t) : sc.state d = .ok t := by
  rcases sc with ⟨history | s, command?⟩
  · exact h
  · exact congrArg Except.ok (Eq.symm h)

theorem Decider.attempt_eq_rejected {s : S} (hterminal : d.isTerminal c s = .ok false) {r : R} :
    d.attempt c s = .ok (.error (.rejected c r)) ↔ d.decide c s = .ok (.error r) := by
  rw [attempt_eq_error]
  constructor
  · rintro (⟨-, h⟩ | ⟨-, r', hdecide, h⟩)
    · cases h
    · cases h
      exact hdecide
  · exact fun h => .inr ⟨hterminal, r, h, rfl⟩

/-- The endings of the scenario against the engines: with a store of events and with one of states,
as the past says. -/
structure DeciderScenario.Tells [BEq E] [BEq S] [BEq R] (sc : DeciderScenario C S E)
    (d : Decider C S E R) (c : C) : Prop where
  log : ∀ {ω : Type} (b : Backend (Exchange.events C E) ω) w log fuel, b.Holding c w log →
    sc.past.Logged d log → ∃ r, (EventSourced.plain d).handle b fuel c w = some r ∧
      (∀ event reason expected, sc.expectEvents d event reason expected = .ok .pass ↔
        ∃ events, r.outcome = .done events ∧ (events == expected) = true) ∧
      ∀ event reason expected, sc.expectError d event reason expected = .ok .pass ↔
        ∃ why, r.outcome = .failed (.rejected c why) ∧ (why == expected) = true
  slot : ∀ {ω : Type} (b : Backend (Exchange.states C S) ω) w t fuel, b.Holding c w (some t) →
    sc.past.Stored d t → ∃ r, (StateStored.plain d).handle b fuel c w = some r ∧
      (∀ state reason expected, sc.expectState d state reason expected = .ok .pass ↔
        ∃ t', r.outcome = .done t' ∧ (t' == expected) = true) ∧
      ∀ event reason expected, sc.expectError d event reason expected = .ok .pass ↔
        ∃ why, r.outcome = .failed (.rejected c why) ∧ (why == expected) = true

/-- The command meets no terminal state. -/
theorem DeciderScenario.tells [BEq E] [BEq S] [BEq R] (hc : sc.command? = some c)
    (hterminal : ∀ s, sc.state d = .ok s → d.isTerminal c s = .ok false) : sc.Tells d c where
  log b w log fuel hb hlog := by
    obtain ⟨r, hr, hresult⟩ := EventSourced.result_of_holding (d := d) hb fuel
    rw [hlog.replay_eq] at hresult
    refine ⟨r, hr, fun event reason expected => ?_, fun event reason expected => ?_⟩
    · rw [expectEvents_eq_pass hc]
      constructor
      · rintro ⟨s, events, hs, hdecide, hsame⟩
        refine ⟨events, Outcome.result_eq_ok.mp (hresult.trans ?_), hsame⟩
        rw [hs]
        exact Decider.attempt_eq_ok.mpr ⟨hterminal s hs, hdecide⟩
      · rintro ⟨events, houtcome, hsame⟩
        have hdone := Outcome.result_eq_ok.mpr houtcome
        obtain ⟨s, hs, hattempt⟩ := Checked.bind_eq_ok.mp (hresult.symm.trans hdone)
        exact ⟨s, events, hs, (Decider.attempt_eq_ok.mp hattempt).2, hsame⟩
    · rw [expectError_eq_pass hc]
      constructor
      · rintro ⟨s, why, hs, hdecide, hsame⟩
        refine ⟨why, Outcome.result_eq_failed.mp (hresult.trans ?_), hsame⟩
        rw [hs]
        exact (Decider.attempt_eq_rejected (hterminal s hs)).mpr hdecide
      · rintro ⟨why, houtcome, hsame⟩
        have hfailed := Outcome.result_eq_failed.mpr houtcome
        obtain ⟨s, hs, hattempt⟩ := Checked.bind_eq_ok.mp (hresult.symm.trans hfailed)
        exact ⟨s, why, hs, (Decider.attempt_eq_rejected (hterminal s hs)).mp hattempt, hsame⟩
  slot b w t fuel hb ht := by
    obtain ⟨r, hr, hresult⟩ := StateStored.result_of_holding (d := d) hb fuel
    have hs := ht.state_eq
    replace hresult : r.outcome.result = (d.becomes c t).result := hresult
    refine ⟨r, hr, fun state reason expected => ?_, fun event reason expected => ?_⟩
    · rw [expectState_eq_pass hc]
      constructor
      · rintro ⟨s, events, t', hs', hdecide, hevolve, hsame⟩
        obtain rfl := Except.ok.inj (hs.symm.trans hs')
        have hbecomes := Decider.becomes_eq_done.mpr ⟨events, hterminal t hs, hdecide, hevolve⟩
        exact ⟨t', Outcome.result_eq_ok.mp (hresult.trans (Outcome.result_eq_ok.mpr hbecomes)),
          hsame⟩
      · rintro ⟨t', houtcome, hsame⟩
        have hbecomes := Outcome.result_eq_ok.mp
          (hresult.symm.trans (Outcome.result_eq_ok.mpr houtcome))
        obtain ⟨events, -, hdecide, hevolve⟩ := Decider.becomes_eq_done.mp hbecomes
        exact ⟨t, events, t', hs, hdecide, hevolve, hsame⟩
    · rw [expectError_eq_pass hc]
      constructor
      · rintro ⟨s, why, hs', hdecide, hsame⟩
        obtain rfl := Except.ok.inj (hs.symm.trans hs')
        have hattempt := (Decider.attempt_eq_rejected (hterminal t hs)).mpr hdecide
        have hbecomes := Decider.becomes_eq_failed.mpr hattempt
        exact ⟨why, Outcome.result_eq_failed.mp
          (hresult.trans (Outcome.result_eq_failed.mpr hbecomes)), hsame⟩
      · rintro ⟨why, houtcome, hsame⟩
        have hbecomes := Outcome.result_eq_failed.mp
          (hresult.symm.trans (Outcome.result_eq_failed.mpr houtcome))
        have hattempt := Decider.becomes_eq_failed.mp hbecomes
        exact ⟨t, why, hs, (Decider.attempt_eq_rejected (hterminal t hs)).mp hattempt, hsame⟩

end

/-- The ending of the scenario against the engine that folds the events one by one: into a store
that has nothing yet under their key. -/
theorem ViewScenario.tells [BEq S] (v : View S E) (sc : ViewScenario E) (hne : sc.history ≠ [])
    {layout : Layout K E E' S} {b : Backend (Exchange.states E S) ω} {held : ω → K → Option S}
    {room : ω → K → Nat → Prop} (hb : b.KeepsStates layout held)
    (hroom : b.HasRoom layout.ofState room) {key : K} {w : ω} (hw : room w key sc.history.length)
    (hempty : held w key = none) (hhome : UnderKey layout v key none sc.history) (fuel : Nat) :
    ∃ batch, (Projection.plain v).handleAll b fuel (sc.history.map .ok) w = some batch ∧
      ∀ state expected, sc.expectState v state expected = .ok .pass ↔
        ∃ (answers : List S) (t : S), batch.results = .ok (answers.map .ok) ∧
          answers.getLast? = some t ∧
          held batch.world key = some t ∧ (t == expected) = true := by
  have hfolds := plain_folds hb hroom hw (hempty ▸ hhome)
  have hpass : ∀ state expected, sc.expectState v state expected = .ok .pass ↔
      ∃ t, v.newState none sc.history = .ok t ∧ (t == expected) = true := by
    intro state expected
    rw [expectState, View.expectState, Checked.bind_eq_ok]
    exact exists_congr fun t => and_congr_right fun _ =>
      ⟨fun h => Verdict.compare_eq_pass.mp (Except.ok.inj h),
        fun h => congrArg Except.ok (Verdict.compare_eq_pass.mpr h)⟩
  simp only [hpass]
  rcases hfold : v.newState none sc.history with x | last
  · obtain ⟨batch, hbatch, hresults⟩ := hfolds.breaks fuel x hne (by simpa [hempty] using hfold)
    refine ⟨batch, hbatch, fun state expected => ⟨?_, ?_⟩⟩
    · rintro ⟨t, ht, -⟩
      cases ht
    · rintro ⟨answers, t, hok, -⟩
      cases hresults.symm.trans hok
  · obtain ⟨answers, w', ⟨batch, hbatch, hresults, rfl⟩, hlength, -, hheld, hcurrent⟩ :=
      hfolds.completes fuel last (by simpa [hempty] using hfold)
    have hanswers : answers ≠ [] := by
      rintro rfl
      exact hne (List.eq_nil_of_length_eq_zero hlength.symm)
    obtain ⟨t, ht⟩ := Option.ne_none_iff_exists'.mp (mt List.getLast?_eq_none_iff.mp hanswers)
    rw [ht] at hheld
    obtain rfl : t = last := by
      simp only [hheld, Option.some_or, Option.map_some, id] at hcurrent
      exact Except.ok.inj hcurrent
    refine ⟨batch, hbatch, fun state expected => ⟨?_, ?_⟩⟩
    · rintro ⟨_, ⟨⟩, hsame⟩
      exact ⟨answers, t, hresults, ht, hheld, hsame⟩
    · rintro ⟨answers', t', -, -, hheld', hsame⟩
      obtain rfl := Option.some.inj (hheld'.symm.trans hheld)
      exact ⟨t', rfl, hsame⟩

/-- The ending of the scenario against the engine that publishes the actions. -/
theorem SagaScenario.tells [BEq A] (g : Saga E A) {sc : SagaScenario E} {result : E}
    (hresult : sc.result? = some result) {b : Backend (Exchange.actions E A) ω} {w : ω}
    (hb : ∀ data, (b.write data w).1 = .ok (.ok data)) (fuel : Nat) :
    ∃ r, (dispatch g).handle b fuel result w = some r ∧
      ∀ action expected, sc.expectActions g action expected = .ok .pass ↔
        ∃ actions, r.outcome = .done actions ∧ r.writes = [(actions, .ok (.ok actions))] ∧
          (actions == expected) = true := by
  obtain rfl : sc = ⟨some result⟩ := by
    cases sc
    cases hresult
    rfl
  obtain ⟨r, hr, hquiet⟩ : ∃ r, (dispatch g).handle b fuel result w = some r ∧
      r.quiet = (follow (fun error => .publishingFailed (some result) (.store error))
        ((Outcome.ofChecked (g.react result)).course fun actions => .writes actions)).run b w := by
    refine ⟨_, Engine.handle_ofProgram _ b fuel result w, ?_⟩
    rw [← unnoted_dispatch, run_unnoted]
  refine ⟨r, hr, fun action expected => ?_⟩
  show (g.react result >>= _) = _ ↔ _
  rw [Checked.bind_eq_ok]
  rcases hreact : g.react result with x | actions <;> rw [hreact] at hquiet
  · have houtcome : r.outcome = .broken x := congrArg Run.outcome hquiet
    rw [houtcome]
    exact ⟨nofun, nofun⟩
  · replace hquiet := hquiet.trans (run_follow_writes b _ actions w)
    rw [hb] at hquiet
    have houtcome : r.outcome = .done actions := congrArg Run.outcome hquiet
    have hwrites : r.writes = [(actions, .ok (.ok actions))] := by
      rw [← Run.writes_quiet, hquiet]
      rfl
    rw [houtcome, hwrites]
    constructor
    · rintro ⟨_, ⟨⟩, h⟩
      exact ⟨actions, rfl, rfl, Verdict.compare_eq_pass.mp (Except.ok.inj h)⟩
    · rintro ⟨_, ⟨⟩, -, hsame⟩
      exact ⟨actions, rfl, congrArg Except.ok (Verdict.compare_eq_pass.mpr hsame)⟩

/-- **Scenarios and engines.** Of all calls that write the scenario of a decider the last past and
the last command count, and without a command no ending passes. With a command that meets no
terminal state, the endings pass exactly if the engines come to that: over a store of events that
holds the past, and over one of states that holds what the past leads to. Scenarios of views and of
sagas are as true to the engines that project and publish; and an ending that does not pass
panics. -/
theorem scenarios_tell_what_engines_do [BEq E] [BEq S] [BEq R] [BEq A] (d : Decider C S E R)
    (v : View S E) (g : Saga E A) :
    (∀ calls : List (ScenarioCall C S E),
      DeciderScenario.written calls =
        ⟨ScenarioCall.lastPast calls, ScenarioCall.lastCommand? calls⟩ ∧
      (ScenarioCall.lastCommand? calls = none → ∀ event state reason,
        (∀ expected, (DeciderScenario.written calls).expectEvents d event reason expected =
          .ok .missingCommand) ∧
        (∀ expected, (DeciderScenario.written calls).expectState d state reason expected =
          .ok .missingCommand) ∧
        ∀ expected, (DeciderScenario.written calls).expectError d event reason expected =
          .ok .missingCommand) ∧
      ∀ c, ScenarioCall.lastCommand? calls = some c →
        (∀ s, (DeciderScenario.written calls).state d = .ok s → d.isTerminal c s = .ok false) →
        (DeciderScenario.written calls).Tells d c) ∧
    (∀ ending, Xor (ending = .ok .pass) (Panics ending)) ∧
    (∀ calls : List (List E), ViewScenario.written calls = ⟨calls.getLast?.getD []⟩ ∧
      ((ViewScenario.written calls).history ≠ [] →
        ∀ {K E' ω : Type} {layout : Layout K E E' S} {b : Backend (Exchange.states E S) ω}
          {held : ω → K → Option S} {room : ω → K → Nat → Prop} {key : K} {w : ω},
          b.KeepsStates layout held → b.HasRoom layout.ofState room →
          room w key (ViewScenario.written calls).history.length → held w key = none →
          UnderKey layout v key none (ViewScenario.written calls).history →
          ∀ fuel, ∃ batch, (Projection.plain v).handleAll b fuel
              ((ViewScenario.written calls).history.map .ok) w = some batch ∧
            ∀ state expected,
              (ViewScenario.written calls).expectState v state expected = .ok .pass ↔
                ∃ (answers : List S) (t : S), batch.results = .ok (answers.map .ok) ∧
                  answers.getLast? = some t ∧ held batch.world key = some t ∧
                  (t == expected) = true)) ∧
    ∀ calls : List E, SagaScenario.written calls = ⟨calls.getLast?⟩ ∧
      (calls.getLast? = none → ∀ action expected,
        (SagaScenario.written calls).expectActions g action expected = .ok .missingResult) ∧
      ∀ result, calls.getLast? = some result →
        ∀ {ω : Type} {b : Backend (Exchange.actions E A) ω} {w : ω},
          (∀ data, (b.write data w).1 = .ok (.ok data)) →
          ∀ fuel, ∃ r, (dispatch g).handle b fuel result w = some r ∧ ∀ action expected,
            (SagaScenario.written calls).expectActions g action expected = .ok .pass ↔
              ∃ actions, r.outcome = .done actions ∧ r.writes = [(actions, .ok (.ok actions))] ∧
                (actions == expected) = true := by
  refine ⟨fun calls => ?_, passes_xor_panics, fun calls => ?_, fun calls => ?_⟩
  · have hwritten := DeciderScenario.written_eq calls
    refine ⟨hwritten, fun hnone event state reason => ?_, fun c hc hterminal => ?_⟩
    · rw [hwritten, hnone]
      exact ⟨fun _ => rfl, fun _ => rfl, fun _ => rfl⟩
    · exact DeciderScenario.tells ((congrArg DeciderScenario.command? hwritten).trans hc) hterminal
  · exact ⟨ViewScenario.written_eq calls, fun hne _ _ _ _ _ _ _ _ _ hb hroom hw hempty hhome =>
      ViewScenario.tells v _ hne hb hroom hw hempty hhome⟩
  · have hwritten := SagaScenario.written_eq calls
    refine ⟨hwritten, fun hnone action expected => ?_, fun result hresult _ _ _ hb => ?_⟩
    · rw [hwritten, hnone]
      rfl
    · exact SagaScenario.tells g ((congrArg SagaScenario.result? hwritten).trans hresult) hb

/-- Three times a past and twice a command: the last ones count. The sum of the last past takes the
three in both engines, as the scenario says. -/
theorem summing_scenario :
    let calls : List (ScenarioCall Nat Nat Nat) :=
      [.given [1], .when 9, .givenState 5, .given [8, 8], .when 3]
    let sc : DeciderScenario Nat Nat Nat := .written calls
    let text : Nat → String := toString
    sc.expectEvents .summing text id [3] = .ok .pass ∧
    sc.expectState .summing text id 19 = .ok .pass ∧
    (∃ r, (EventSourced.plain Decider.summing).handle Backend.log 0 3 [8, 8] = some r ∧
      r.outcome = .done [3]) ∧
    (∃ r, (StateStored.plain Decider.summing).handle Backend.slot 0 3 (some 16) = some r ∧
      r.outcome = .done 19) ∧
    (∃ r, (dispatch Saga.countdown).handle Backend.published 0 5 [] = some r ∧
      r.outcome = .done [4, 3]) ∧
    ∃ batch, (Projection.plain (⟨Decider.summing.evolve, Decider.summing.initial⟩ :
        View Nat Nat)).handleAll Backend.slot 0 ([2, 3].map .ok) none = some batch ∧
      batch.world = some 5 := by
  intro calls sc text
  obtain ⟨hdecider, -, hview, hsaga⟩ := scenarios_tell_what_engines_do Decider.summing
    ⟨Decider.summing.evolve, Decider.summing.initial⟩ Saga.countdown
  have htells : sc.Tells Decider.summing 3 := by
    refine (hdecider calls).2.2 3 rfl fun s hs => ?_
    cases hs
    rfl
  refine ⟨rfl, rfl, ?_, ?_, ?_, ?_⟩
  · obtain ⟨r, hr, hevents, -⟩ := htells.log Backend.log [8, 8] [8, 8] 0
      (Backend.holding_log 3 [8, 8]) rfl
    obtain ⟨events, hdone, hsame⟩ := (hevents text id [3]).mp rfl
    exact ⟨r, hr, eq_of_beq hsame ▸ hdone⟩
  · obtain ⟨r, hr, hstate, -⟩ := htells.slot Backend.slot (some 16) 16 0
      (Backend.holding_slot 3 (some 16)) rfl
    obtain ⟨t, hdone, hsame⟩ := (hstate text id 19).mp rfl
    exact ⟨r, hr, eq_of_beq hsame ▸ hdone⟩
  · have hpublished : ∀ data, ((Backend.published : Backend (Exchange.actions Nat Nat) _).write data
        []).1 = .ok (.ok data) := fun _ => rfl
    obtain ⟨r, hr, hactions⟩ := (hsaga [5]).2.2 5 rfl hpublished 0
    obtain ⟨actions, hdone, -, hsame⟩ := (hactions text [4, 3]).mp rfl
    exact ⟨r, hr, eq_of_beq hsame ▸ hdone⟩
  · obtain ⟨batch, hbatch, hstate⟩ := (hview [[9], [2, 3]]).2 (List.cons_ne_nil 2 [3])
      (w := none) (Backend.slot_keepsStates Layout.single)
      (Backend.slot_hasRoom Layout.single.ofState) trivial rfl
      ⟨fun _ _ => rfl, fun _ _ _ _ => rfl⟩ 0
    obtain ⟨-, t, -, -, hheld, hsame⟩ := (hstate text 5).mp rfl
    exact ⟨batch, hbatch, eq_of_beq hsame ▸ hheld⟩

end EventMachines
