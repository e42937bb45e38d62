import EventMachines.Proofs.Cascade.Translation
import EventMachines.Proofs.Execution.Turns
import EventMachines.Proofs.Orchestration.Silence

/-!
Versions and numbers are of no consequence to a single client. Where one call comes after the other,
what a call writes is what its store expects, so an engine that locks or deduplicates comes to what
the engine without does, and its store holds the same but for the marks.

* `Handling.Unbroken`, `Handling.AtHome`: what is asked of the calls; `SameData`: what stays the
  same;
* `EventSourced.plain_transparent`, `EventSourced.orchestrating_transparent`: over streams, where
  `CascadesAlike` says what a cascade comes to;
* `StateStored.plain_transparent`, `StateStored.deduplicating_transparent`,
  `StateStored.orchestrating_transparent`: over states, all from `statesAlike_of_ported`;
* `marks_are_transparent`: so it is for every pair of engines.
-/

namespace EventMachines

open Cascade
open Program hiding bind

variable {P Q : Exchange} {C I S E R T X K V U Item Item' Answer Answer' ε ε' α ω υ : Type}

/-! ## What the store can tell of a call -/

theorem writes_of_ported {r q : Run P ε α ω} (h : r.ported = q.ported) : r.writes = q.writes := by
  have hported : ∀ r : Run P ε α ω, r.ported.writes = r.writes := by
    intro r
    show (r.transcript.filter Happening.isRequest).filterMap Happening.write? = _
    rw [List.filterMap_filter]
    refine congrArg (List.filterMap · r.transcript) (funext fun h => ?_)
    rcases h with n | ⟨i, reply⟩ | ⟨data, reply⟩ | ⟨i, _ | v⟩ <;> rfl
  rw [← hported, h, hported]

theorem ported_of_unnoted {p q : Program P ε α} (h : p.unnoted = q) (b : Backend P ω) (w : ω) :
    (p.run b w).ported = (q.run b w).ported := by
  rw [← h, run_unnoted, Run.ported_quiet]

theorem ported_of_quiet {r q : Run P ε α ω} (h : r.quiet = q.quiet) : r.ported = q.ported := by
  rw [← Run.ported_quiet, h, Run.ported_quiet]

/-- The store has not broken off. -/
def Handling.Unbroken (t : Handling P ε Item Answer ω) : Prop := ¬ t.run.Breaks

instance (t : Handling P ε Item Answer ω) : Decidable t.Unbroken :=
  inferInstanceAs (Decidable (¬ _))

/-- Nor does anything that was saved belong anywhere but under the key of the item. -/
structure Handling.AtHome (target : P.Write → Option K) (source : Item → K)
    (t : Handling P ε Item Answer ω) : Prop where
  unbroken : t.Unbroken
  home : t.run.SavesUnder target (source t.item)

instance [DecidableEq K] (target : P.Write → Option K) (source : Item → K)
    (t : Handling P ε Item Answer ω) : Decidable (t.AtHome target source) :=
  decidable_of_iff (t.Unbroken ∧ t.run.SavesUnder target (source t.item))
    ⟨fun h => ⟨h.1, h.2⟩, fun h => ⟨h.unbroken, h.home⟩⟩

/-- The store with marks holds the same data. -/
def SameData (data : U → V) (held : ω → K → V) (held' : υ → K → U) (w : ω) (v : υ) : Prop :=
  ∀ key, data (held' v key) = held w key

/-- A store of which the calls made so far tell that it broke off. -/
def Lost (s : ω × List (Happening P)) : Prop := ∃ data x, .wrote data (.error x) ∈ s.2

theorem lost_of_breaks {b : Backend P ω} {p : Program P ε α} {s : ω × List (Happening P)}
    (h : (p.run b s.1).Breaks) : ∃ x s', p.exec b s = (.broken x, s') ∧ Lost s' := by
  obtain ⟨x, hx⟩ := broken_of_breaks p h
  obtain ⟨data, y, hmem⟩ := h
  refine ⟨x, _, Prod.ext hx rfl, data, y, List.mem_append_right _ ?_⟩
  exact List.mem_filter.mpr ⟨hmem, rfl⟩

/-! ## Streams -/

section

variable {b : Backend (Exchange.events C E) ω} {b' : Backend (Exchange.lockedEvents C E) υ}
  {layout : Layout K C E T} {held : ω → K → List E} {held' : υ → K → List (E × Version)}
  {d : Decider C S E R} (hb : b.KeepsStreams layout held)
  (hb' : b'.KeepsVersions layout held')

/-- No version is told, so an execution of a cascade comes to what a single command does. -/
theorem EventSourced.executeAt_run (huntold : ∀ c v, b'.consult c v = none) (c : C) (depth : Nat)
    (v : υ) :
    let q := (executeLocking d c none).run b' v
    ((executeAt d c depth).run b' v).outcome = q.outcome ∧
      ((executeAt d c depth).run b' v).world = q.world ∧
      ((executeAt d c depth).run b' v).writes = q.writes := by
  cases depth with
  | zero =>
    have hasked : (executeAt d c 0).run b' v =
        ((executeLocking d c (b'.consult c v)).run b' v).after (.consulted c (b'.consult c v)) :=
      rfl
    rw [hasked, huntold c v]
    exact ⟨rfl, rfl, rfl⟩
  | succ depth => exact ⟨rfl, rfl, rfl⟩

include hb hb'

theorem EventSourced.plain_transparent (fuel : Nat) :
    (plain d).GoesWith (locking d) b b' fuel id (SameData (List.map (·.1)) held held')
      (fun t t' => EventsAlike held held' (layout.ofInput t'.item) t'.before t.run t'.run)
      (Handling.AtHome (fun batch => batch.head?.map layout.ofEvent) layout.ofInput)
      Handling.Unbroken := by
  refine Engine.goesWith_of_calls fun c w v hsame hgood hgood' => ?_
  have hr : (plain d).handle b fuel c w = some _ := Engine.handle_ofProgram _ b fuel c w
  have hr' : (locking d).handle b' fuel c v = some _ := Engine.handle_ofProgram _ b' fuel c v
  obtain ⟨hfine, hhome⟩ := hgood _ hr
  have hfine' := hgood' _ hr'
  show Option.Rel _ ((plain d).handle b fuel c w) _
  rw [hr, hr']
  -- Before the command is executed, only a note is made.
  rcases executions_alike hb hb' c hsame (hhome.of_writes rfl) with hbreaks | hbreaks | halike
  · exact (hfine (hbreaks.of_writes rfl)).elim
  · exact (hfine' (hbreaks.of_writes rfl)).elim
  · exact .some ⟨⟨halike.outcome, halike.streams, halike.grown, halike.kept, halike.unconflicted⟩,
      halike.streams⟩

/-- What came of a cascade over streams without and with versions: the same but for the versions.
Every stream has grown, and its versions go on. -/
structure CascadesAlike (held : ω → K → List E) (held' : υ → K → List (E × Version)) (before : υ)
    (r : Run P (Failure C R) (List E) ω) (q : Run Q (Failure C R) (List (E × Version)) υ) :
    Prop where
  outcome : q.outcome.map (List.map (·.1)) = r.outcome
  streams : ∀ k, (held' q.world k).map (·.1) = held r.world k
  grown : ∀ k, ∃ added, Grown (held' before k) added (held' q.world k)
  unconflicted : q.outcome.Unconflicted

/-- **One command of a cascade.** -/
theorem EventSourced.exec_alike (hroutes : layout.Routes d) (before : υ) (c : C) (depth : Nat)
    (s : ω × List (Happening (Exchange.events C E)))
    (s' : υ × List (Happening (Exchange.lockedEvents C E)))
    (h : SameData (List.map (·.1)) held held' s.1 s'.1 ∧
      ∀ k, ∃ added, Grown (held' before k) added (held' s'.1 k)) :
    (∃ x t, (execute d c).exec b s = (.broken x, t) ∧ Lost t) ∨
    (∃ x t, (executeAt d c depth).exec b' s' = (.broken x, t) ∧ Lost t) ∨
    (((executeAt d c depth).exec b' s').1.map (List.map (·.1)) = ((execute d c).exec b s).1 ∧
      ((execute d c).exec b s).1.Unconflicted ∧
      SameData (List.map (·.1)) held held' ((execute d c).exec b s).2.1
        ((executeAt d c depth).exec b' s').2.1 ∧
      ∀ k, ∃ added,
        Grown (held' before k) added (held' ((executeAt d c depth).exec b' s').2.1 k)) := by
  obtain ⟨houtcome, hworld, hwrites⟩ := executeAt_run (d := d) hb'.untold c depth s'.1
  rcases executions_alike hb hb' c h.1 (execute_savesUnder hroutes b c s.1) with
    hlost | hlost | halike
  · exact .inl (lost_of_breaks hlost)
  · exact .inr (.inl (lost_of_breaks (hlost.of_writes hwrites)))
  · have hunconflicted := (Outcome.unconflicted_iff halike.outcome).mp halike.unconflicted
    refine .inr (.inr ⟨?_, hunconflicted, ?_, fun k => ?_⟩)
    · show ((executeAt d c depth).run b' s'.1).outcome.map _ = _
      rw [houtcome]
      exact halike.outcome
    · show SameData _ held held' _ ((executeAt d c depth).run b' s'.1).world
      rw [hworld]
      exact halike.streams
    · show ∃ added, Grown _ added (held' ((executeAt d c depth).run b' s'.1).world k)
      rw [hworld]
      obtain ⟨earlier, hearlier⟩ := h.2 k
      obtain ⟨added, hadded⟩ := halike.exists_grown k
      exact ⟨earlier ++ added, hearlier.trans hadded⟩

theorem EventSourced.orchestrating_transparent (hroutes : layout.Routes d) (g : Saga E C)
    (limit : DepthLimit) (fuel : Nat) :
    (orchestrating d g limit).GoesWith (lockingOrchestrating d g limit) b b' fuel id
      (SameData (List.map (·.1)) held held')
      (fun t t' => CascadesAlike held held' t'.before t.run t'.run)
      Handling.Unbroken Handling.Unbroken := by
  refine Engine.goesWith_of_calls fun c w v hsame hgood hgood' => ?_
  have hdrive := drive_translated Prod.fst g.react limit (exec_alike hb hb' hroutes v) fuel
    (.start c) (w := (w, [])) (v := (v, [])) ⟨hsame, fun k => ⟨[], .refl _⟩⟩
  have hr := quiet_handle_orchestrating d g limit b fuel c w
  have hr' := quiet_handle_lockingOrchestrating d g limit b' fuel c v
  rcases hdrive with ⟨j, hj, hlost⟩ | ⟨i, hi, hlost⟩ | hrel
  · have hended := hr.trans (congrArg _ hj)
    obtain ⟨r, hended, hquiet⟩ := Option.map_eq_some_iff.mp hended
    have hbreaks : r.quiet.Breaks := hquiet ▸ hlost
    exact absurd (hbreaks.of_writes Run.writes_quiet.symm) (hgood r hended)
  · have hended := hr'.trans (congrArg _ hi)
    obtain ⟨r, hended, hquiet⟩ := Option.map_eq_some_iff.mp hended
    have hbreaks : r.quiet.Breaks := hquiet ▸ hlost
    exact absurd (hbreaks.of_writes Run.writes_quiet.symm) (hgood' r hended)
  · show Option.Rel _ ((orchestrating d g limit).handle b fuel c w) _
    change Option.Rel _ (drive limit g.react _ fuel (.start c) _) _ at hrel
    generalize drive limit g.react _ fuel (.start c) _ = p at hrel hr
    generalize drive limit (fun saved : E × Version => g.react saved.1) _ fuel (.start c) _ = q
      at hrel hr'
    cases hrel with
    | none =>
      rw [Option.map_eq_none_iff.mp hr, Option.map_eq_none_iff.mp hr']
      exact .none
    | @some j i hji =>
      obtain ⟨r, hr, hquiet⟩ := Option.map_eq_some_iff.mp hr
      obtain ⟨r', hr', hquiet'⟩ := Option.map_eq_some_iff.mp hr'
      have houtcome : r.outcome = j.outcome := congrArg Run.outcome hquiet
      have hworld : r.world = j.world.1 := congrArg Run.world hquiet
      have houtcome' : r'.outcome = i.outcome := congrArg Run.outcome hquiet'
      have hworld' : r'.world = i.world.1 := congrArg Run.world hquiet'
      obtain ⟨hsame, hgrown⟩ := hji.world
      rw [← hworld, ← hworld'] at hsame
      rw [← hworld'] at hgrown
      rw [hr, hr']
      have hunconflicted := (Outcome.unconflicted_iff hji.outcome).mpr hji.unconflicted
      refine .some ⟨⟨?_, hsame, hgrown, houtcome' ▸ hunconflicted⟩, hsame⟩
      rw [houtcome, houtcome']
      exact hji.outcome

end

/-! ## States -/

theorem Decider.current_map (d : Decider C S E R) (stored : Option (S × T)) :
    d.current (stored.map (·.1)) = (·.1) <$> storedOr d.initial stored := by
  rcases stored with _ | ⟨s, mark⟩
  · show d.initial = (·.1) <$> (do return (← d.initial, none))
    cases d.initial <;> rfl
  · rfl

theorem Decider.becomes_unconflicted (d : Decider C S E R) (c : C) (s : S) :
    (d.becomes c s).Unconflicted := by
  rw [becomes]
  rcases hattempt : d.attempt c s with x | e | events
  · exact Outcome.unconflicted_broken x
  · exact unconflicted_of_attempt hattempt
  · show (Outcome.ofChecked (d.evolveAll s events) : Outcome (Failure C R) S).Unconflicted
    rcases d.evolveAll s events with x | s'
    · exact Outcome.unconflicted_broken x
    · exact Outcome.unconflicted_done s'

theorem arrival_unconflicted {d : Decider C S E R} {g : Saga E C} {limit : DepthLimit} {fuel : Nat}
    {c : C} {s : S} {j : Journey C E R S}
    (h : drive limit g.react d.inMemory fuel (.start c) s = some j) : j.arrival.Unconflicted := by
  intro e he
  have hfailed : j.outcome = .failed e := by
    rw [Journey.arrival] at he
    rcases hj : j.outcome with outputs | e' | x <;> rw [hj] at he <;> cases he
    rfl
  obtain ⟨-, -, c', depth, -, -, t, -, -, -, -, hrefuses⟩ := (cascaded_of_drive h).refused e hfailed
  rcases hrefuses with ⟨-, rfl⟩ | ⟨-, ⟨-, rfl⟩ | ⟨-, reason, -, rfl⟩⟩ <;> exact ⟨rfl, rfl⟩

theorem StatesAlike.of_ported {held : ω → K → Option S} {held' : υ → K → Option (S × T)}
    {count : Option T → Nat} {key : K} {before : υ} {r r' : Run P (Failure I R) S ω}
    {q q' : Run Q (Failure I R) (S × T) υ} (h : StatesAlike held held' count key before r' q')
    (hr : r.ported = r'.ported) (hq : q.ported = q'.ported) :
    StatesAlike held held' count key before r q := by
  rcases r with ⟨o, w, transcript⟩
  rcases q with ⟨o', v, transcript'⟩
  obtain ⟨rfl, rfl, -⟩ := Run.mk.inj hr
  obtain ⟨rfl, rfl, -⟩ := Run.mk.inj hq
  exact ⟨h.outcome, h.states, h.saved, h.kept, h.unconflicted⟩

namespace StateStored

theorem unnoted_pipeline (d : Decider C S E R) (c : C) (comes : S → Outcome (Failure C R) S) :
    (pipeline c (.fetchFailed c) d.current comes fun _ => conclude c).unnoted =
      once c (.fetchFailed c) (.storeFailed c) (.update d.current comes) :=
  unnoted_read_bind fun _ => follow_course (ofChecked_computes _) fun s =>
    follow_course (halt_computes (comes s)) fun _ => unnoted_save_tell .stateSaved

theorem unnoted_pipeline_locking (d : Decider C S E R) (c : C)
    (comes : S → Outcome (Failure C R) S) :
    (pipeline c (.fetchFailed c) (storedOr d.initial) (fun t => comes t.1) fun t s =>
      saveLocking c s (.ofCurrent t.2)).unnoted =
      once c (.fetchFailed c) (.storeFailed c)
        (.updateMarked d.initial (fun _ => .done ()) comes .ofCurrent) :=
  unnoted_read_bind fun _ => follow_course (ofChecked_computes _) fun t =>
    follow_course (halt_computes (comes t.1)) fun _ =>
      unnoted_save (P := Exchange.lockedStates C S) fun saved =>
        .stateLocked (.ofCurrent t.2) saved.2

section

variable {b : Backend (Exchange.states C S) ω} {b' : Backend ⟨C, Option (S × T), S × X, S × T⟩ υ}
  {layout : Layout K C E S} {held : ω → K → Option S} {held' : υ → K → Option (S × T)}
  {count : Option T → Nat} {due : Option T → X → Prop} {d : Decider C S E R}

/-- Calls that run as one fetch and one save come to the same. -/
theorem statesAlike_of_ported (mark : Option T → X) (hb : b.KeepsStates layout held)
    (hb' : b'.KeepsMarks layout count due held') {c : C} {w : ω} {v : υ}
    (hsame : SameData (Option.map (·.1)) held held' w v) {comes : S → Outcome (Failure C R) S}
    (hcomes : ∀ s, (comes s).Unconflicted) {admits : Option T → Outcome (Failure C R) Unit}
    (hadmits : admits ((held' v (layout.ofInput c)).map (·.2)) = .done ())
    (hdue : due ((held' v (layout.ofInput c)).map (·.2))
      (mark ((held' v (layout.ofInput c)).map (·.2))))
    {r : Run (Exchange.states C S) (Failure C R) S ω}
    {q : Run ⟨C, Option (S × T), S × X, S × T⟩ (Failure C R) (S × T) υ}
    (hr : r.ported = ((once c (.fetchFailed c) (.storeFailed c)
      (.update d.current comes)).run b w).ported)
    (hq : q.ported = ((once c (.fetchFailed c) (.storeFailed c)
      (.updateMarked d.initial admits comes mark)).run b' v).ported)
    (hfine : (⟨c, w, r⟩ : Handling _ _ _ _ _).AtHome (some <| layout.ofState ·) layout.ofInput)
    (hfine' : ¬ q.Breaks) : StatesAlike held held' count (layout.ofInput c) v r q := by
  have hcurrent := d.current_map (held' v (layout.ofInput c))
  rw [hsame] at hcurrent
  rcases updates_alike hb hb' hsame hcurrent hcomes hadmits hdue
    (hfine.home.of_writes (writes_of_ported hr).symm) with hbreaks | hbreaks | halike
  · exact absurd (hbreaks.of_writes (writes_of_ported hr)) hfine.unbroken
  · exact absurd (hbreaks.of_writes (writes_of_ported hq)) hfine'
  · exact halike.of_ported hr hq

/-- Straight lines with the same state to come of it do the same. -/
theorem pipelines_alike {b' : Backend (Exchange.lockedStates C S) υ}
    {held' : υ → K → Option (S × Version)} (hb : b.KeepsStates layout held)
    (hb' : b'.KeepsMarks layout Version.count Version.Due held') {fuel : Nat} {c : C}
    {w : ω} {v : υ}
    (hsame : SameData (Option.map (·.1)) held held' w v) {comes : S → Outcome (Failure C R) S}
    (hcomes : ∀ s, (comes s).Unconflicted) {e : Engine (Exchange.states C S) (Failure C R) C S}
    {e' : Engine (Exchange.lockedStates C S) (Failure C R) C (S × Version)}
    (he : (e.handle b fuel c w).map Run.quiet =
      some ((pipeline c (.fetchFailed c) d.current comes fun _ => conclude c).run b w).quiet)
    {p : Run (Exchange.lockedStates C S) (Failure C R) (S × Version) υ}
    (he' : (e'.handle b' fuel c v).map Run.quiet = some p.quiet)
    (hp : p.ported = ((pipeline c (.fetchFailed c) (storedOr d.initial) (fun t => comes t.1)
      fun t s => saveLocking c s (.ofCurrent t.2)).run b' v).ported)
    (hgood : ∀ r, e.handle b fuel c w = some r →
      (⟨c, w, r⟩ : Handling _ _ _ _ _).AtHome (some <| layout.ofState ·) layout.ofInput)
    (hgood' : ∀ q, e'.handle b' fuel c v = some q → ¬ q.Breaks) :
    Option.Rel (fun r q => StatesAlike held held' Version.count (layout.ofInput c) v r q ∧
        SameData (Option.map (·.1)) held held' r.world q.world)
      (e.handle b fuel c w) (e'.handle b' fuel c v) := by
  obtain ⟨r, hr, hquiet⟩ := Option.map_eq_some_iff.mp he
  obtain ⟨q, hq, hquiet'⟩ := Option.map_eq_some_iff.mp he'
  have halike := statesAlike_of_ported ExpectedVersion.ofCurrent hb hb' hsame hcomes rfl
    (ExpectedVersion.toCurrent_ofCurrent _)
    ((ported_of_quiet hquiet).trans (ported_of_unnoted (unnoted_pipeline d c comes) b w))
    (((ported_of_quiet hquiet').trans hp).trans
      (ported_of_unnoted (unnoted_pipeline_locking d c comes) b' v))
    (hgood r hr) (hgood' q hq)
  rw [hr, hq]
  exact .some ⟨halike, halike.states⟩

theorem plain_transparent {b' : Backend (Exchange.lockedStates C S) υ}
    {held' : υ → K → Option (S × Version)} (hb : b.KeepsStates layout held)
    (hb' : b'.KeepsMarks layout Version.count Version.Due held') (fuel : Nat) :
    (plain d).GoesWith (locking d) b b' fuel id (SameData (Option.map (·.1)) held held')
      (fun t t' => StatesAlike held held' Version.count (layout.ofInput t'.item) t'.before t.run
        t'.run)
      (Handling.AtHome (some <| layout.ofState ·) layout.ofInput) Handling.Unbroken :=
  Engine.goesWith_of_calls fun c w v hsame hgood hgood' =>
    pipelines_alike hb hb' hsame (d.becomes_unconflicted c) (quiet_handle_plain d b fuel c w)
      (quiet_handle_locking d b' fuel c v) rfl hgood hgood'

theorem deduplicating_transparent {b' : Backend (Exchange.numberedStates C S) υ}
    {held' : υ → K → Option (S × SequenceNumber)} (hb : b.KeepsStates layout held)
    (hb' : b'.KeepsMarks layout SequenceNumber.count SequenceNumber.Due held') (fuel : Nat) :
    (plain d).GoesWith (deduplicating d) b b' fuel Prod.fst (SameData (Option.map (·.1)) held held')
      (fun t t' => StatesAlike held held' SequenceNumber.count (layout.ofInput t'.item.1) t'.before
        t.run t'.run)
      (Handling.AtHome (some <| layout.ofState ·) layout.ofInput)
      (fun t => t.Unbroken ∧
        SequenceNumber.Due ((held' t.before (layout.ofInput t.item.1)).map (·.2)) t.item.2) := by
  refine Engine.goesWith_of_calls fun (c, sequence) w v hsame hgood hgood' => ?_
  obtain ⟨r, hr, hquiet⟩ := Option.map_eq_some_iff.mp (quiet_handle_plain d b fuel c w)
  have hq : (deduplicating d).handle b' fuel (c, sequence) v = some
      ((updateNumbered (.began <| .stateStoredDeduplicating ·) .commandSkipped .stateSaved d.initial
        (compute d) (c, sequence)).run b' v) := by
    rw [deduplicating_eq]
    exact Engine.handle_ofProgram _ b' fuel (c, sequence) v
  show Option.Rel _ ((plain d).handle b fuel c w) _
  obtain ⟨hfine, hdue⟩ := hgood' _ hq
  have hadmits : sequence.admitted c ((held' v (layout.ofInput c)).map (·.2)) =
      (.done () : Outcome (Failure C R) Unit) := by
    rw [SequenceNumber.admitted, SequenceNumber.check_eq_ok.mpr hdue]
    rfl
  rw [hr, hq]
  have halike := statesAlike_of_ported (fun _ => sequence) hb hb' hsame
    (d.becomes_unconflicted c) hadmits hdue
    ((ported_of_quiet hquiet).trans (ported_of_unnoted (unnoted_pipeline d c (d.becomes c)) b w))
    (ported_of_unnoted (unnoted_updateNumbered _ _ _ (compute_computes d) c sequence) b' v)
    (hgood r hr) hfine
  exact .some ⟨halike, halike.states⟩

/-- A cascade in memory begins with the same state, so the same comes of it. -/
theorem cascades_alike {b' : Backend (Exchange.lockedStates C S) υ}
    {held' : υ → K → Option (S × Version)} (hb : b.KeepsStates layout held)
    (hb' : b'.KeepsMarks layout Version.count Version.Due held') {g : Saga E C} {limit : DepthLimit}
    {fuel : Nat} {c : C} {w : ω} {v : υ} (hsame : SameData (Option.map (·.1)) held held' w v)
    (comes : S → Outcome (Failure C R) S) (hcomes : ∀ s, (comes s).Unconflicted)
    (hends : ∀ s, d.current (held w (layout.ofInput c)) = .ok s →
      (drive limit g.react d.inMemory fuel (.start c) s).map Journey.arrival = some (comes s))
    (hgood : ∀ r, (orchestrating d g limit).handle b fuel c w = some r →
      (⟨c, w, r⟩ : Handling _ _ _ _ _).AtHome (some <| layout.ofState ·) layout.ofInput)
    (hgood' : ∀ q, (lockingOrchestrating d g limit).handle b' fuel c v = some q → ¬ q.Breaks) :
    Option.Rel (fun r q => StatesAlike held held' Version.count (layout.ofInput c) v r q ∧
        SameData (Option.map (·.1)) held held' r.world q.world)
      ((orchestrating d g limit).handle b fuel c w)
      ((lockingOrchestrating d g limit).handle b' fuel c v) := by
  obtain ⟨w', hfetch, -⟩ := hb.fetch c w
  obtain ⟨v', hfetch', -⟩ := hb'.fetch c v
  have hr := quiet_handle_orchestrating_of_ends d g limit b fun stored s hstored hs => by
    rw [hfetch] at hstored
    obtain rfl := Except.ok.inj (Except.ok.inj hstored)
    exact hends s hs
  have hq := quiet_handle_lockingOrchestrating_of_ends d g limit b' fun stored t hstored ht => by
    rw [hfetch'] at hstored
    obtain rfl := Except.ok.inj (Except.ok.inj hstored)
    have hcurrent := d.current_map (held' v (layout.ofInput c))
    rw [hsame, ht] at hcurrent
    exact hends t.1 hcurrent
  exact pipelines_alike hb hb' hsame hcomes hr hq (ported_run_concludeLocking hb'.untold c _ _ v)
    hgood hgood'

theorem orchestrating_transparent {b' : Backend (Exchange.lockedStates C S) υ}
    {held' : υ → K → Option (S × Version)} (hb : b.KeepsStates layout held)
    (hb' : b'.KeepsMarks layout Version.count Version.Due held') (g : Saga E C) (limit : DepthLimit)
    (fuel : Nat) :
    (orchestrating d g limit).GoesWith (lockingOrchestrating d g limit) b b' fuel id
      (SameData (Option.map (·.1)) held held')
      (fun t t' => StatesAlike held held' Version.count (layout.ofInput t'.item) t'.before t.run
        t'.run)
      (Handling.AtHome (some <| layout.ofState ·) layout.ofInput) Handling.Unbroken := by
  refine Engine.goesWith_of_calls fun c w v hsame hgood hgood' => ?_
  obtain ⟨w', hfetch, -⟩ := hb.fetch c w
  obtain ⟨v', hfetch', -⟩ := hb'.fetch c v
  have hcurrent := d.current_map (held' v (layout.ofInput c))
  rw [hsame] at hcurrent
  rcases hbegun : storedOr d.initial (held' v (layout.ofInput c)) with x | ⟨s, version⟩ <;>
    rw [hbegun] at hcurrent
  · refine cascades_alike hb hb' hsame (fun _ => .broken x)
      (fun _ => Outcome.unconflicted_broken x) (fun s hs => ?_) hgood hgood'
    rw [hcurrent] at hs
    cases hs
  · rcases hdrive : drive limit g.react d.inMemory fuel (.start c) s with _ | j
    -- A cascade that is not over in time leaves both calls without an end.
    · have hr := quiet_handle_orchestrating d g limit b fuel hfetch hcurrent
      have hq := quiet_handle_lockingOrchestrating d g limit b' fuel hfetch' hbegun
      rw [hdrive] at hr hq
      show Option.Rel _ ((orchestrating d g limit).handle b fuel c w) _
      rw [Option.map_eq_none_iff.mp hr, Option.map_eq_none_iff.mp hq]
      exact .none
    · refine cascades_alike hb hb' hsame (fun _ => j.arrival) (fun _ => arrival_unconflicted hdrive)
        (fun s' hs' => ?_) hgood hgood'
      rw [hcurrent] at hs'
      obtain rfl : s = s' := Except.ok.inj hs'
      rw [hdrive, Option.map_some]

end

end StateStored

/-- **Marks are transparent.** Over stores that do what they are for, one call after the other, the
engines that expect a version or are given the next number do what the engines without marks do: to
the same end, with the same data in the store, and never in conflict. -/
theorem marks_are_transparent (d : Decider C S E R) (g : Saga E C) (limit : DepthLimit) (fuel : Nat)
    (layout : Layout K C E S) :
    (∀ (b : Backend (Exchange.events C E) ω) (b' : Backend (Exchange.lockedEvents C E) υ)
        (held : ω → K → List E) (held' : υ → K → List (E × Version)),
      b.KeepsStreams layout held → b'.KeepsVersions layout held' →
      (EventSourced.plain d).GoesWith (EventSourced.locking d) b b' fuel id
        (SameData (List.map (·.1)) held held')
        (fun t t' => EventsAlike held held' (layout.ofInput t'.item) t'.before t.run t'.run)
        (Handling.AtHome (fun batch => batch.head?.map layout.ofEvent) layout.ofInput)
        Handling.Unbroken ∧
      (layout.Routes d →
        (EventSourced.orchestrating d g limit).GoesWith
          (EventSourced.lockingOrchestrating d g limit) b b' fuel id
          (SameData (List.map (·.1)) held held')
          (fun t t' => CascadesAlike held held' t'.before t.run t'.run)
          Handling.Unbroken Handling.Unbroken)) ∧
    ∀ (b : Backend (Exchange.states C S) ω) (held : ω → K → Option S), b.KeepsStates layout held →
      (∀ (b' : Backend (Exchange.lockedStates C S) υ) (held' : υ → K → Option (S × Version)),
        b'.KeepsMarks layout Version.count Version.Due held' →
        (StateStored.plain d).GoesWith (StateStored.locking d) b b' fuel id
          (SameData (Option.map (·.1)) held held')
          (fun t t' => StatesAlike held held' Version.count (layout.ofInput t'.item) t'.before
            t.run t'.run)
          (Handling.AtHome (some <| layout.ofState ·) layout.ofInput) Handling.Unbroken ∧
        (StateStored.orchestrating d g limit).GoesWith (StateStored.lockingOrchestrating d g limit)
          b b' fuel id (SameData (Option.map (·.1)) held held')
          (fun t t' => StatesAlike held held' Version.count (layout.ofInput t'.item) t'.before
            t.run t'.run)
          (Handling.AtHome (some <| layout.ofState ·) layout.ofInput) Handling.Unbroken) ∧
      ∀ (b' : Backend (Exchange.numberedStates C S) υ)
          (held' : υ → K → Option (S × SequenceNumber)),
        b'.KeepsMarks layout SequenceNumber.count SequenceNumber.Due held' →
        (StateStored.plain d).GoesWith (StateStored.deduplicating d) b b' fuel Prod.fst
          (SameData (Option.map (·.1)) held held')
          (fun t t' => StatesAlike held held' SequenceNumber.count (layout.ofInput t'.item.1)
            t'.before t.run t'.run)
          (Handling.AtHome (some <| layout.ofState ·) layout.ofInput)
          fun t => t.Unbroken ∧
            SequenceNumber.Due ((held' t.before (layout.ofInput t.item.1)).map (·.2)) t.item.2 :=
  ⟨fun _ _ _ _ hb hb' => ⟨EventSourced.plain_transparent hb hb' fuel,
      fun hroutes => EventSourced.orchestrating_transparent hb hb' hroutes g limit fuel⟩,
    fun _ _ hb => ⟨fun _ _ hb' => ⟨StateStored.plain_transparent hb hb' fuel,
      StateStored.orchestrating_transparent hb hb' g limit fuel⟩,
      fun _ _ hb' => StateStored.deduplicating_transparent hb hb' fuel⟩⟩

/-- Numbers are summed up, one of which is too large, with and without marks. -/
theorem sums_with_and_without_marks :
    let intake : Intake Nat Nat Empty := .faithful
    let st : Store Unit Nat Nat Empty := .empty
    let numbers := [3, 9, 2]
    let numbered := [(3, ⟨1⟩), (9, ⟨2⟩), (2, ⟨2⟩)]
    let events := Store.events .single intake
    let lockedEvents := Store.lockedEvents .single intake fun _ _ => none
    let states := Store.states .single intake
    let lockedStates := Store.lockedStates .single intake fun _ _ => none
    let numberedStates := Store.numberedStates .single intake
    List.Forall₂ (fun t t' => t'.run.outcome.map (List.map (·.1)) = t.run.outcome)
      ((EventSourced.plain .summing).inTurn events 40 numbers st).1
      ((EventSourced.locking .summing).inTurn lockedEvents 40 numbers st).1 ∧
    List.Forall₂ (fun t t' => t'.run.outcome.map (List.map (·.1)) = t.run.outcome)
      ((EventSourced.orchestrating .summing .countdown ⟨some 5⟩).inTurn events 40 numbers st).1
      ((EventSourced.lockingOrchestrating .summing .countdown ⟨some 5⟩).inTurn lockedEvents 40
        numbers st).1 ∧
    List.Forall₂ (fun t t' => t'.run.outcome.map (·.1) = t.run.outcome)
      ((StateStored.plain .summing).inTurn states 40 numbers st).1
      ((StateStored.locking .summing).inTurn lockedStates 40 numbers st).1 ∧
    List.Forall₂ (fun t t' => t'.run.outcome.map (·.1) = t.run.outcome)
      ((StateStored.orchestrating .summing .countdown ⟨some 5⟩).inTurn states 40 numbers st).1
      ((StateStored.lockingOrchestrating .summing .countdown ⟨some 5⟩).inTurn lockedStates 40
        numbers st).1 ∧
    List.Forall₂ (fun t t' => t'.run.outcome.map (·.1) = t.run.outcome)
      ((StateStored.plain .summing).inTurn states 40 numbers st).1
      ((StateStored.deduplicating .summing).inTurn numberedStates 40 numbered st).1 ∧
    ((StateStored.deduplicating .summing).inTurn numberedStates 40 numbered st).1.map
        (·.run.outcome) =
      [.done (3, ⟨1⟩), .failed (.rejected 9 "too large"), .done (5, ⟨2⟩)] := by
  intro intake st numbers numbered events lockedEvents states lockedStates numberedStates
  have hroutes : Layout.single.Routes Decider.summing := fun _ _ _ _ _ => rfl
  obtain ⟨hplain, horchestrating⟩ := (marks_are_transparent .summing .countdown ⟨some 5⟩ 40
    .single).1 events lockedEvents _ _ (Store.events_keepsStreams _)
    (Store.lockedEvents_keepsVersions _)
  obtain ⟨hplainStates, horchestratingStates⟩ := ((marks_are_transparent .summing .countdown
    ⟨some 5⟩ 40 .single).2 states _ (Store.states_keepsStates _)).1 lockedStates _
    (Store.lockedStates_keepsMarks _)
  have hnumbered := ((marks_are_transparent .summing .countdown ⟨some 5⟩ 40 .single).2 states _
    (Store.states_keepsStates _)).2 numberedStates _ (Store.numberedStates_keepsMarks _)
  refine ⟨?_, ?_, ?_, ?_, ?_, by decide⟩
  · exact (hplain numbers st st (fun _ => rfl) (by decide) (by decide)).1.imp fun _ _ h =>
      h.same.outcome
  · exact (horchestrating hroutes numbers st st (fun _ => rfl) (by decide) (by decide)).1.imp
      fun _ _ h => h.same.outcome
  · exact (hplainStates numbers st st (fun _ => rfl) (by decide) (by decide)).1.imp fun _ _ h =>
      h.same.outcome
  · exact (horchestratingStates numbers st st (fun _ => rfl) (by decide) (by decide)).1.imp
      fun _ _ h => h.same.outcome
  · exact (hnumbered numbered st st (fun _ => rfl) (by decide) (by decide)).1.imp fun _ _ h =>
      h.same.outcome

end EventMachines
