import EventMachines.Proofs.Cascade.Executions
import EventMachines.Proofs.Cascade.Order
import EventMachines.Proofs.Concurrency.Cascades
import EventMachines.Proofs.Execution.Accepted
import EventMachines.Proofs.Orchestration.Atomicity

/-!
Nothing is lost and nothing is told twice. An engine over events saves the batch of a command before
it looks for the next command, and answers when all outputs have been reacted to. So what it answers
are the batches it saved, in another order; and where it fails, what it leaves behind are the
batches of the executions that succeeded.

* `execute_saves`, `executeAt_saves`: the last call of an execution saves what it answers, or
  nothing is saved;
* `savedBatches_of_executes`: the executions of a cascade save their batches one after the other;
* `Backend.AppendsTo.handle`, `Backend.Numbers.handle`: what a store that appends makes of that;
* `orchestration_conserves`: both engines, over every store;
* `Store.events_appends`, `Store.lockedEvents_appends`, `Store.lockedEvents_numbers`: the store in
  memory appends, and numbers what it appends.
-/

namespace EventMachines

open Cascade

variable {C S E R O I D W ω : Type}

/-! ## One execution -/

/-- Saves what it answers, in its last call, or saves nothing and answers nothing; and does not fail
for its depth. -/
def savesAnswer (C R : Type) : Contract ⟨I, D, W, List O⟩ (Failure C R) (List O) where
  may _ _ := True
  ends o past :=
    (∃ data saved earlier, o = .done saved ∧ past = .wrote data (.ok (.ok saved)) :: earlier ∧
      ∀ h ∈ earlier, h.save? = none) ∨
    o.outputs = [] ∧ (∀ h ∈ past, h.save? = none) ∧ ∀ e, o = .failed e → e.depth? = none

/-- The batches that were saved, the oldest first. -/
def savedBatches (transcript : List (Happening ⟨I, D, W, List O⟩)) : List (List O) :=
  (accepted transcript).map (·.2)

theorem savedBatches_append (before after : List (Happening ⟨I, D, W, List O⟩)) :
    savedBatches (before ++ after) = savedBatches before ++ savedBatches after := by
  rw [savedBatches, accepted_append, List.map_append]
  rfl

/-- What is saved are the outputs, without success nothing is, and a failure is not for the
depth. -/
structure SavesOutputs (o : Outcome (Failure C R) (List O))
    (transcript : List (Happening ⟨I, D, W, List O⟩)) : Prop where
  saved : (savedBatches transcript).filter (!·.isEmpty) = [o.outputs].filter (!·.isEmpty)
  failed : (∀ outputs, o ≠ .done outputs) → accepted transcript = []
  shallow : ∀ e, o = .failed e → e.depth? = none

theorem SavesOutputs.of_keeps {p : Program ⟨I, D, W, List O⟩ (Failure C R) (List O)}
    (h : p.Keeps (savesAnswer C R) []) (b : Backend ⟨I, D, W, List O⟩ ω) (w : ω) :
    SavesOutputs (p.run b w).outcome (p.run b w).transcript := by
  have hends := h.run b w
  rw [List.append_nil] at hends
  have haccepted := accepted_calls (p.run b w).transcript
  rcases hends with ⟨data, saved, earlier, hdone, hcalls, hearlier⟩ | ⟨hnone, hcalls, hshallow⟩
  · have hlast : calls (p.run b w).transcript =
        earlier.reverse ++ [.wrote data (.ok (.ok saved))] := by
      rw [← List.reverse_cons, ← hcalls, List.reverse_reverse]
    have hone : accepted (p.run b w).transcript = [(data, saved)] := by
      rw [← haccepted, hlast, accepted_append]
      rw [accepted_eq_nil fun h hh => hearlier h (List.mem_reverse.mp hh)]
      rfl
    constructor
    · rw [savedBatches, hone, hdone]
      rfl
    · intro hnot
      exact absurd hdone (hnot saved)
    · intro e he
      cases hdone.symm.trans he
  · have hnil : accepted (p.run b w).transcript = [] := by
      rw [← haccepted]
      exact accepted_eq_nil fun h hh => hcalls h (List.mem_reverse.mpr hh)
    constructor
    · rw [savedBatches, hnil, hnone]
      rfl
    · exact fun _ => hnil
    · exact hshallow

namespace EventSourced

theorem execute_saves (d : Decider C S E R) (c : C) :
    (execute d c).Keeps (savesAnswer C R) [] := by
  have hfailed : ∀ (e : Failure C R) (past : List (Happening (Exchange.events C E))),
      e.depth? = none → (∀ h ∈ past, h.save? = none) → (savesAnswer C R).ends (.failed e) past := by
    intro e past hdepth hpast
    refine .inr ⟨rfl, hpast, ?_⟩
    rintro _ ⟨⟩
    exact hdepth
  rw [execute]
  refine Program.keeps_read_bind trivial (fun history => ?_) ?_ ?_
  · have hfetched : ∀ h ∈ [Happening.fetched c (.ok (.ok history))],
        (h : Happening (Exchange.events C E)).save? = none := by simp [Happening.save?]
    refine Program.keeps_ofChecked_bind (fun s hs => ?_) ?_
    · refine keeps_attempt_bind (fun events hevents => ?_) ?_ ?_
      · cases events with
        | nil => exact .inr ⟨rfl, hfetched, by simp⟩
        | cons e rest =>
          rw [if_neg (by simp)]
          refine Program.keeps_save_bind trivial (fun saved => ?_) ?_ ?_
          · exact .inl ⟨_, saved, _, rfl, rfl, hfetched⟩
          · intro e
            exact hfailed _ _ rfl (by simp [Happening.save?])
          · intro x
            exact .inr ⟨rfl, by simp [Happening.save?], by simp⟩
      · intro e he
        refine hfailed e _ ?_ hfetched
        rcases Decider.attempt_eq_error.mp he with ⟨-, rfl⟩ | ⟨-, reason, -, rfl⟩ <;> rfl
      · intro x _
        exact .inr ⟨rfl, hfetched, by simp⟩
    · intro x _
      exact .inr ⟨rfl, hfetched, by simp⟩
  · intro e
    exact hfailed _ _ rfl (by simp [Happening.save?])
  · intro x
    exact .inr ⟨rfl, by simp [Happening.save?], by simp⟩

theorem executeAt_saves (d : Decider C S E R) (c : C) (depth : Nat) :
    (executeAt d c depth).Keeps (savesAnswer C R) [] := by
  have hexecute : ∀ asked past, (∀ h ∈ past, h.save? = none) →
      (executeLocking d c asked).Keeps (savesAnswer C R) past := by
    intro asked past hpast
    refine keeps_executeLocking trivial (fun _ _ _ => trivial) ?_ ?_
    · intro data saved later hlater
      refine .inl ⟨data, saved, later ++ past, rfl, rfl, fun h hh => ?_⟩
      exact (List.mem_append.mp hh).elim (hlater h) (hpast h)
    · intro o later hdone hfailed hlater
      refine .inr ⟨?_, fun h hh => (List.mem_append.mp hh).elim (hlater h) (hpast h),
        fun e he => (hfailed e he).2⟩
      cases o with
      | done answer => exact hdone answer rfl
      | failed e => rfl
      | broken x => rfl
  unfold executeAt
  by_cases hroot : depth = 0
  · rw [if_pos hroot]
    exact ⟨trivial, fun asked => hexecute asked [_] (by simp [Happening.save?])⟩
  · rw [if_neg hroot]
    exact hexecute none [] (by simp)

end EventSourced

/-! ## All executions -/

section

variable {execute : C → Nat → Program ⟨I, D, W, List O⟩ (Failure C R) (List O)}
  {b : Backend ⟨I, D, W, List O⟩ ω}

theorem Visit.batches_cons (v : Visit C O R) (visits : List (Visit C O R)) :
    batches (v :: visits) = [v.outcome.outputs].filter (!·.isEmpty) ++ batches visits :=
  List.filter_append [v.outcome.outputs] _

/-- Executions add the calls that save their batches. -/
theorem savedBatches_of_executes (hsaves : ∀ c depth, (execute c depth).Keeps (savesAnswer C R) [])
    {visits : List (Visit C O R)} {s s' : ω × List (Happening ⟨I, D, W, List O⟩)}
    (h : Executes (fun c depth => (execute c depth).exec b) s visits s') :
    ∃ later, s'.2 = s.2 ++ later ∧
      (savedBatches later).filter (!·.isEmpty) = Visit.batches visits ∧
      ((∀ v ∈ visits, ∀ outputs, v.outcome ≠ .done outputs) → accepted later = []) := by
  induction h with
  | nil s => exact ⟨[], (List.append_nil s.2).symm, rfl, fun _ => rfl⟩
  | @cons s now s' c depth o visits here later ih =>
    obtain ⟨after, hafter, hbatches, hfailed⟩ := ih
    obtain ⟨houtcome, hnow⟩ := Prod.mk.inj here
    have hhere := SavesOutputs.of_keeps (hsaves c depth) b s.1
    rw [houtcome] at hhere
    refine ⟨calls ((execute c depth).run b s.1).transcript ++ after, ?_, ?_, fun hnot => ?_⟩
    · rw [hafter, ← hnow, List.append_assoc]
    · rw [savedBatches_append, List.filter_append, hbatches, savedBatches, accepted_calls]
      rw [← savedBatches, hhere.saved, Visit.batches_cons]
    · rw [accepted_append, accepted_calls, hhere.failed (hnot _ List.mem_cons_self)]
      exact hfailed fun v hv => hnot v (List.mem_cons_of_mem _ hv)

end

/-- The execution that a cascade ends with has not succeeded. -/
theorem notDone_of_endsAt {limit : DepthLimit} {reaction : O → Checked (List C)} {k : Cascade C O}
    {last : List (Visit C O R)} {o : Outcome (Failure C R) (List O)}
    (h : EndsAt limit reaction k last o) : ∀ v ∈ last, ∀ outputs, v.outcome ≠ .done outputs := by
  cases h with
  | ended _ _ notDone =>
    intro v hv
    rw [List.mem_singleton.mp hv]
    exact notDone
  | broken | finished | tooDeep => simp

/-! ## Stores that append -/

/-- A store that keeps what was written in one sequence: an accepted write that belongs there adds
what it answers, and nothing else changes the sequence. -/
structure Backend.AppendsTo (b : Backend ⟨I, D, W, List O⟩ ω) (stream : ω → List O)
    (belongs : W → Bool) : Prop extends b.Careful stream where
  appended : ∀ data w ack, (b.write data w).1 = .ok (.ok ack) →
    stream (b.write data w).2 = stream w ++ if belongs data then ack else []

theorem Backend.AppendsTo.handle {Item : Type} {b : Backend ⟨I, D, W, List O⟩ ω}
    {stream : ω → List O} {belongs : W → Bool} (hb : b.AppendsTo stream belongs)
    {e : Engine ⟨I, D, W, List O⟩ (Failure C R) Item (List O)} {fuel : Nat} {item : Item} {w : ω}
    {r : Run ⟨I, D, W, List O⟩ (Failure C R) (List O) ω} (hr : e.handle b fuel item w = some r) :
    stream r.world =
      stream w ++ ((accepted r.transcript).filter fun save => belongs save.1).flatMap (·.2) := by
  have haccumulates : b.Accumulates fun saves now =>
      stream now = stream w ++ (saves.filter fun save => belongs save.1).flatMap (·.2) := by
    constructor
    · intro i now saves hnow
      rw [hb.fetch, hnow]
    · intro data now saves hrefused hnow
      rw [hb.refused data now hrefused, hnow]
    · intro data now ack saves haccepted hnow
      rw [hb.appended data now ack haccepted, hnow, List.append_assoc, List.filter_append,
        List.flatMap_append]
      by_cases hbelongs : belongs data = true <;> simp [hbelongs]
  exact e.handle_accumulates haccumulates hr (List.append_nil _).symm

/-- A store with one log of events, whose versions count on. -/
structure Backend.Numbers (b : Backend (Exchange.lockedEvents I O) ω)
    (log : ω → List (O × Version)) : Prop extends b.Careful log where
  grown : ∀ data w ack, (b.write data w).1 = .ok (.ok ack) →
    Grown (log w) ack (log (b.write data w).2)

theorem Backend.Numbers.handle {Item : Type} {b : Backend (Exchange.lockedEvents I O) ω}
    {log : ω → List (O × Version)} (hb : b.Numbers log)
    {e : Engine (Exchange.lockedEvents I O) (Failure C R) Item (List (O × Version))} {fuel : Nat}
    {item : Item} {w : ω} {r : Run (Exchange.lockedEvents I O) (Failure C R) (List (O × Version)) ω}
    (hr : e.handle b fuel item w = some r) :
    Grown (log w) (savedBatches r.transcript).flatten (log r.world) := by
  have haccumulates : b.Accumulates fun saves now =>
      Grown (log w) (saves.map (·.2)).flatten (log now) := by
    constructor
    · intro i now saves hnow
      rw [hb.fetch]
      exact hnow
    · intro data now saves hrefused hnow
      rw [hb.refused data now hrefused]
      exact hnow
    · intro data now ack saves haccepted hnow
      have hgrown := hnow.trans (hb.grown data now ack haccepted)
      rw [List.map_append, List.flatten_append]
      simpa using hgrown
  exact e.handle_accumulates haccumulates hr (.refl _)

/-! ## Cascades -/

/-- What came of a cascade whose executions save what they answer. -/
structure Conserved (limit : DepthLimit) (reaction : O → Checked (List C))
    (execute : C → Nat → Program ⟨I, D, W, List O⟩ (Failure C R) (List O))
    (b : Backend ⟨I, D, W, List O⟩ ω) (c : C) (w : ω)
    (r : Run ⟨I, D, W, List O⟩ (Failure C R) (List O) ω) : Prop where
  /-- The cascade has come, by executions that succeeded and saved their batches, to where it ends.
  The calls after these are those of the execution that did not succeed, if there is one, and they
  save nothing. -/
  steps : ∃ (done last : List (Visit C O R)) (now : Cascade C O) (between : ω)
    (earlier later : List (Happening ⟨I, D, W, List O⟩)),
    Follows limit reaction (.start c) done now ∧ EndsAt limit reaction now last r.outcome ∧
    Executes (fun c depth => (execute c depth).exec b) (w, []) done (between, earlier) ∧
    Executes (fun c depth => (execute c depth).exec b) (between, earlier) last
      (r.world, earlier ++ later) ∧
    calls r.transcript = earlier ++ later ∧ accepted later = [] ∧
    (savedBatches earlier).filter (!·.isEmpty) = Visit.batches done
  /-- An answer tells what was saved, each batch in its own order. -/
  answered : ∀ answer, r.outcome = .done answer →
    answer.Perm (savedBatches r.transcript).flatten ∧ InOrder (savedBatches r.transcript) answer
  /-- A sequence that the store appends to has grown by what was saved and belongs there. -/
  stored : ∀ (stream : ω → List O) (belongs : W → Bool), b.AppendsTo stream belongs →
    stream r.world =
      stream w ++ ((accepted r.transcript).filter fun save => belongs save.1).flatMap (·.2)

theorem conserved_of_drive {limit : DepthLimit} {reaction : O → Checked (List C)}
    {execute : C → Nat → Program ⟨I, D, W, List O⟩ (Failure C R) (List O)}
    {b : Backend ⟨I, D, W, List O⟩ ω} {c : C} {w : ω}
    (e : Engine ⟨I, D, W, List O⟩ (Failure C R) C (List O)) {fuel : Nat}
    (hsaves : ∀ c depth, (execute c depth).Keeps (savesAnswer C R) [])
    (hdrive : (e.handle b fuel c w).map Run.quiet =
      (drive limit reaction (fun c depth => (execute c depth).exec b) fuel (.start c) (w, [])).map
        fun j => ⟨j.outcome, j.world.1, j.world.2⟩)
    {r : Run ⟨I, D, W, List O⟩ (Failure C R) (List O) ω} (hr : e.handle b fuel c w = some r) :
    Conserved limit reaction execute b c w r := by
  rw [hr] at hdrive
  obtain ⟨j, hj, hquiet⟩ := Option.map_eq_some_iff.mp hdrive.symm
  obtain ⟨houtcome, hworld, hcalls⟩ := Run.mk.inj hquiet
  obtain ⟨done, last, now, ⟨between, earlier⟩, hfollows, hends, hvisits, hdone, hlast⟩ :=
    drive_executes hj
  obtain ⟨made, hmade, hbatches, -⟩ := savedBatches_of_executes hsaves hdone
  obtain rfl : earlier = made := hmade
  obtain ⟨later, hlater, -, hnothing⟩ := savedBatches_of_executes hsaves hlast
  have hnone : accepted later = [] := hnothing (notDone_of_endsAt hends)
  have hall : calls r.transcript = earlier ++ later := hcalls.symm.trans hlater
  have hsaved : savedBatches r.transcript = savedBatches earlier := by
    rw [savedBatches, ← accepted_calls, hall, accepted_append, hnone, List.append_nil]
    rfl
  constructor
  case steps =>
    refine ⟨done, last, now, between, earlier, later, hfollows, houtcome ▸ hends, hdone, ?_, hall,
      hnone, hbatches⟩
    have hend : j.world = (r.world, earlier ++ later) := Prod.ext hworld hlater
    exact hend ▸ hlast
  case answered =>
    intro answer hanswer
    have hdriven : j.outcome = .done answer := houtcome.trans hanswer
    rw [hdriven] at hends
    cases hends with
    | ended _ _ hnot => exact absurd rfl (hnot answer)
    | finished hnext =>
      rw [List.append_nil] at hvisits
      have hflat : done.flatMap (fun v => v.outcome.outputs) = (savedBatches earlier).flatten := by
        rw [← Visit.flatten_batches, ← hbatches, List.flatten_filter_not_isEmpty]
      have horder : InOrder (done.map (·.outcome.outputs)) answer := by
        rw [← hvisits]
        exact drive_ordered limit reaction _ hj hdriven
      rw [hsaved, ← hflat]
      refine ⟨hfollows.finished_perm hnext, InOrder.filter_iff.mp ?_⟩
      rw [hbatches]
      exact InOrder.filter_iff.mpr horder
  case stored => exact fun stream belongs hb => hb.handle hr

/-- **Nothing lost, nothing twice.** What either engine answers are the batches it saved, told in
another order that keeps the order within each batch; so it is what was saved, in the same order, if
no batch has two events. Where it does not answer, it has saved the batches of the executions that
succeeded, and stops with the calls of the one that did not. A stream has grown by what was saved
and belongs there, and the versions that the locking engine answers count on from the version of the
log. -/
theorem orchestration_conserves (d : Decider C S E R) (g : Saga E C) (limit : DepthLimit) (c : C)
    (fuel : Nat) :
    (∀ (b : Backend (Exchange.events C E) ω) (w : ω) r,
      (EventSourced.orchestrating d g limit).handle b fuel c w = some r →
      Conserved limit g.react (fun c _ => EventSourced.execute d c) b c w r) ∧
    ∀ (b : Backend (Exchange.lockedEvents C E) ω) (w : ω) r,
      (EventSourced.lockingOrchestrating d g limit).handle b fuel c w = some r →
      Conserved limit g.reactSaved (EventSourced.executeAt d) b c w r ∧
      ∀ log answer, b.Numbers log → r.outcome = .done answer →
        (answer.map (·.2.number.toNat)).Perm
          (List.range' (Store.streamCount (log w) + 1) answer.length) := by
  refine ⟨fun b w r hr => ?_, fun b w r hr => ?_⟩
  · exact conserved_of_drive _ (fun c _ => EventSourced.execute_saves d c)
      (EventSourced.quiet_handle_orchestrating d g limit b fuel c w) hr
  · have hconserved := conserved_of_drive _ (EventSourced.executeAt_saves d)
      (EventSourced.quiet_handle_lockingOrchestrating d g limit b fuel c w) hr
    refine ⟨hconserved, fun log answer hb hanswer => ?_⟩
    obtain ⟨hperm, -⟩ := hconserved.answered answer hanswer
    have hgrown := hb.handle hr
    rw [hperm.length_eq, ← hgrown.versions]
    exact hperm.map _

/-! ## The store in memory -/

namespace Store

variable {K T A : Type} [DecidableEq K] {layout : Layout K I T S} {intake : Intake T S A}

theorem write_events (st : Store K T S A) (batch : List T) :
    (∃ e rest added, batch = e :: rest ∧
      intake.take (st.streamVersion (layout.ofEvent e)) batch = .ok added ∧
      (events layout intake).write batch st =
        (.ok (.ok (intake.echo.of (added.map (·.1)))), st.extend (layout.ofEvent e) added)) ∨
    ((events layout intake).write batch st).2 = st ∧
      ∀ saved, ((events layout intake).write batch st).1 = .ok (.ok saved) → batch = [] := by
  cases batch with
  | nil => exact .inr ⟨rfl, fun _ _ => rfl⟩
  | cons e rest =>
    cases htake : intake.take (st.streamVersion (layout.ofEvent e)) (e :: rest) with
    | error x =>
      refine .inr ?_
      simp [events, append, htake, commit, bind, Except.bind]
    | ok added =>
      refine .inl ⟨e, rest, added, rfl, htake, ?_⟩
      simp only [events, append, htake, bind, Except.bind]
      rfl

/-- The batch belongs to the stream of its first event. -/
def belongs (layout : Layout K I T S) (key : K) (batch : List T) : Bool :=
  batch.head?.any fun e => layout.ofEvent e = key

theorem events_appends (hecho : intake.echo = .all) (key : K) :
    (events layout intake).AppendsTo (fun st => (st.stream key).map (·.1))
      (belongs layout key) where
  fetch _ _ := rfl
  refused _ _ h := congrArg (fun st => (stream st key).map (·.1)) (commit_refused h)
  appended batch st ack hack := by
    rcases write_events st batch with ⟨e, rest, added, rfl, -, hwrite⟩ | ⟨hsame, hnil⟩
    · rw [hwrite, hecho] at hack
      obtain rfl : added.map (·.1) = ack := Except.ok.inj (Except.ok.inj hack)
      rw [hwrite]
      by_cases hkey : layout.ofEvent e = key
      · subst hkey
        simp [belongs]
      · simp [belongs, hkey, stream_extend_ne st hkey]
    · rw [hsame, hnil ack hack]
      simp [belongs]

theorem lockedEvents_appends (hecho : intake.echo = .all)
    (latest : I → Store K T S A → Option ExpectedVersion) (key : K) :
    (lockedEvents layout intake latest).AppendsTo (fun st => st.stream key)
      (fun data => belongs layout key data.1) where
  fetch _ _ := rfl
  refused _ _ h := congrArg (fun st => stream st key) (commit_refused h)
  appended := by
    rintro ⟨batch, expected⟩ st ack hack
    rcases write_lockedEvents layout intake latest st batch expected with
      ⟨e, rest, added, rfl, -, -, hwrite⟩ | ⟨hsame, hnil⟩
    · rw [hwrite, hecho] at hack
      obtain rfl : added = ack := Except.ok.inj (Except.ok.inj hack)
      rw [hwrite]
      by_cases hkey : layout.ofEvent e = key
      · subst hkey
        simp [belongs]
      · simp [belongs, hkey, stream_extend_ne st hkey]
    · rw [hsame, hnil ack hack]
      simp [belongs]

theorem lockedEvents_numbers (hecho : intake.echo = .all)
    (latest : I → Store K T S A → Option ExpectedVersion) {key : K}
    (hkey : ∀ e, layout.ofEvent e = key) :
    (lockedEvents layout intake latest).Numbers fun st => st.stream key where
  fetch _ _ := rfl
  refused _ _ h := congrArg (fun st => stream st key) (commit_refused h)
  grown := by
    rintro ⟨batch, expected⟩ st ack hack
    rcases write_lockedEvents layout intake latest st batch expected with
      ⟨e, rest, added, rfl, -, htake, hwrite⟩ | ⟨hsame, hnil⟩
    · rw [hwrite, hecho] at hack
      obtain rfl : added = ack := Except.ok.inj (Except.ok.inj hack)
      rw [hwrite, hkey e, stream_extend_self]
      rw [hkey e] at htake
      exact grown_of_take htake
    · obtain rfl := hnil ack hack
      obtain rfl : [] = ack := Except.ok.inj (Except.ok.inj hack)
      rw [hsame]
      exact .refl _

end Store

/-- Four becomes three and two, and these are split in turn: in the one store until the cascade is
too deep, in the other one after what stood there. -/
theorem splitting_conserved :
    (let b := Store.events .single .faithful
    let st : Store Unit Nat Nat Empty := .empty
    ∃ r, (EventSourced.orchestrating .splitting .again ⟨some 1⟩).handle b 30 4 st = some r ∧
      Conserved ⟨some 1⟩ Saga.again.react (fun c _ => EventSourced.execute .splitting c) b 4 st r ∧
      r.outcome = .failed (.depthExceeded 2 2) ∧
      b.AppendsTo (fun st => (st.stream ()).map (·.1)) (Store.belongs .single ()) ∧
      (r.world.stream ()).map (·.1) = [3, 2, 2, 1]) ∧
    let b := Store.lockedEvents .single .faithful fun _ _ => none
    let st : Store Unit Nat Nat Empty := Store.empty.extend () [(7, ⟨1⟩)]
    let answer := [(3, ⟨2⟩), (2, ⟨4⟩), (1, ⟨6⟩), (0, ⟨7⟩), (1, ⟨5⟩), (2, ⟨3⟩), (1, ⟨8⟩), (0, ⟨9⟩)]
    ∃ r, (EventSourced.lockingOrchestrating .splitting .again ⟨some 2⟩).handle b 30 4 st = some r ∧
      Conserved ⟨some 2⟩ Saga.again.reactSaved (EventSourced.executeAt .splitting) b 4 st r ∧
      r.outcome = .done answer ∧ b.Numbers (fun st => st.stream ()) ∧
      (answer.map (·.2.number.toNat)).Perm
        (List.range' (Store.streamCount (st.stream ()) + 1) answer.length) := by
  refine ⟨⟨_, rfl, ?_⟩, ⟨_, rfl, ?_⟩⟩
  · have hconserved := (orchestration_conserves .splitting .again ⟨some 1⟩ 4 30).1
      (Store.events .single .faithful) (.empty : Store Unit Nat Nat Empty) _ rfl
    exact ⟨hconserved, rfl, Store.events_appends rfl (), rfl⟩
  · have hboth := (orchestration_conserves .splitting .again ⟨some 2⟩ 4 30).2
      (Store.lockedEvents .single .faithful fun _ _ => none)
      ((Store.empty : Store Unit Nat Nat Empty).extend () [(7, ⟨1⟩)]) _ rfl
    have hnumbers : (Store.lockedEvents .single (.faithful : Intake Nat Nat Empty)
        fun _ _ => none).Numbers fun st => st.stream () :=
      Store.lockedEvents_numbers rfl (fun _ _ => none) fun _ => rfl
    exact ⟨hboth.1, rfl, hnumbers, hboth.2 _ _ hnumbers rfl⟩

end EventMachines
