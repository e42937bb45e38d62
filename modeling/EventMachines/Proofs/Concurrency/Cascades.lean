import EventMachines.Proofs.Cascade.Rounds
import EventMachines.Proofs.Cascade.Steps
import EventMachines.Proofs.Concurrency.Freshness
import EventMachines.Proofs.Concurrency.Replay

/-!
Cascades at the same time on one log. A call fetches and saves once for every command of its
cascade, so the saves of several calls come in between one another. Every save is checked against
the version that was fetched for the same command, so it was decided on the log right before it; and
what a call has saved are the batches of its executions so far, from which its work list follows.

* `lockingOrchestrating_steps`: what a call knows at any time, whatever the replies;
* `saved_in_step`: a batch that is saved was decided, at some depth of the cascade of its call, on
  the log right before;
* `log_grows`: the log has grown by what was saved, and the versions count on;
* `cascades_step_by_step`: so it is in every order of steps, and answers and failures tell what
  became of a call.
-/

namespace EventMachines

open Cascade

variable {C S E R A T : Type}

/-! ## One call -/

/-- The batches of the executions that decided something, in their order. -/
def Visit.batches (visits : List (Visit C E R)) : List (List E) :=
  (visits.map (·.outcome.outputs)).filter (!·.isEmpty)

theorem Visit.batches_concat (visits : List (Visit C E R)) (v : Visit C E R) :
    batches (visits ++ [v]) = batches visits ++ [v.outcome.outputs].filter (!·.isEmpty) := by
  rw [batches, List.map_append, List.filter_append]
  rfl

theorem Visit.flatten_batches (visits : List (Visit C E R)) :
    (batches visits).flatten = visits.flatMap fun v => v.outcome.outputs := by
  rw [batches, List.flatten_filter_not_isEmpty, List.flatMap_def]

/-- The reaction of a saga to what was saved. -/
def Saga.reactSaved (g : Saga E C) (saved : E × Version) : Checked (List C) := g.react saved.1

/-- The cascade of a command has come to a work list by executions that have saved their batches. -/
structure Reached (g : Saga E C) (limit : DepthLimit) (root : C)
    (visits : List (Visit C (E × Version) R)) (k : Cascade C (E × Version))
    (past : List (Happening (Exchange.lockedEvents C E))) : Prop where
  follows : Follows limit g.reactSaved (.start root) visits k
  saved : (acks past).filter (!·.isEmpty) = Visit.batches visits

namespace EventSourced

/-- Every call stands at a work list that it has reached. When it writes, it has just fetched what
it decided the next command on; when it answers, the list is finished; and when it fails, the
failure is that of the next command. -/
def steppingProtocol (d : Decider C S E R) (g : Saga E C) (limit : DepthLimit) :
    Protocol (lockingOrchestrating d g limit) where
  may root
    | .write (events, expected), past => ∃ (visits : List (Visit C (E × Version) R))
      (k : Cascade C (E × Version)) (c : C) (depth derived : Nat) (rest : Cascade C (E × Version))
      (history : List (E × Version)) (older : List (Happening (Exchange.lockedEvents C E)))
      (asked : Option ExpectedVersion),
      past = .fetched c (.ok (.ok history)) :: older ∧ Reached g limit root visits k past ∧
      k.next g.reactSaved = .ok (.command c depth derived rest) ∧ limit.allows depth = true ∧
      d.Decides c history events ∧ expected = asked.getD (.ofCurrent (lastVersion history)) ∧
      ∀ v, asked = some v → ∃ before, older = .consulted c (some v) :: before
    | _, _ => True
  ends root o past := ∃ (visits : List (Visit C (E × Version) R)) (k : Cascade C (E × Version)),
    Reached g limit root visits k past ∧ match o with
      | .done answer => k.next g.reactSaved = .ok (.finished answer)
      | .failed e => ∃ c depth derived rest,
        k.next g.reactSaved = .ok (.command c depth derived rest) ∧ e.input? = some c ∧
          (limit.allows depth = true ∨ e = .depthExceeded c depth)
      | .broken _ => True
  waits root k past := ∃ visits : List (Visit C (E × Version) R), Reached g limit root visits k past

theorem lockingOrchestrating_steps (d : Decider C S E R) (g : Saga E C) (limit : DepthLimit) :
    (steppingProtocol d g limit).Kept where
  start root := ⟨[], .refl, rfl⟩
  resume root k past hwaits := by
    obtain ⟨visits, hreached⟩ := hwaits
    have hresume : (lockingOrchestrating d g limit).resume k = _ :=
      resume_lockingOrchestrating d g limit k
    rw [hresume]
    unfold Cascade.round
    refine keeps_advance_bind (fun answer hnext => ?_)
      (fun c depth derived rest hnext hallowed => ?_)
      (fun c depth derived rest hnext hdeep => ?_) fun x => ?_
    · exact ⟨visits, k, hreached, hnext⟩
    · refine Program.keeps_bind.mpr ?_
      -- asking for a version saves nothing
      have hexecute : ∀ asked later, (∀ h ∈ later, h.save? = none) →
          (∀ v, asked = some v → ∃ before, later ++ past = .consulted c (some v) :: before) →
          (executeLocking d c asked).Keeps (((steppingProtocol d g limit).round root).before
            fun saved => pure (.again (rest.push saved depth))) (later ++ past) := by
        intro asked later hlater hasked
        have hstill : ∀ more, (∀ h ∈ more, h.save? = none) →
            Reached g limit root visits k (more ++ (later ++ past)) := by
          intro more hmore
          refine ⟨hreached.follows, ?_⟩
          rw [acks_append more hmore, acks_append later hlater]
          exact hreached.saved
        refine keeps_executeLocking trivial ?_ ?_ ?_
        · intro history events hdecides
          exact ⟨visits, k, c, depth, derived, rest, history, _, asked, rfl,
            hstill [_] (by simp [Happening.save?]), hnext, hallowed, hdecides, rfl, hasked⟩
        · intro data saved more hmore
          refine ⟨visits ++ [⟨c, depth, .done saved⟩],
            hreached.follows.step hnext hallowed saved, ?_⟩
          rw [acks_cons_save, List.filter_append, (hstill more hmore).saved, Visit.batches_concat]
          rfl
        · intro o more hdone hfailed hmore
          rcases o with saved | e | x
          · obtain rfl := hdone saved rfl
            refine ⟨visits ++ [⟨c, depth, .done []⟩], hreached.follows.step hnext hallowed [], ?_⟩
            rw [(hstill more hmore).saved, Visit.batches_concat]
            exact (List.append_nil _).symm
          · exact ⟨visits, k, hstill more hmore, c, depth, derived, rest, hnext, (hfailed e rfl).1,
              .inl hallowed⟩
          · exact ⟨visits, k, hstill more hmore, trivial⟩
      unfold executeAt
      by_cases hroot : depth = 0
      · rw [if_pos hroot]
        refine ⟨trivial, fun asked => hexecute asked [_] (by simp [Happening.save?]) ?_⟩
        rintro v rfl
        exact ⟨past, rfl⟩
      · rw [if_neg hroot]
        exact hexecute none [] (by simp) (by simp)
    · exact ⟨visits, k, hreached, c, depth, derived, rest, hnext, rfl, .inr rfl⟩
    · exact ⟨visits, k, hreached, trivial⟩

end EventSourced

/-! ## One log -/

/-- A log has grown by these events, and their versions count on. -/
structure Grown (before added log : List (E × Version)) : Prop where
  appended : log = before ++ added
  versions : added.map (·.2.number.toNat) =
    List.range' (Store.streamCount before + 1) added.length
  count : Store.streamCount log = Store.streamCount before + added.length

theorem Grown.refl (log : List (E × Version)) : Grown log [] log :=
  ⟨(List.append_nil log).symm, rfl, rfl⟩

theorem Grown.trans {before added log more later : List (E × Version)} (h : Grown before added log)
    (h' : Grown log more later) : Grown before (added ++ more) later := by
  have hcount : Store.streamCount later =
      Store.streamCount before + (added ++ more).length := by
    rw [h'.count, h.count, List.length_append, Nat.add_assoc]
  have hmore : more.map (·.2.number.toNat) =
      List.range' (Store.streamCount before + 1 + added.length) more.length := by
    rw [Nat.add_right_comm, ← h.count]
    exact h'.versions
  refine ⟨?_, ?_, hcount⟩
  · rw [h'.appended, h.appended, List.append_assoc]
  · rw [List.map_append, h.versions, hmore, List.length_append, List.range'_append_1]

theorem grown_of_take {log more : List (E × Version)} {intake : Intake E S A} {batch : List E}
    (htake : intake.take (EventSourced.lastVersion log) batch = .ok more) :
    Grown log more (log ++ more) := by
  obtain ⟨hlength, hmoved⟩ := intake.take_spec htake
  refine ⟨rfl, intake.take_versions htake, ?_⟩
  rw [Store.streamCount, hmoved log rfl, hlength]
  rfl

theorem Grown.take {before added log more : List (E × Version)} (h : Grown before added log)
    {intake : Intake E S A} {batch : List E}
    (htake : intake.take (EventSourced.lastVersion log) batch = .ok more) :
    Grown before (added ++ more) (log ++ more) :=
  h.trans (grown_of_take htake)

/-- No version comes twice. -/
theorem Grown.nodup {before added log : List (E × Version)} (h : Grown before added log) :
    (added.map (·.2)).Nodup := by
  have hnumbers : ((added.map (·.2)).map (·.number.toNat)).Nodup := by
    rw [List.map_map]
    exact h.versions ▸ List.nodup_range'
  refine (List.pairwise_map.mp hnumbers).imp fun hne => ?_
  rintro rfl
  exact hne rfl

/-- The call has saved the batches of the executions that led its cascade to a work list, which
yields this command next. -/
def ComesNext (R : Type) (g : Saga E C) (limit : DepthLimit) (items : List (Checked C))
    (transcript : List (Nat × Happening (Exchange.lockedEvents C E))) (i : Nat) (c : C)
    (depth : Nat) : Prop :=
  ∃ (root : C) (visits : List (Visit C (E × Version) R)) (k : Cascade C (E × Version))
    (derived : Nat) (rest : Cascade C (E × Version)), items[i]? = some (.ok root) ∧
    Follows limit g.reactSaved (.start root) visits k ∧
    ((saves transcript).filter (·.task = i)).map (·.ack) = Visit.batches visits ∧
    k.next g.reactSaved = .ok (.command c depth derived rest)

section

variable {d : Decider C S E R} {g : Saga E C} {limit : DepthLimit} {layout : Layout Unit C E T}
  {items : List (Checked C)} {st : Store Unit E T A}
  {transcript : List (Nat × Happening (Exchange.lockedEvents C E))}

theorem taken_of_write
    (hrecorded : Recorded (Store.lockedEvents layout .faithful fun _ _ => none) st transcript)
    (hallows : (EventSourced.steppingProtocol d g limit).Allows items transcript) {i : Nat}
    {batch : List E} {expected : ExpectedVersion} {saved : List (E × Version)}
    {earlier : List (Nat × Happening (Exchange.lockedEvents C E))}
    (hsuffix : (i, .wrote (batch, expected) (.ok (.ok saved))) :: earlier <:+ transcript) :
    let b := Store.lockedEvents layout .faithful fun _ _ => none
    let w := worldAfter b st earlier
    (Intake.faithful : Intake E T A).take (w.streamVersion ()) batch = .ok saved ∧
      (b.write (batch, expected) w).2 = w.extend () saved ∧
      ∃ c, d.Decides c (w.stream ()) batch ∧
        ∃ (root : C) (visits : List (Visit C (E × Version) R)) (k : Cascade C (E × Version))
          (depth derived : Nat) (rest : Cascade C (E × Version)),
        items[i]? = some (.ok root) ∧ Reached g limit root visits k (past i earlier) ∧
        k.next g.reactSaved = .ok (.command c depth derived rest) ∧ limit.allows depth = true := by
  intro b w
  obtain ⟨root, hitem, visits, k, c, depth, derived, rest, history, older, asked, hpast, hreached,
    hnext, hallowed, hdecides, rfl, hasked⟩ := hallows i _ _ earlier hsuffix rfl
  obtain ⟨haccepted, -⟩ := hrecorded.of_suffix hsuffix
  have hearlier := hrecorded.of_suffix ((List.suffix_cons _ _).trans hsuffix)
  -- nobody answers the question for a version
  obtain rfl : asked = none := by
    rcases asked with _ | v
    · rfl
    · obtain ⟨before, rfl⟩ := hasked v rfl
      obtain ⟨atFetch, hfetch, hbefore⟩ := exists_of_past hpast
      obtain ⟨atConsult, hconsult, -⟩ := exists_of_past hbefore
      have hbetween := hconsult.trans ((List.suffix_cons _ _).trans hfetch)
      obtain ⟨hanswer, -⟩ := hearlier.of_suffix hbetween
      cases hanswer
  obtain ⟨hversion, htake, hwrite⟩ := wrote_events (fun _ _ _ _ _ => rfl) hdecides haccepted
  rw [Option.getD_none, ExpectedVersion.toCurrent_ofCurrent] at hversion
  have hcurrent : w.stream () = history := stream_of_fetched hearlier hpast hversion
  refine ⟨htake, congrArg Prod.snd hwrite, c, ?_, root, visits, k, depth, derived, rest, hitem,
    hreached, hnext, hallowed⟩
  rw [hcurrent]
  exact hdecides

theorem saved_ne_nil
    (hrecorded : Recorded (Store.lockedEvents layout .faithful fun _ _ => none) st transcript)
    (hallows : (EventSourced.steppingProtocol d g limit).Allows items transcript)
    {save : Saved (Exchange.lockedEvents C E)} (hsave : save ∈ saves transcript) :
    save.ack ≠ [] := by
  obtain ⟨hmem, -⟩ := mem_past.mp (mem_saves.mp hsave)
  obtain ⟨later, earlier, rfl⟩ := List.append_of_mem hmem
  obtain ⟨htake, -, c, hdecides, -⟩ := taken_of_write hrecorded hallows (List.suffix_append later _)
  intro hnil
  rw [hnil] at htake
  exact hdecides.1 (Intake.faithful_take htake).symm

/-- What a call has saved are the batches of its executions. -/
theorem Reached.own_saves
    (hrecorded : Recorded (Store.lockedEvents layout .faithful fun _ _ => none) st transcript)
    (hallows : (EventSourced.steppingProtocol d g limit).Allows items transcript) {root : C}
    {visits : List (Visit C (E × Version) R)} {k : Cascade C (E × Version)} {i : Nat}
    (h : Reached g limit root visits k (past i transcript)) :
    ((saves transcript).filter (·.task = i)).map (·.ack) = Visit.batches visits := by
  rw [← h.saved, acks_past]
  refine (List.filter_eq_self.mpr fun ack hack => ?_).symm
  obtain ⟨save, hsave, rfl⟩ := List.mem_map.mp hack
  have hne := saved_ne_nil hrecorded hallows (List.mem_filter.mp hsave).1
  rw [List.isEmpty_eq_false_iff.mpr hne]
  rfl

/-- **Decided on the log.** A batch that is saved is what the next command of its call decided on
the log right before. -/
theorem saved_in_step
    (hrecorded : Recorded (Store.lockedEvents layout .faithful fun _ _ => none) st transcript)
    (hallows : (EventSourced.steppingProtocol d g limit).Allows items transcript) {i : Nat}
    {batch : List E} {expected : ExpectedVersion} {saved : List (E × Version)}
    {earlier : List (Nat × Happening (Exchange.lockedEvents C E))}
    (hsuffix : (i, .wrote (batch, expected) (.ok (.ok saved))) :: earlier <:+ transcript) :
    let log :=
      (worldAfter (Store.lockedEvents layout .faithful fun _ _ => none) st earlier).stream ()
    saved.map (·.1) = batch ∧ ∃ c depth s, ComesNext R g limit items earlier i c depth ∧
      limit.allows depth = true ∧ d.replay (log.map (·.1)) = .ok s ∧
      d.isTerminal c s = .ok false ∧ d.decide c s = .ok (.ok batch) := by
  intro log
  have hbefore := (List.suffix_cons _ _).trans hsuffix
  obtain ⟨htake, -, c, ⟨-, s, hreplay, hattempt⟩, root, visits, k, depth, derived, rest, hitem,
    hreached, hnext, hallowed⟩ := taken_of_write hrecorded hallows hsuffix
  obtain ⟨hterminal, hdecide⟩ := Decider.attempt_eq_ok.mp hattempt
  refine ⟨Intake.faithful_take htake, c, depth, s, ?_, hallowed, hreplay, hterminal, hdecide⟩
  exact ⟨root, visits, k, derived, rest, hitem, hreached.follows,
    hreached.own_saves (hrecorded.of_suffix hbefore) (hallows.of_suffix hbefore), hnext⟩

/-- The log has grown by what was saved, and the versions have counted on. -/
theorem log_grows
    (hrecorded : Recorded (Store.lockedEvents layout .faithful fun _ _ => none) st transcript)
    (hallows : (EventSourced.steppingProtocol d g limit).Allows items transcript) :
    Grown (st.stream ()) ((saves transcript).flatMap (·.ack))
      ((worldAfter (Store.lockedEvents layout .faithful fun _ _ => none) st
        transcript).stream ()) := by
  refine saves_induction (motive := fun saved w =>
    Grown (st.stream ()) (saved.flatMap (·.ack)) (w.stream ())) (fun _ _ => happening_events) ?_
    hrecorded ?_
  · exact .refl _
  · rintro i ⟨batch, expected⟩ saved earlier hsuffix hgrown
    obtain ⟨htake, hwrite, -⟩ := taken_of_write hrecorded hallows hsuffix
    rw [hwrite, Store.stream_extend_self, List.flatMap_append, List.flatMap_singleton]
    exact hgrown.take htake

end

/-- The versions of what one call saved, and then those of what all others saved. -/
theorem Grown.nodup_split {before log : List (E × Version)}
    {saved : List (Saved (Exchange.lockedEvents C E))}
    (h : Grown before (saved.flatMap (·.ack)) log) (i : Nat) :
    (((saved.filter (·.task = i)).flatMap (·.ack)).map (·.2) ++
      ((saved.filter fun save => !decide (save.task = i)).flatMap (·.ack)).map (·.2)).Nodup := by
  rw [← List.map_append, ← List.flatMap_append]
  have hparts := List.filter_append_perm (fun save => decide (save.task = i)) saved
  exact ((hparts.flatMap_right _).map _).nodup_iff.mpr h.nodup

/-! ## Cascades at the same time -/

/-- What became of cascades at the same time. -/
structure StepByStep (d : Decider C S E R) (g : Saga E C) (limit : DepthLimit)
    (layout : Layout Unit C E T) (items : List (Checked C)) (st : Store Unit E T A)
    (s : System (EventSourced.lockingOrchestrating d g limit) (Store Unit E T A)) : Prop where
  /-- Whatever is saved, the next command of its call decided it, in a state that is not terminal,
  on the log right before. -/
  decided : ∀ (i : Nat) batch expected saved earlier,
    (i, .wrote (batch, expected) (.ok (.ok saved))) :: earlier <:+ s.transcript →
    let log := (worldAfter (Store.lockedEvents layout .faithful fun _ _ => none) st earlier).stream ()
    saved.map (·.1) = batch ∧ ∃ c depth t, ComesNext R g limit items earlier i c depth ∧
      limit.allows depth = true ∧ d.replay (log.map (·.1)) = .ok t ∧
      d.isTerminal c t = .ok false ∧ d.decide c t = .ok (.ok batch)
  grown : Grown (st.stream ()) ((saves s.transcript).flatMap (·.ack)) (s.world.stream ())
  /-- A call answers what it saved, in the order of its reactions. -/
  answered : ∀ (i : Nat) answer, s.tasks[i]? = some (.finished (.done answer)) →
    answer.Perm (((saves s.transcript).filter (·.task = i)).flatMap (·.ack)) ∧
      (∀ saved ∈ answer, saved ∈ s.world.stream ()) ∧ (answer.map (·.2)).Nodup
  apart : ∀ (i j : Nat) answer answer', i ≠ j → s.tasks[i]? = some (.finished (.done answer)) →
    s.tasks[j]? = some (.finished (.done answer')) →
    ∀ saved ∈ answer, ∀ saved' ∈ answer', saved.2 ≠ saved'.2
  /-- One that failed has saved what led to its next command, and its failure is that of this
  command.
  -/
  failed : ∀ (i : Nat) e, s.tasks[i]? = some (.finished (.failed e)) →
    ∃ c depth, ComesNext R g limit items s.transcript i c depth ∧ e.input? = some c ∧
      (limit.allows depth = true ∨ e = .depthExceeded c depth)
  idle : ∀ i, let b := Store.lockedEvents layout .faithful fun _ _ => none
    s.IdlesAt b i ∨ ∃ data ack w, s.SavesAt b i data ack w

/-- **Step by step.** However the cascades of several calls come in between one another, on one log
and without a provider, every batch was decided on the log right before it, the log grows without
gap or repetition, and a call answers what it saved or fails with the command at which its cascade
came to a stop. -/
theorem cascades_step_by_step (d : Decider C S E R) (g : Saga E C) (limit : DepthLimit)
    (layout : Layout Unit C E T) (items : List (Checked C)) (st : Store Unit E T A)
    (schedule : List Nat) :
    StepByStep d g limit layout items st
      ((System.start (EventSourced.lockingOrchestrating d g limit) items st).run
        (Store.lockedEvents layout .faithful fun _ _ => none) schedule) := by
  let b : Backend (Exchange.lockedEvents C E) (Store Unit E T A) :=
    Store.lockedEvents layout .faithful fun _ _ => none
  let s := (System.start (EventSourced.lockingOrchestrating d g limit) items st).run b schedule
  have hkeeps : s.Keeps (EventSourced.steppingProtocol d g limit) items :=
    System.run_keeps (EventSourced.lockingOrchestrating_steps d g limit) items st schedule
  obtain ⟨hworld, hrecorded⟩ := System.run_recorded (b := b)
    (e := EventSourced.lockingOrchestrating d g limit) items st schedule
  have hgrown :
      Grown (st.stream ()) ((saves s.transcript).flatMap (·.ack)) (s.world.stream ()) := by
    have hlog := log_grows hrecorded hkeeps.calls
    rwa [← hworld] at hlog
  have hanswered : ∀ (i : Nat) answer, s.tasks[i]? = some (.finished (.done answer)) →
      answer.Perm (((saves s.transcript).filter (·.task = i)).flatMap (·.ack)) := by
    intro i answer hfinished
    rcases hkeeps.tasks i _ hfinished with ⟨root, -, visits, k, hreached, hnext⟩ | ⟨x, -, ho⟩
    · rw [List.flatMap_def, hreached.own_saves hrecorded hkeeps.calls, Visit.flatten_batches]
      exact hreached.follows.finished_perm hnext
    · cases ho
  constructor
  case decided =>
    intro i batch expected saved earlier hsuffix
    exact saved_in_step hrecorded hkeeps.calls hsuffix
  case grown => exact hgrown
  case answered =>
    intro i answer hfinished
    have hperm := hanswered i answer hfinished
    refine ⟨hperm, fun saved hsaved => ?_, ?_⟩
    · obtain ⟨save, hsave, hack⟩ := List.mem_flatMap.mp (hperm.mem_iff.mp hsaved)
      rw [hgrown.appended]
      have hin := List.mem_flatMap.mpr ⟨save, (List.mem_filter.mp hsave).1, hack⟩
      exact List.mem_append_right _ hin
    · exact (hperm.map _).nodup_iff.mpr (List.nodup_append.mp (hgrown.nodup_split i)).1
  case apart =>
    intro i j answer answer' hne hfinished hfinished' saved hsaved saved' hsaved'
    obtain ⟨-, -, hapart⟩ := List.nodup_append.mp (hgrown.nodup_split i)
    have hmem := (hanswered i answer hfinished).mem_iff.mp hsaved
    obtain ⟨save, hsave, hack⟩ :=
      List.mem_flatMap.mp ((hanswered j answer' hfinished').mem_iff.mp hsaved')
    obtain ⟨hsave, htask⟩ := List.mem_filter.mp hsave
    have hother : save ∈ (saves s.transcript).filter fun save => !decide (save.task = i) := by
      refine List.mem_filter.mpr ⟨hsave, ?_⟩
      rw [of_decide_eq_true htask]
      simpa using hne.symm
    exact hapart _ (List.mem_map_of_mem hmem) _
      (List.mem_map_of_mem (List.mem_flatMap.mpr ⟨save, hother, hack⟩))
  case failed =>
    intro i e hfinished
    rcases hkeeps.tasks i _ hfinished with
      ⟨root, hitem, visits, k, hreached, c, depth, derived, rest, hnext, hinput, hwhy⟩ | ⟨x, -, ho⟩
    · exact ⟨c, depth, ⟨root, visits, k, derived, rest, hitem, hreached.follows,
        hreached.own_saves hrecorded hkeeps.calls, hnext⟩, hinput, hwhy⟩
    · cases ho
  case idle => exact System.idlesAt_or_savesAt (fun _ _ => happening_events) items st schedule

/-- The first call comes to a stop at its second command, after the second call has gone on. -/
example :
    let s := (System.start (EventSourced.lockingOrchestrating .summing .countdown .unlimited)
      [.ok 2, .ok 3] (.empty : Store Unit Nat Nat Empty)).run
      (Store.lockedEvents .single .faithful fun _ _ => none)
      (List.replicate 9 0 ++ List.replicate 30 1 ++ List.replicate 2 0)
    s.outcomes = [.failed (.storeFailed 1 (.versionMismatch (.exact ⟨1⟩) (some ⟨6⟩))),
      .done [(3, ⟨2⟩), (2, ⟨3⟩), (1, ⟨4⟩), (0, ⟨5⟩), (1, ⟨6⟩)]] ∧
    s.world.stream () = [(2, ⟨1⟩), (3, ⟨2⟩), (2, ⟨3⟩), (1, ⟨4⟩), (0, ⟨5⟩), (1, ⟨6⟩)] :=
  ⟨rfl, rfl⟩

end EventMachines
