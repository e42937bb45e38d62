import EventMachines.Proofs.Concurrency.Freshness
import EventMachines.Proofs.Concurrency.Replay
import EventMachines.Proofs.Execution.Batches

/-!
Calls of the locking engine at the same time. A call decides on the history it fetched and names its
version, and the store accepts only the version it has, so a batch that is saved was decided on the
stream as it stood. Hence the calls that saved something might as well have come one after the
other.

* `locking_kept`: what one call does, whatever the replies;
* `saved_on_current`: a batch that is saved was decided on the stream it is added to;
* `locking_serializes`: the calls that saved something, one after the other in the order of their
  saves, give the same answers and the same store.
-/

namespace EventMachines

open EventSourced

variable {P : Exchange} {C S E R K A : Type}

/-! ## One call -/

/-- What a call knows when it writes, and how its answer tells what it saved. -/
def lockingProtocol (d : Decider C S E R) : Protocol (locking d) where
  may c
    | .fetch i, past => i = c ∧ past = []
    | .write (events, expected), past => ∃ history, past = [.fetched c (.ok (.ok history))] ∧
      d.Decides c history events ∧ expected = .ofCurrent (lastVersion history)
    | .consult _, _ => False
  ends _ o past := ∀ answer, answer ≠ [] →
    (o = .done answer ↔ ∃ data, .wrote data (.ok (.ok answer)) ∈ past)
  waits _ rest _ := nomatch rest

theorem locking_kept (d : Decider C S E R) : (lockingProtocol d).Kept := by
  refine Protocol.kept_ofProgram fun c => ?_
  show (executeLocking d c none).Keeps _ []
  refine keeps_executeLocking ⟨rfl, rfl⟩ ?_ ?_ ?_
  · intro history events hdecides
    exact ⟨history, rfl, hdecides, rfl⟩
  · intro data saved later hlater answer _
    constructor
    · rintro ⟨⟩
      exact ⟨data, List.mem_cons_self⟩
    · rintro ⟨data', hmem⟩
      rcases List.mem_cons.mp hmem with hsame | hmem
      · cases hsame
        rfl
      · rw [List.append_nil] at hmem
        cases hlater _ hmem
  · intro o later ho _ hlater answer hanswer
    refine iff_of_false (fun hdone => hanswer (ho answer hdone)) ?_
    rintro ⟨data, hmem⟩
    rw [List.append_nil] at hmem
    cases hlater _ hmem

/-- A call that nobody disturbs saves what it decides, and answers what was saved. -/
theorem handle_locking {ω : Type} {d : Decider C S E R}
    {b : Backend (Exchange.lockedEvents C E) ω} {c : C} {w w' : ω}
    {history saved : List (E × Version)} {events : List E}
    (hfetch : b.fetch c w = (.ok (.ok history), w)) (hdecides : d.Decides c history events)
    (hwrite : b.write (events, .ofCurrent (lastVersion history)) w = (.ok (.ok saved), w'))
    (fuel : Nat) :
    ∃ r, (locking d).handle b fuel c w = some r ∧ r.outcome = .done saved ∧ r.world = w' := by
  obtain ⟨hne, s, hreplay, hattempt⟩ := hdecides
  have hrun : ∃ transcript, (executeLocking d c none).run b w =
      (⟨.done saved, w', transcript⟩ : Run _ (Failure C R) _ _) := by
    rw [executeLocking, Program.read_bind]
    simp only [Program.run, hfetch, hreplay, Program.ofChecked_ok, pure_bind, Program.attempt,
      hattempt, Program.ofExcept_ok, List.isEmpty_eq_false_iff.mpr hne]
    rw [if_neg (by simp), Program.save_bind]
    simp only [Program.run, Option.getD_none, hwrite]
    exact ⟨_, rfl⟩
  obtain ⟨transcript, hrun⟩ := hrun
  refine ⟨⟨.done saved, w', .noted (.began .eventSourcedLocking) :: transcript⟩, ?_, rfl, rfl⟩
  show (locking d).goOn b fuel (((do
    Program.tell (.began .eventSourcedLocking)
    executeLocking d c none) >>= fun a => pure (Progress.answer a)).run b w) = _
  rw [Program.run_bind, Program.tell_bind, Program.run, hrun]
  simp [Run.after, Run.andThen, Program.pure_eq_halt, Program.run]

/-! ## Saves at the right version -/

section

variable {T : Type} [DecidableEq K]

variable {d : Decider C S E R} {layout : Layout K C E T}
  {latest : C → Store K E T A → Option ExpectedVersion} {items : List (Checked C)}
  {st : Store K E T A} {transcript : List (Nat × Happening (Exchange.lockedEvents C E))}

/-- **Nothing in between.** A batch that is saved was decided on the stream that it is added to, as
that stood right before. -/
theorem saved_on_current (hroutes : layout.Routes d)
    (hrecorded : Recorded (Store.lockedEvents layout .faithful latest) st transcript)
    (hallows : (lockingProtocol d).Allows items transcript) {i : Nat} {batch : List E}
    {expected : ExpectedVersion} {saved : List (E × Version)}
    {earlier : List (Nat × Happening (Exchange.lockedEvents C E))}
    (hsuffix : (i, .wrote (batch, expected) (.ok (.ok saved))) :: earlier <:+ transcript) :
    let w := worldAfter (Store.lockedEvents layout .faithful latest) st earlier
    ∃ c, items[i]? = some (.ok c) ∧ d.Decides c (w.stream (layout.ofInput c)) batch ∧
      expected = .ofCurrent (lastVersion (w.stream (layout.ofInput c))) ∧
      saved.map (·.1) = batch ∧
      (Store.lockedEvents layout .faithful latest).write (batch, expected) w =
        (.ok (.ok saved), w.extend (layout.ofInput c) saved) := by
  intro w
  obtain ⟨c, hitem, history, hpast, hdecides, rfl⟩ := hallows i _ _ earlier hsuffix rfl
  obtain ⟨haccepted, -⟩ := hrecorded.of_suffix hsuffix
  obtain ⟨hversion, htake, hwrite⟩ := wrote_events hroutes hdecides haccepted
  rw [ExpectedVersion.toCurrent_ofCurrent] at hversion
  have hcurrent : w.stream (layout.ofInput c) = history :=
    stream_of_fetched (hrecorded.of_suffix ((List.suffix_cons _ _).trans hsuffix)) hpast hversion
  refine ⟨c, hitem, ?_⟩
  rw [hcurrent]
  exact ⟨hdecides, rfl, Intake.faithful_take htake, hwrite⟩

/-- The calls that saved something, one after the other, give the same answers and the same
store. -/
theorem saves_completes (hroutes : layout.Routes d)
    (hrecorded : Recorded (Store.lockedEvents layout .faithful latest) st transcript)
    (hallows : (lockingProtocol d).Allows items transcript) :
    ∃ commands, (saves transcript).map (fun save => items[save.task]?) =
        commands.map (fun c => some (.ok c)) ∧
      ∀ fuel, (locking d).Completes (Store.lockedEvents layout .faithful latest) fuel commands st
        ((saves transcript).map (·.ack))
        (worldAfter (Store.lockedEvents layout .faithful latest) st transcript) := by
  refine saves_induction (motive := fun saved w => ∃ commands,
    saved.map (fun save => items[save.task]?) = commands.map (fun c => some (.ok c)) ∧
    ∀ fuel, (locking d).Completes (Store.lockedEvents layout .faithful latest) fuel commands st
      (saved.map (·.ack)) w) (fun _ _ => happening_events) ?_ hrecorded ?_
  · exact ⟨[], rfl, fun _ => Engine.completes_nil.mpr ⟨rfl, rfl⟩⟩
  · rintro i ⟨batch, expected⟩ saved earlier hsuffix ⟨commands, hcommands, hcompletes⟩
    obtain ⟨c, hitem, hdecides, rfl, -, hwrite⟩ :=
      saved_on_current hroutes hrecorded hallows hsuffix
    refine ⟨commands ++ [c], ?_, fun fuel => ?_⟩
    · rw [List.map_append, List.map_append, hcommands]
      simp [hitem]
    · obtain ⟨r, hr, houtcome, hworld⟩ := handle_locking rfl hdecides hwrite fuel
      rw [List.map_append, hwrite, ← hworld]
      exact (hcompletes fuel).concat hr houtcome

/-- No call saves twice. -/
theorem saves_nodup (hallows : (lockingProtocol d).Allows items transcript) :
    ((saves transcript).map (·.task)).Nodup := by
  refine saves_nodup_of_fresh (fun c data past hmay => ?_) hallows
  obtain ⟨batch, expected⟩ := data
  obtain ⟨history, rfl, -⟩ := hmay
  simp [Happening.save?]

/-- Nothing is saved without events. -/
theorem ack_ne_nil_of_mem_saves (hroutes : layout.Routes d)
    (hrecorded : Recorded (Store.lockedEvents layout .faithful latest) st transcript)
    (hallows : (lockingProtocol d).Allows items transcript)
    {save : Saved (Exchange.lockedEvents C E)} (hsave : save ∈ saves transcript) :
    save.ack ≠ [] := by
  obtain ⟨hmem, -⟩ := mem_past.mp (mem_saves.mp hsave)
  obtain ⟨later, earlier, rfl⟩ := List.append_of_mem hmem
  obtain ⟨c, -, hdecides, -, hevents, -⟩ :=
    saved_on_current hroutes hrecorded hallows (List.suffix_append later _)
  intro hnil
  rw [hnil] at hevents
  exact hdecides.1 hevents.symm

end

/-! ## Calls at the same time -/

/-- What became of calls of the locking engine at the same time. -/
structure Serialized {ω : Type} (d : Decider C S E R)
    (b : Backend (Exchange.lockedEvents C E) ω) (items : List (Checked C)) (w : ω)
    (s : System (locking d) ω) : Prop where
  /-- One after the other, the calls that saved something give the same answers and the same store.
  -/
  replayed : ∃ commands, (saves s.transcript).map (fun save => items[save.task]?) =
      commands.map (fun c => some (.ok c)) ∧
    ∀ fuel, (locking d).Completes b fuel commands w ((saves s.transcript).map (·.ack)) s.world
  once : ((saves s.transcript).map (·.task)).Nodup
  nonempty : ∀ save ∈ saves s.transcript, save.ack ≠ []
  /-- A call that has come to an end answers events exactly if it saved them. -/
  answered : ∀ (i : Nat) o, s.tasks[i]? = some (.finished o) → ∀ answer, answer ≠ [] →
    (o = .done answer ↔ ∃ save ∈ saves s.transcript, save.task = i ∧ save.ack = answer)

/-- **No lost update.** Let what a command decides belong to the stream it is decided on. In every
order of steps, from every store, the calls of the locking engine are as good as those that saved
something one after the other. Every step either changes nothing, or it adds to the stream of its
command what this decides on exactly that stream. -/
theorem locking_serializes {T : Type} [DecidableEq K] {d : Decider C S E R}
    {layout : Layout K C E T} (hroutes : layout.Routes d)
    (latest : C → Store K E T A → Option ExpectedVersion) (items : List (Checked C))
    (st : Store K E T A) (schedule : List Nat) :
    let b := Store.lockedEvents layout .faithful latest
    let s := (System.start (locking d) items st).run b schedule
    Serialized d b items st s ∧
      ∀ i, s.IdlesAt b i ∨ ∃ c events saved, items[i]? = some (.ok c) ∧
        d.Decides c (s.world.stream (layout.ofInput c)) events ∧ saved.map (·.1) = events ∧
        s.SavesAt b i (events, .ofCurrent (s.world.streamVersion (layout.ofInput c))) saved
          (s.world.extend (layout.ofInput c) saved) := by
  intro b s
  have hkeeps : ∀ schedule, ((System.start (locking d) items st).run b schedule).Keeps
      (lockingProtocol d) items := System.run_keeps (locking_kept d) items st
  have hrecorded := System.run_recorded (e := locking d) (b := b) items st
  obtain ⟨hworld, hrec⟩ := hrecorded schedule
  have hallows := (hkeeps schedule).calls
  refine ⟨⟨?_, saves_nodup hallows, fun save => ack_ne_nil_of_mem_saves hroutes hrec hallows, ?_⟩,
    fun i => ?_⟩
  · rw [hworld]
    exact saves_completes hroutes hrec hallows
  · intro i o hfinished answer hanswer
    rcases (hkeeps schedule).tasks i _ hfinished with ⟨c, -, hends⟩ | ⟨x, hitem, ho⟩
    · rw [hends answer hanswer]
      constructor
      · rintro ⟨data, hdata⟩
        exact ⟨⟨i, data, answer⟩, mem_saves.mpr hdata, rfl, rfl⟩
      · rintro ⟨save, hsave, rfl, rfl⟩
        exact ⟨save.data, mem_saves.mp hsave⟩
    · obtain rfl := Task.finished.inj ho
      refine iff_of_false (by simp) ?_
      rintro ⟨save, hsave, rfl, -⟩
      obtain ⟨hmem, -⟩ := mem_past.mp (mem_saves.mp hsave)
      obtain ⟨later, earlier, hsplit⟩ := List.append_of_mem hmem
      obtain ⟨c, hc, -⟩ := hallows save.task _ (.write save.data) earlier
        ⟨later, hsplit.symm⟩ rfl
      rw [hitem] at hc
      cases hc
  · refine (System.idlesAt_or_savesAt (fun _ _ => happening_events) items st schedule i).imp_right
      ?_
    rintro ⟨⟨batch, expected⟩, saved, w, hsaves⟩
    have hnext := (hkeeps (schedule ++ [i])).calls
    have hnextRecorded := (hrecorded (schedule ++ [i])).2
    rw [System.run_concat, hsaves.2.2] at hnext hnextRecorded
    obtain ⟨c, hitem, hdecides, hexpected, hevents, hwrite⟩ :=
      saved_on_current hroutes hnextRecorded hnext List.suffix_rfl
    rw [← hworld] at hdecides hexpected hwrite
    obtain rfl : _ = w := (Prod.mk.inj (hwrite.symm.trans hsaves.1)).2
    rw [hexpected] at hsaves
    exact ⟨c, batch, saved, hitem, hdecides, hevents, hsaves⟩

/-- Two bookings on one account and one on another, where the second booking comes too late. -/
theorem bookings_serialize :
    Serialized Account.decider (Store.lockedEvents Account.layout .faithful fun _ _ => none)
      [.ok (1, 5), .ok (1, 7), .ok (2, 3)] (Store.empty : Store Nat Account.Entry Account.Entry Empty)
      ((System.start (locking Account.decider) [.ok (1, 5), .ok (1, 7), .ok (2, 3)] .empty).run
        (Store.lockedEvents Account.layout .faithful fun _ _ => none)
        [0, 0, 1, 1, 2, 2, 0, 0, 0, 1, 1, 2, 2, 2]) :=
  (locking_serializes Account.routes _ _ _ _).1

end EventMachines
