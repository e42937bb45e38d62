import EventMachines.Proofs.Concurrency.Provider
import EventMachines.Proofs.Concurrency.Replay
import EventMachines.Proofs.Execution.Batches
import EventMachines.Proofs.Execution.Computation

/-!
Calls at the same time that replace slots. A call fetches a state with its version, computes another
state, and saves it at the version that was fetched. The version goes up with every save, so where
it is still the same the slot is too, and the calls that saved something might as well have come one
after the other.

* `updateLocked_replaces`, `lockingOrchestrating_replaces`: the engines over versioned states do
  that, whether they compute one state or run a whole cascade in memory;
* `slot_saved_on_current`: a state that is saved was computed from what its slot held right before;
* `serialized_of_replaces`: any engine that replaces slots is as good as its successful calls one
  after the other;
* `locked_slots_serialize`: the three engines are, and the view in a slot is folded from the events
  of its successful calls.
-/

namespace EventMachines

open Cascade
open Program hiding bind

variable {C I S E R K A T ε ω : Type}

/-! ## Engines that replace slots -/

/-- What a call knows when it saves a state: the state it started from, which it fetched, and the
version it may have been told to expect since. -/
def Informed (initial : Checked S) (leads : I → S → S → Prop) (i : I) (s' : S)
    (expected : ExpectedVersion) (past : List (Happening (Exchange.lockedStates I S))) : Prop :=
  ∃ stored s version asked,
    (past = [.fetched i (.ok (.ok stored))] ∧ asked = none ∨
      past = [.consulted i asked, .fetched i (.ok (.ok stored))]) ∧
    storedOr initial stored = .ok (s, version) ∧ leads i s s' ∧
    expected = asked.getD (.ofCurrent version)

theorem Informed.fresh {initial : Checked S} {leads : I → S → S → Prop} {i : I} {s' : S}
    {expected : ExpectedVersion} {past : List (Happening (Exchange.lockedStates I S))}
    (h : Informed initial leads i s' expected past) : ∀ h ∈ past, h.save? = none := by
  obtain ⟨stored, s, version, asked, ⟨rfl, -⟩ | rfl, -⟩ := h <;> simp [Happening.save?]

/-- A call of the engine saves only what the state it fetched leads to, answers what it saved, and
succeeds if nobody disturbs it. -/
structure Replaces (e : Engine (Exchange.lockedStates I S) ε I (S × Version))
    (initial : Checked S) (leads : I → S → S → Prop) : Prop where
  informed : ∃ k : Protocol e, k.Kept ∧ ∀ i s' expected past,
    k.may i (.write (s', expected)) past → Informed initial leads i s' expected past
  answers : ∃ k : Protocol e, k.Kept ∧ ∀ i o past, k.ends i o past → Answers o past
  handles : ∀ {ω : Type} {b : Backend (Exchange.lockedStates I S) ω} {w w' : ω} {i : I}
    {stored : Option (S × Version)} {s s' : S} {version : Option Version} {saved : S × Version},
    (∀ i w, b.consult i w = none) → b.fetch i w = (.ok (.ok stored), w) →
    storedOr initial stored = .ok (s, version) → leads i s s' →
    b.write (s', .ofCurrent version) w = (.ok (.ok saved), w') →
    ∃ enough, ∀ fuel, enough ≤ fuel →
      ∃ r, e.handle b fuel i w = some r ∧ r.outcome = .done saved ∧ r.world = w'

/-! ## One state in one step -/

/-- Fetches a state, changes it, and saves the result at the version that was fetched. -/
def Program.updateLocked (began : Note) (ended : ExpectedVersion → Version → Note)
    (initial : Checked S) (change : I → S → Program (Exchange.lockedStates I S) (Failure I R) S)
    (i : I) : Program (Exchange.lockedStates I S) (Failure I R) (S × Version) := do
  tell began
  let stored ← read i (.fetchFailed i)
  let (s, version) ← ofChecked (storedOr initial stored)
  let s ← change i s
  let saved ← save (s, .ofCurrent version) (.storeFailed i)
  tell (ended (.ofCurrent version) saved.2)
  return saved

theorem StateStored.locking_eq (d : Decider C S E R) :
    locking d = .ofProgram (updateLocked (.began .stateStoredLocking) .stateLocked d.initial
      (compute d)) := rfl

theorem Projection.locking_eq (v : View S E) :
    locking v = .ofProgram (updateLocked (.began .viewLocking) .viewLocked v.initial
      fun e s => ofChecked (v.evolve s e)) := rfl

section

variable (began : Note) (ended : ExpectedVersion → Version → Note) (initial : Checked S)
  {change : I → S → Program (Exchange.lockedStates I S) (Failure I R) S}
  {becomes : I → S → Outcome (Failure I R) S} (hchange : ∀ i s, (change i s).Computes (becomes i s))

/-- A call fetches once, and then writes once what it computed. -/
def updatingProtocol (e : Engine (Exchange.lockedStates I S) (Failure I R) I (S × Version))
    (becomes : I → S → Outcome (Failure I R) S) : Protocol e where
  may i
    | .fetch j, past => j = i ∧ past = []
    | .write (s', expected), past =>
      Informed initial (fun i s s' => becomes i s = .done s') i s' expected past
    | .consult _, _ => False
  ends _ o past := Answers o past
  waits _ _ _ := False

include hchange in
theorem updateLocked_kept :
    (updatingProtocol initial (.ofProgram (updateLocked began ended initial change))
      becomes).Kept := by
  refine Protocol.kept_ofProgram fun i => ?_
  refine Program.keeps_read_bind ⟨rfl, rfl⟩ (fun stored => ?_) ?_ ?_
  · have hfetched : ∀ h ∈ [Happening.fetched i (.ok (.ok stored))],
        (h : Happening (Exchange.lockedStates I S)).save? = none := by simp [Happening.save?]
    refine Program.keeps_ofChecked_bind (fun current hcurrent => ?_) ?_
    · obtain ⟨s, version⟩ := current
      refine (hchange i s).keeps_bind.mpr ?_
      rcases hbecomes : becomes i s with s' | e | x
      · refine Program.keeps_save_bind ?_ (fun saved => ?_) ?_ ?_
        · exact ⟨stored, s, version, none, .inl ⟨rfl, rfl⟩, hcurrent, hbecomes, rfl⟩
        · exact answers_of_save hfetched
        · intro e
          exact answers_of_none (by simp) (by simp [Happening.save?])
        · intro x
          exact answers_of_none (by simp) (by simp [Happening.save?])
      · exact answers_of_none (by simp) hfetched
      · exact answers_of_none (by simp) hfetched
    · intro x _
      exact answers_of_none (by simp) hfetched
  · intro e
    exact answers_of_none (by simp) (by simp [Happening.save?])
  · intro x
    exact answers_of_none (by simp) (by simp [Happening.save?])

include hchange in
theorem quiet_run_updateLocked {b : Backend (Exchange.lockedStates I S) ω} {w w' : ω} {i : I}
    {stored : Option (S × Version)} {s s' : S} {version : Option Version} {saved : S × Version}
    (hfetch : b.fetch i w = (.ok (.ok stored), w))
    (hcurrent : storedOr initial stored = .ok (s, version)) (hbecomes : becomes i s = .done s')
    (hwrite : b.write (s', .ofCurrent version) w = (.ok (.ok saved), w')) :
    ((updateLocked began ended initial change i).run b w).quiet = ⟨.done saved, w',
      [.fetched i (.ok (.ok stored)), .wrote (s', .ofCurrent version) (.ok (.ok saved))]⟩ := by
  have hafter : (((change i s : Program _ (Failure I R) S) >>= fun s' => do
      let saved ← save (s', .ofCurrent version) (.storeFailed i)
      tell (ended (.ofCurrent version) saved.2)
      return saved).run b w).quiet =
      ⟨.done saved, w', [.wrote (s', .ofCurrent version) (.ok (.ok saved))]⟩ := by
    rw [run_bind, Run.quiet_andThen, (hchange i s).quiet_run, hbecomes, Run.done_andThen, save_bind]
    simp only [run, hwrite]
    rfl
  rw [updateLocked, tell_bind, read_bind]
  simp only [run, hfetch, hcurrent, ofChecked_ok, pure_bind]
  obtain ⟨houtcome, hworld, hcalls⟩ := Run.mk.inj hafter
  simp only [Run.after, Run.quiet_mk]
  refine congr (congr (congrArg Run.mk houtcome) hworld) ?_
  exact congrArg (.fetched i (.ok (.ok stored)) :: ·) hcalls

include hchange in
theorem updateLocked_replaces :
    Replaces (.ofProgram (updateLocked began ended initial change)) initial
      fun i s s' => becomes i s = .done s' where
  informed := ⟨_, updateLocked_kept began ended initial hchange, fun _ _ _ _ h => h⟩
  answers := ⟨_, updateLocked_kept began ended initial hchange, fun _ _ _ h => h⟩
  handles _ hfetch hcurrent hbecomes hwrite := by
    have hquiet :=
      quiet_run_updateLocked began ended initial hchange hfetch hcurrent hbecomes hwrite
    refine ⟨0, fun fuel _ => ⟨_, Engine.handle_ofProgram _ _ fuel _ _, ?_, ?_⟩⟩
    · exact congrArg Run.outcome hquiet
    · exact congrArg Run.world hquiet

end

/-! ## A cascade in memory -/

namespace StateStored

/-- A call whose cascade still goes on has saved nothing. -/
def answeringProtocol (d : Decider C S E R) (g : Saga E C) (limit : DepthLimit) :
    Protocol (lockingOrchestrating d g limit) where
  may _ _ _ := True
  ends _ o past := Answers o past
  waits _ _ past := ∀ h ∈ past, h.save? = none

theorem lockingOrchestrating_answers (d : Decider C S E R) (g : Saga E C) (limit : DepthLimit) :
    (answeringProtocol d g limit).Kept := by
  refine lockingOrchestrating_keeps (fun _ => trivial) ?unread ?begin (fun hwaits _ _ _ _ => hwaits)
    ?stop (fun _ _ => trivial) (fun _ _ _ => trivial) ?wrote
  case unread => exact fun c o reply ho => answers_of_none ho (by simp [Happening.save?])
  case begin => exact fun c stored s version _ => by simp [answeringProtocol, Happening.save?]
  case stop => exact fun o hwaits ho => answers_of_none ho hwaits
  case wrote =>
    intro root run version past hwaits asked o reply hanswer
    have hasked : ∀ h ∈ Happening.consulted run.command asked :: past, h.save? = none :=
      List.forall_mem_cons.mpr ⟨rfl, hwaits⟩
    rcases reply with x | e | saved
    · refine answers_of_none (fun answer hdone => ?_) (List.forall_mem_cons.mpr ⟨rfl, hasked⟩)
      cases (hanswer answer).mp hdone
    · refine answers_of_none (fun answer hdone => ?_) (List.forall_mem_cons.mpr ⟨rfl, hasked⟩)
      cases (hanswer answer).mp hdone
    · obtain rfl := (hanswer saved).mpr rfl
      exact answers_of_save hasked

theorem lockingOrchestrating_replaces (d : Decider C S E R) (g : Saga E C) (limit : DepthLimit) :
    Replaces (lockingOrchestrating d g limit) d.initial (d.Arrives g limit) where
  informed := by
    refine ⟨_, lockingOrchestrating_kept d g limit, ?_⟩
    rintro c s' expected past ⟨stored, s, version, asked, hpast, hstored, harrives, hexpected⟩
    exact ⟨stored, s, version, asked, .inr hpast, hstored, harrives, hexpected⟩
  answers := ⟨_, lockingOrchestrating_answers d g limit, fun _ _ _ h => h⟩
  handles := by
    intro ω b w w' c stored s s' version saved hconsult hfetch hcurrent harrives hwrite
    obtain ⟨enough, j, hj, harrival⟩ := harrives
    have hquiet := quiet_handle_lockingOrchestrating d g limit b enough hfetch hcurrent
    have hconclude : ((concludeLocking c version s' : Program _ (Failure C R) _).run b w).quiet =
        ⟨.done saved, w',
          [.consulted c none, .wrote (s', .ofCurrent version) (.ok (.ok saved))]⟩ := by
      have hlast : (concludeLocking c version s' : Program _ (Failure C R) _) =
          .consult c fun asked => saveLocking c s' (asked.getD (.ofCurrent version)) := rfl
      rw [hlast, run, hconsult, Option.getD_none, saveLocking, save_bind]
      simp only [run, hwrite]
      rfl
    rw [hj, Option.map_some, harrival, Run.andThen] at hquiet
    obtain ⟨r, hr, hquiet⟩ := Option.map_eq_some_iff.mp hquiet
    simp only [hconclude] at hquiet
    refine ⟨enough, fun fuel hle => ⟨r, Engine.goOn_mono _ b hle hr, ?_, ?_⟩⟩
    · exact congrArg Run.outcome hquiet
    · exact congrArg Run.world hquiet

end StateStored

/-! ## Saves at the right version -/

/-- What is saved belongs to the slot that its call reads. -/
def SavesInPlace (layout : Layout K I T S) (items : List (Checked I))
    (transcript : List (Nat × Happening (Exchange.lockedStates I S))) : Prop :=
  ∀ save ∈ saves transcript, ∀ i, items[save.task]? = some (.ok i) →
    layout.ofState save.data.1 = layout.ofInput i

section

variable [DecidableEq K] {e : Engine (Exchange.lockedStates I S) (Failure C R) I (S × Version)}
  {k : Protocol e} {initial : Checked S} {leads : I → S → S → Prop} {layout : Layout K I T S}
  {items : List (Checked I)} {st : Store K T S A}
  {transcript : List (Nat × Happening (Exchange.lockedStates I S))}

/-- **Nothing in between.** A state that is saved in its place was computed from what the slot holds
right before, and gets the next version. -/
theorem slot_saved_on_current
    (hmay : ∀ i s' expected past, k.may i (.write (s', expected)) past →
      Informed initial leads i s' expected past)
    (hrecorded : Recorded (Store.lockedStates layout .faithful fun _ _ => none) st transcript)
    (hallows : k.Allows items transcript) {i : Nat} {s' : S} {expected : ExpectedVersion}
    {saved : S × Version} {earlier : List (Nat × Happening (Exchange.lockedStates I S))}
    (hsuffix : (i, .wrote (s', expected) (.ok (.ok saved))) :: earlier <:+ transcript)
    (hplace : ∀ c, items[i]? = some (.ok c) → layout.ofState s' = layout.ofInput c) :
    let w := worldAfter (Store.lockedStates layout .faithful fun _ _ => none) st earlier
    ∃ c s version, items[i]? = some (.ok c) ∧
      storedOr initial (Store.held (w.slot (layout.ofInput c))) = .ok (s, version) ∧
      leads c s s' ∧ expected = .ofCurrent version ∧
      saved.2.number.toNat = Store.slotCount (w.slot (layout.ofInput c)) + 1 ∧
      (Store.lockedStates layout .faithful fun _ _ => none).write (s', expected) w =
        (.ok (.ok saved), w.putSlot (layout.ofInput c) s' saved.2.number) := by
  intro w
  obtain ⟨c, hitem, hknown⟩ := hallows i _ _ earlier hsuffix rfl
  obtain ⟨stored, s, version, asked, hpast, hstored, hleads, rfl⟩ := hmay _ _ _ _ hknown
  have hearlier := hrecorded.of_suffix ((List.suffix_cons _ _).trans hsuffix)
  have hasked : asked = none := by
    rcases hpast with ⟨-, hnone⟩ | hpast
    · exact hnone
    · obtain ⟨atConsult, hconsult, -⟩ := exists_of_past hpast
      exact (hearlier.of_suffix hconsult).1.symm
  have hfetched : ∃ atFetch, (i, .fetched c (.ok (.ok stored))) :: atFetch <:+ earlier := by
    rcases hpast with ⟨hpast, -⟩ | hpast
    · obtain ⟨atFetch, hfetch, -⟩ := exists_of_past hpast
      exact ⟨atFetch, hfetch⟩
    · obtain ⟨atConsult, hconsult, hbefore⟩ := exists_of_past hpast
      obtain ⟨atFetch, hfetch, -⟩ := exists_of_past hbefore
      exact ⟨atFetch, hfetch.trans ((List.suffix_cons _ _).trans hconsult)⟩
  obtain ⟨atFetch, hfetch⟩ := hfetched
  subst hasked
  rw [Option.getD_none] at hsuffix ⊢
  obtain ⟨haccepted, -⟩ := hrecorded.of_suffix hsuffix
  rcases Store.write_lockedStates layout .faithful (fun _ _ => none) w s' (.ofCurrent version) with
    ⟨stored', v, hversion, hcount, hstate, hwrite⟩ | ⟨-, hrefused⟩
  · obtain rfl := Except.ok.inj hstate
    obtain rfl := Except.ok.inj (Except.ok.inj ((congrArg Prod.fst hwrite).symm.trans haccepted))
    rw [hplace c hitem] at hversion hcount hwrite
    rw [ExpectedVersion.toCurrent_ofCurrent, ← storedOr_token hstored] at hversion
    have hheld : Store.held (w.slot (layout.ofInput c)) = stored :=
      (slot_of_fetched hearlier hfetch).mpr hversion
    refine ⟨c, s, version, hitem, ?_, hleads, rfl, hcount, hwrite⟩
    rw [hheld]
    exact hstored
  · exact absurd haccepted (hrefused saved)

end

/-! ## Calls at the same time -/

/-- What became of calls at the same time, of which those of `inputs` succeeded, in this order. -/
structure SlotsSerialized [DecidableEq K]
    (e : Engine (Exchange.lockedStates I S) (Failure C R) I (S × Version)) (layout : Layout K I T S)
    (b : Backend (Exchange.lockedStates I S) (Store K T S A)) (items : List (Checked I))
    (st : Store K T S A) (s : System e (Store K T S A)) (inputs : List I) : Prop where
  succeeded : (saves s.transcript).map (fun save => items[save.task]?) =
    inputs.map fun i => some (.ok i)
  /-- One after the other, in the order of their saves, they give the same answers and the same
  store. -/
  replayed : ∃ enough, ∀ fuel, enough ≤ fuel →
    e.Completes b fuel inputs st ((saves s.transcript).map (·.ack)) s.world
  advanced : ∀ key, Store.slotCount (s.world.slot key) =
    Store.slotCount (st.slot key) + inputs.countP (layout.ofInput · = key)
  savesOnce : s.SavesOnce b

section

variable [DecidableEq K] {e : Engine (Exchange.lockedStates I S) (Failure C R) I (S × Version)}
  {initial : Checked S} {leads : I → S → S → Prop} {layout : Layout K I T S}
  {items : List (Checked I)} {st : Store K T S A}

/-- The calls that saved something, one after the other. What holds of no call and the first store,
and is kept by a call that replaces its slot by what its state leads to, holds of them. -/
theorem slots_replayed (he : Replaces e initial leads) {k : Protocol e}
    (hmay : ∀ i s' expected past, k.may i (.write (s', expected)) past →
      Informed initial leads i s' expected past)
    {transcript : List (Nat × Happening (Exchange.lockedStates I S))}
    (hrecorded : Recorded (Store.lockedStates layout .faithful fun _ _ => none) st transcript)
    (hallows : k.Allows items transcript) (hplace : SavesInPlace layout items transcript)
    {J : List I → Store K T S A → Prop} (nil : J [] st)
    (save : ∀ inputs w i s version s' number, J inputs w →
      storedOr initial (Store.held (w.slot (layout.ofInput i))) = .ok (s, version) →
      leads i s s' → J (inputs ++ [i]) (w.putSlot (layout.ofInput i) s' number)) :
    let b := Store.lockedStates layout .faithful fun _ _ => none
    let w := worldAfter b st transcript
    ∃ inputs, (saves transcript).map (fun save => items[save.task]?) =
        inputs.map (fun i => some (.ok i)) ∧
      (∃ enough, ∀ fuel, enough ≤ fuel →
        e.Completes b fuel inputs st ((saves transcript).map (·.ack)) w) ∧
      (∀ key, Store.slotCount (w.slot key) =
        Store.slotCount (st.slot key) + inputs.countP (layout.ofInput · = key)) ∧
      J inputs w := by
  intro b w
  refine saves_induction (motive := fun saved w => ∃ inputs,
    saved.map (fun save => items[save.task]?) = inputs.map (fun i => some (.ok i)) ∧
    (∃ enough, ∀ fuel, enough ≤ fuel →
      e.Completes b fuel inputs st (saved.map (·.ack)) w) ∧
    (∀ key, Store.slotCount (w.slot key) =
      Store.slotCount (st.slot key) + inputs.countP (layout.ofInput · = key)) ∧
    J inputs w) (fun _ _ => happening_states) ?_ hrecorded ?_
  · exact ⟨[], rfl, ⟨0, fun _ _ => Engine.completes_nil.mpr ⟨rfl, rfl⟩⟩, fun _ => rfl, nil⟩
  · rintro i ⟨s', expected⟩ saved earlier hsuffix
      ⟨inputs, hinputs, ⟨enough, hreplayed⟩, hadvanced, hJ⟩
    have hmem : (⟨i, (s', expected), saved⟩ : Saved (Exchange.lockedStates I S)) ∈
        saves transcript := by
      refine mem_saves.mpr (mem_past.mpr ⟨?_, rfl⟩)
      exact hsuffix.subset List.mem_cons_self
    obtain ⟨c, s, version, hitem, hcurrent, hleads, rfl, hcount, hwrite⟩ :=
      slot_saved_on_current hmay hrecorded hallows hsuffix (hplace _ hmem)
    rw [hwrite]
    refine ⟨inputs ++ [c], ?_, ?_, fun key => ?_, save _ _ _ _ _ _ _ hJ hcurrent hleads⟩
    · rw [List.map_append, List.map_append, hinputs]
      simp [hitem]
    · obtain ⟨more, hhandled⟩ := he.handles (fun _ _ => rfl) rfl hcurrent hleads hwrite
      refine ⟨max enough more, fun fuel hle => ?_⟩
      obtain ⟨r, hr, houtcome, hworld⟩ := hhandled fuel (by omega)
      rw [List.map_append, ← hworld]
      exact (hreplayed fuel (by omega)).concat hr houtcome
    · rw [List.countP_append, ← Nat.add_assoc, ← hadvanced key]
      by_cases hkey : layout.ofInput c = key
      · subst hkey
        rw [Store.slot_putSlot_self]
        simp only [List.countP_singleton, decide_true, if_true]
        exact hcount
      · rw [Store.slot_putSlot_ne _ hkey]
        simp [hkey]

omit [DecidableEq K] in
/-- If whatever an input leads to belongs to the slot of that input, all is saved in place. -/
theorem Replaces.savesInPlace (he : Replaces e initial leads)
    (hleads : ∀ i s s', leads i s s' → layout.ofState s' = layout.ofInput i)
    (b : Backend (Exchange.lockedStates I S) ω) (w : ω) (schedule : List Nat) :
    SavesInPlace layout items ((System.start e items w).run b schedule).transcript := by
  intro save hsave i hitem
  obtain ⟨k, hk, hmay⟩ := he.informed
  obtain ⟨hmem, -⟩ := mem_past.mp (mem_saves.mp hsave)
  obtain ⟨later, earlier, hsplit⟩ := List.append_of_mem hmem
  obtain ⟨c, hc, hknown⟩ := (System.run_keeps (b := b) hk items w schedule).calls save.task _
    (.write save.data) earlier ⟨later, hsplit.symm⟩ rfl
  obtain rfl : c = i := Except.ok.inj (Option.some.inj (hc.symm.trans hitem))
  obtain ⟨stored, s, version, asked, -, -, hstate, -⟩ := hmay _ _ _ _ hknown
  exact hleads c s save.data.1 hstate

/-- Calls that replace slots are as good as those that succeeded one after the other. -/
theorem serialized_of_replaces (he : Replaces e initial leads) (schedule : List Nat)
    {J : List I → Store K T S A → Prop} (nil : J [] st)
    (save : ∀ inputs w i s version s' number, J inputs w →
      storedOr initial (Store.held (w.slot (layout.ofInput i))) = .ok (s, version) →
      leads i s s' → J (inputs ++ [i]) (w.putSlot (layout.ofInput i) s' number)) :
    let b := Store.lockedStates layout .faithful fun _ _ => none
    let s := (System.start e items st).run b schedule
    SavesInPlace layout items s.transcript →
    ∃ inputs, SlotsSerialized e layout b items st s inputs ∧ J inputs s.world := by
  intro b s hplace
  obtain ⟨k, hk, hmay⟩ := he.informed
  obtain ⟨k', hk', hends⟩ := he.answers
  have hallows : k.Allows items s.transcript := (System.run_keeps hk items st schedule).calls
  obtain ⟨hworld, hrecorded⟩ := System.run_recorded (e := e) (b := b) items st schedule
  obtain ⟨inputs, hsucceeded, hreplayed, hadvanced, hJ⟩ :=
    slots_replayed he hmay hrecorded hallows hplace nil save
  rw [← hworld] at hreplayed hadvanced hJ
  refine ⟨inputs, ⟨hsucceeded, hreplayed, hadvanced, ?_⟩, hJ⟩
  exact System.savesOnce_of_kept (fun _ _ => happening_states) hk
    (fun i d past h => (hmay i d.1 d.2 past h).fresh) hk' hends items st schedule

end

/-! ## The three engines -/

theorem View.newState_concat (v : View S E) (stored : Option S) (events : List E) (e : E) :
    v.newState stored (events ++ [e]) = (do v.evolve (← v.newState stored events) e) := by
  rw [newState, newState]
  rcases v.current stored with x | s
  · rfl
  · show v.evolveAll s (events ++ [e]) = (do v.evolve (← v.evolveAll s events) e)
    rw [evolveAll_append]
    refine congrArg (v.evolveAll s events >>= ·) (funext fun s => ?_)
    rw [evolveAll_cons]
    exact bind_pure _

theorem current_of_storedOr {v : View S E} {slot : Option (S × UInt64)} {s : S}
    {version : Option Version} (h : storedOr v.initial (Store.held slot) = .ok (s, version)) :
    v.current (slot.map (·.1)) = .ok s := by
  cases slot with
  | none =>
    obtain ⟨s', hs', h⟩ := Checked.bind_eq_ok.mp h
    obtain ⟨rfl, -⟩ := Prod.mk.inj (Except.ok.inj h)
    exact hs'
  | some stored =>
    obtain ⟨rfl, -⟩ := Prod.mk.inj (Except.ok.inj h)
    rfl

theorem StateStored.locking_replaces (d : Decider C S E R) :
    Replaces (locking d) d.initial d.Turns := by
  have h := updateLocked_replaces (.began .stateStoredLocking) .stateLocked d.initial
    (compute_computes d)
  simp only [Decider.becomes_eq_done] at h
  exact h

theorem Projection.locking_replaces (v : View S E) :
    Replaces (locking v) v.initial fun e s s' => v.evolve s e = .ok s' := by
  have h := updateLocked_replaces (R := Empty) (.began .viewLocking) .viewLocked v.initial
    fun e s => Program.ofChecked_computes (v.evolve s e)
  simp only [Outcome.ofChecked_eq_done] at h
  exact h

/-- **No lost update in slots.** Let whatever is saved belong to the slot of its input, and let
there be no provider. From every store and in every order of steps, the calls that succeeded give
the same answers and the same store as one after the other in the order of their saves; every slot
has come as many versions further as there were such calls on it, and all other calls change
nothing. A slot of a view holds what the events of its successful calls make of what it held
first. -/
theorem locked_slots_serialize {F : Type} [DecidableEq K] (d : Decider C S E R) (g : Saga E C)
    (limit : DepthLimit) (v : View T F) (layout : Layout K C E S) (layout' : Layout K F E T) :
    (∀ (items : List (Checked C)) (st : Store K E S A) (schedule : List Nat),
      let b := Store.lockedStates layout .faithful fun _ _ => none
      let s := (System.start (StateStored.locking d) items st).run b schedule
      SavesInPlace layout items s.transcript →
        ∃ inputs, SlotsSerialized (StateStored.locking d) layout b items st s inputs) ∧
    (∀ (items : List (Checked C)) (st : Store K E S A) (schedule : List Nat),
      let b := Store.lockedStates layout .faithful fun _ _ => none
      let s := (System.start (StateStored.lockingOrchestrating d g limit) items st).run b schedule
      SavesInPlace layout items s.transcript →
        ∃ inputs, SlotsSerialized (StateStored.lockingOrchestrating d g limit) layout b items st s
          inputs) ∧
    (∀ (items : List (Checked F)) (st : Store K E T A) (schedule : List Nat),
      let b := Store.lockedStates layout' .faithful fun _ _ => none
      let s := (System.start (Projection.locking v) items st).run b schedule
      SavesInPlace layout' items s.transcript →
        ∃ inputs, SlotsSerialized (Projection.locking v) layout' b items st s inputs ∧
          ∀ key, v.current ((s.world.slot key).map (·.1)) =
            v.newState ((st.slot key).map (·.1)) (inputs.filter (layout'.ofInput · = key))) := by
  refine ⟨?_, ?_, ?_⟩
  · intro items st schedule b s hplace
    obtain ⟨inputs, h, -⟩ := serialized_of_replaces (J := fun _ _ => True)
      (StateStored.locking_replaces d) schedule trivial (fun _ _ _ _ _ _ _ _ _ _ => trivial) hplace
    exact ⟨inputs, h⟩
  · intro items st schedule b s hplace
    obtain ⟨inputs, h, -⟩ := serialized_of_replaces (J := fun _ _ => True)
      (StateStored.lockingOrchestrating_replaces d g limit) schedule trivial
      (fun _ _ _ _ _ _ _ _ _ _ => trivial) hplace
    exact ⟨inputs, h⟩
  · intro items st schedule b s hplace
    refine serialized_of_replaces (J := fun events w => ∀ key,
      v.current ((w.slot key).map (·.1)) =
        v.newState ((st.slot key).map (·.1)) (events.filter (layout'.ofInput · = key)))
      (Projection.locking_replaces v) schedule (fun key => ?_) ?_ hplace
    · exact (bind_pure _).symm
    · intro events w e s version s' number hfolded hcurrent hevolve key
      rw [List.filter_append]
      by_cases hkey : layout'.ofInput e = key
      · subst hkey
        simp only [List.filter_cons, List.filter_nil, decide_true, if_true]
        rw [Store.slot_putSlot_self, View.newState_concat, ← hfolded, current_of_storedOr hcurrent]
        exact hevolve.symm
      · rw [Store.slot_putSlot_ne _ hkey, hfolded key]
        simp [hkey]

namespace Account

theorem turns (c s s' : Entry) (h : decider.Turns c s s') :
    layout.ofState s' = layout.ofInput c := by
  obtain ⟨events, -, hdecide, hevolve⟩ := h
  by_cases hsmall : c.2 ≤ 1000 <;> simp [decider, Decider.total, hsmall] at hdecide
  subst hdecide
  obtain rfl := Except.ok.inj hevolve
  rfl

theorem view_evolves (e s s' : Entry) (h : view.evolve s e = .ok s') :
    layout.ofState s' = layout.ofInput e := by
  obtain rfl := Except.ok.inj h
  rfl

end Account

/-- Two bookings on one account, where the second call comes too late, and one on another. -/
theorem bookings_replace_slots :
    let b := Store.lockedStates Account.layout .faithful fun _ _ => none
    let st : Store Nat Account.Entry Account.Entry Empty := .empty
    let items := [.ok (1, 5), .ok (1, 7), .ok (2, 3)]
    let schedule := [0, 0, 1, 1, 2, 2] ++ List.replicate 6 0 ++ List.replicate 6 1 ++
      List.replicate 6 2
    (∃ inputs, SlotsSerialized (StateStored.locking Account.decider) Account.layout b items st
      ((System.start (StateStored.locking Account.decider) items st).run b schedule) inputs) ∧
    (∃ inputs, SlotsSerialized (StateStored.lockingOrchestrating Account.decider .empty .unlimited)
      Account.layout b items st
      ((System.start (StateStored.lockingOrchestrating Account.decider .empty .unlimited) items
        st).run b schedule) inputs) ∧
    ∃ inputs, SlotsSerialized (Projection.locking Account.view) Account.layout b items st
      ((System.start (Projection.locking Account.view) items st).run b schedule) inputs := by
  intro b st items schedule
  obtain ⟨hlocking, horchestrating, hview⟩ := locked_slots_serialize (A := Empty) Account.decider
    .empty .unlimited Account.view Account.layout Account.layout
  refine ⟨?_, ?_, ?_⟩
  · refine hlocking items st schedule ?_
    exact (StateStored.locking_replaces _).savesInPlace Account.turns b st schedule
  · refine horchestrating items st schedule ?_
    exact (StateStored.lockingOrchestrating_replaces _ _ _).savesInPlace Account.arrives b st
      schedule
  · obtain ⟨inputs, h, -⟩ := hview items st schedule
      ((Projection.locking_replaces _).savesInPlace Account.view_evolves b st schedule)
    exact ⟨inputs, h⟩

end EventMachines
