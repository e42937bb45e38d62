import EventMachines.Proofs.Concurrency.Replay
import EventMachines.Proofs.Execution.Computation
import EventMachines.Proofs.Store.Growth
import EventMachines.Sample.Account

/-!
Numbered deliveries at the same time. A delivery is looked at twice: the engine compares its number
with the one it fetched, and the store with the one it holds when it is asked to save. A slot
changes only while its number goes up, so where both find the delivery to be the next one the slot
is still what was fetched.

* `deduplicating_eq`: both engines that deduplicate are `updateNumbered`, and `updateNumbered_kept`
  says what a delivery does, whatever the replies;
* `delivered_on_current`: what is accepted was applied to what its slot holds right before;
* `accepted_consecutive`: under each key the accepted deliveries count on from what was stored
  first;
* `deliveries_applied_once`: both engines apply every delivery at most once and in turn, whatever
  the order of their steps.
-/

namespace EventMachines

open Program hiding bind

variable {C I S E R K A T : Type}

/-! ## One delivery -/

/-- Fetches a state and, if the delivery is the next one, changes it and saves the result with the
number of the delivery. -/
def Program.updateNumbered (began : SequenceNumber → Note)
    (skipped : Option SequenceNumber → Note) (ended : Note) (initial : Checked S)
    (change : I → S → Program (Exchange.numberedStates I S) (Failure I R) S) :
    I × SequenceNumber →
      Program (Exchange.numberedStates I S) (Failure I R) (S × SequenceNumber) :=
  fun (i, sequence) => do
    tell (began sequence)
    let stored ← read i (.fetchFailed i)
    let (s, last) ← ofChecked (storedOr initial stored)
    match ← ofChecked (sequence.check last) with
    | .error e =>
      tell (skipped last)
      fail (.storeFailed i e)
    | .ok () =>
      let s ← change i s
      let saved ← save (s, sequence) (.storeFailed i)
      tell ended
      return saved

theorem StateStored.deduplicating_eq (d : Decider C S E R) :
    deduplicating d = .ofProgram (updateNumbered (.began <| .stateStoredDeduplicating ·)
      .commandSkipped .stateSaved d.initial (compute d)) := rfl

theorem Projection.deduplicating_eq (v : View S E) :
    deduplicating v = .ofProgram (updateNumbered (.began <| .viewDeduplicating ·) .eventSkipped
      .viewSaved v.initial fun e s => ofChecked (v.evolve s e)) := rfl

section

variable (began : SequenceNumber → Note) (skipped : Option SequenceNumber → Note) (ended : Note)
  (initial : Checked S) {change : I → S → Program (Exchange.numberedStates I S) (Failure I R) S}
  {becomes : I → S → Outcome (Failure I R) S}

/-- A delivery out of turn is refused with the number that is due, and one in turn ends with the
failure of its change. -/
def Refuses (becomes : I → S → Outcome (Failure I R) S) (i : I) (sequence : SequenceNumber) (s : S)
    (last : Option SequenceNumber) (o : Outcome (Failure I R) (S × SequenceNumber)) : Prop :=
  (∀ e, sequence.check last = .ok (.error e) → o = .failed (.storeFailed i e)) ∧
    ∀ e, sequence.check last = .ok (.ok ()) → becomes i s = .failed e → o = .failed e

section

variable {i : I} {sequence : SequenceNumber} {s : S} {last : Option SequenceNumber}
  {o : Outcome (Failure I R) (S × SequenceNumber)}

theorem refuses_of_error {e : StoreError} (hchecked : sequence.check last = .ok (.error e)) :
    Refuses becomes i sequence s last (.failed (.storeFailed i e)) := by
  refine ⟨fun e' h => ?_, fun e' h => ?_⟩ <;> cases hchecked.symm.trans h
  rfl

theorem refuses_of_fault {x : Fault} (hfault : sequence.check last = .error x) :
    Refuses becomes i sequence s last o := by
  refine ⟨fun e h => ?_, fun e h => ?_⟩ <;> cases hfault.symm.trans h

theorem refuses_of_due (hchecked : sequence.check last = .ok (.ok ()))
    (hbecomes : ∀ e, becomes i s = .failed e → o = .failed e) :
    Refuses becomes i sequence s last o := by
  refine ⟨fun e h => ?_, fun e _ => hbecomes e⟩
  cases hchecked.symm.trans h

end

/-- A call fetches once, and writes once if its number is the next one: what it computed, with that
number. -/
def deliveringProtocol
    (e : Engine (Exchange.numberedStates I S) (Failure I R) (I × SequenceNumber)
      (S × SequenceNumber))
    (becomes : I → S → Outcome (Failure I R) S) : Protocol e where
  may
    | (i, _), .fetch j, past => j = i ∧ past = []
    | (i, sequence), .write (s', number), past => number = sequence ∧ ∃ stored s last,
      past = [.fetched i (.ok (.ok stored))] ∧ storedOr initial stored = .ok (s, last) ∧
      sequence.check last = .ok (.ok ()) ∧ becomes i s = .done s'
    | _, .consult _, _ => False
  ends
    | (i, sequence), o, past => Answers o past ∧ ∀ stored s last,
      .fetched i (.ok (.ok stored)) ∈ past → storedOr initial stored = .ok (s, last) →
      Refuses becomes i sequence s last o
  waits _ _ _ := False

theorem updateNumbered_kept (hchange : ∀ i s, (change i s).Computes (becomes i s)) :
    (deliveringProtocol initial (.ofProgram (updateNumbered began skipped ended initial change))
      becomes).Kept := by
  refine Protocol.kept_ofProgram fun (i, sequence) => ?_
  refine Program.keeps_read_bind ⟨rfl, rfl⟩ (fun stored => ?_) ?_ ?_
  · have hfetched : ∀ h ∈ [Happening.fetched i (.ok (.ok stored))],
        (h : Happening (Exchange.numberedStates I S)).save? = none := by simp [Happening.save?]
    refine Program.keeps_ofChecked_bind (fun current hcurrent => ?_) fun x hfault => ?_
    · obtain ⟨s, last⟩ := current
      -- whatever the end, nothing was fetched but this state
      have hends : ∀ o later, Answers o (later ++ [.fetched i (.ok (.ok stored))]) →
          (∀ h ∈ later, ∀ reply, h ≠ .fetched i reply) → Refuses becomes i sequence s last o →
          (deliveringProtocol initial (.ofProgram (updateNumbered began skipped ended initial
            change)) becomes).ends (i, sequence) o (later ++ [.fetched i (.ok (.ok stored))]) := by
        refine fun o later hanswers hlater hrefuses => ⟨hanswers, fun stored' s' last' hmem h => ?_⟩
        rcases List.mem_append.mp hmem with hmem | hmem
        · exact absurd rfl (hlater _ hmem _)
        · obtain rfl : stored' = stored := by simpa using hmem
          obtain ⟨rfl, rfl⟩ := Prod.mk.inj (Except.ok.inj (h.symm.trans hcurrent))
          exact hrefuses
      refine Program.keeps_ofChecked_bind (fun checked hchecked => ?_) fun x hfault => ?_
      · rcases checked with e | _
        · exact hends _ [] (answers_of_none (by simp) hfetched) (by simp)
            (refuses_of_error hchecked)
        · refine (hchange i s).keeps_bind.mpr ?_
          have hrefuses : ∀ o, (∀ e, becomes i s = .failed e → o = .failed e) →
              Refuses becomes i sequence s last o := fun o => refuses_of_due hchecked
          rcases hbecomes : becomes i s with s' | e | x <;> simp only [hbecomes] at hrefuses
          · have hsaving : ∀ o, Refuses becomes i sequence s last o := fun o => hrefuses o (by simp)
            refine Program.keeps_save_bind ?_ (fun saved => ?_) (fun e => ?_) fun x => ?_
            · exact ⟨rfl, stored, s, last, rfl, hcurrent, hchecked, hbecomes⟩
            · exact hends _ [_] (answers_of_save hfetched) (by simp) (hsaving _)
            · exact hends _ [_] (answers_of_none (by simp) (by simp [Happening.save?])) (by simp)
                (hsaving _)
            · exact hends _ [_] (answers_of_none (by simp) (by simp [Happening.save?])) (by simp)
                (hsaving _)
          · refine hends _ [] (answers_of_none (by simp) hfetched) (by simp) (hrefuses _ ?_)
            rintro _ ⟨⟩
            rfl
          · exact hends _ [] (answers_of_none (by simp) hfetched) (by simp) (hrefuses _ (by simp))
      · exact hends _ [] (answers_of_none (by simp) hfetched) (by simp) (refuses_of_fault hfault)
    · refine ⟨answers_of_none (by simp) hfetched, fun stored' t last' hmem h => ?_⟩
      obtain rfl : stored' = stored := by simpa using hmem
      cases hfault.symm.trans h
  · exact fun e => ⟨answers_of_none (by simp) (by simp [Happening.save?]), by simp⟩
  · exact fun x => ⟨answers_of_none (by simp) (by simp [Happening.save?]), by simp⟩

end

/-! ## Deliveries in turn -/

/-- What a fetch makes of a slot. -/
def Store.numbered (slot : Option (S × UInt64)) : Option (S × SequenceNumber) :=
  slot.map fun (s, number) => (s, ⟨number⟩)

theorem Store.count_numbered (slot : Option (S × UInt64)) :
    SequenceNumber.count ((Store.numbered slot).map (·.2)) = Store.slotCount slot := by
  cases slot <;> rfl

/-- The writes under a key. -/
def savedUnder [DecidableEq K] (layout : Layout K I T S) (key : K)
    (saved : List (Saved (Exchange.numberedStates I S))) :
    List (Saved (Exchange.numberedStates I S)) :=
  saved.filter fun save => layout.ofState save.data.1 = key

theorem savedUnder_concat_self [DecidableEq K] (layout : Layout K I T S)
    (saved : List (Saved (Exchange.numberedStates I S)))
    (save : Saved (Exchange.numberedStates I S)) :
    savedUnder layout (layout.ofState save.data.1) (saved ++ [save]) =
      savedUnder layout (layout.ofState save.data.1) saved ++ [save] := by
  simp [savedUnder]

theorem savedUnder_concat_ne [DecidableEq K] (layout : Layout K I T S) {key : K}
    (saved : List (Saved (Exchange.numberedStates I S)))
    {save : Saved (Exchange.numberedStates I S)}
    (hne : layout.ofState save.data.1 ≠ key) :
    savedUnder layout key (saved ++ [save]) = savedUnder layout key saved := by
  simp [savedUnder, hne]

section

variable [DecidableEq K] {layout : Layout K I T S} {st : Store K T S A}
  {transcript : List (Nat × Happening (Exchange.numberedStates I S))}

/-- Only an accepted write changes slots. -/
theorem happening_numbered {h : Happening (Exchange.numberedStates I S)} {w : Store K T S A}
    (htruthful : h.Truthful (Store.numberedStates layout .faithful) w) (hnone : h.save? = none) :
    h.effect (Store.numberedStates layout .faithful) w = w := by
  rcases h with n | ⟨input, reply⟩ | ⟨⟨s, sequence⟩, reply⟩ | ⟨input, answer⟩
  · rfl
  · rfl
  · rcases Store.write_numberedStates layout .faithful w s sequence with
      ⟨stored, -, -, hwrite⟩ | ⟨hsame, -⟩
    · simp only [Happening.Truthful] at htruthful
      rw [hwrite] at htruthful
      subst htruthful
      cases hnone
    · exact hsame
  · rfl

/-- A state that was accepted is in its slot, and its number is the next one. -/
theorem wrote_numbered {w : Store K T S A} {s : S} {sequence : SequenceNumber}
    {saved : S × SequenceNumber}
    (haccepted : ((Store.numberedStates layout .faithful).write (s, sequence) w).1 =
      .ok (.ok saved)) :
    saved = (s, sequence) ∧
      sequence.number.toNat = Store.slotCount (w.slot (layout.ofState s)) + 1 ∧
      ((Store.numberedStates layout .faithful).write (s, sequence) w).2 =
        w.putSlot (layout.ofState s) s sequence.number := by
  rcases Store.write_numberedStates layout .faithful w s sequence with
    ⟨stored, hnumber, hstored, hwrite⟩ | ⟨-, hrefused⟩
  · obtain rfl := Except.ok.inj hstored
    rw [hwrite] at haccepted
    exact ⟨(Except.ok.inj (Except.ok.inj haccepted)).symm, hnumber, congrArg Prod.snd hwrite⟩
  · exact absurd haccepted (hrefused saved)

/-- What was fetched is still in its slot where the slot has its number. -/
theorem numbered_of_fetched {c : I} {stored : Option (S × SequenceNumber)} {i : Nat}
    {atFetch earlier : List (Nat × Happening (Exchange.numberedStates I S))}
    (hrecorded : Recorded (Store.numberedStates layout .faithful) st earlier)
    (hfetch : (i, .fetched c (.ok (.ok stored))) :: atFetch <:+ earlier)
    (hnumber : SequenceNumber.count (stored.map (·.2)) = Store.slotCount
      ((worldAfter (Store.numberedStates layout .faithful) st earlier).slot (layout.ofInput c))) :
    Store.numbered ((worldAfter (Store.numberedStates layout .faithful) st earlier).slot
      (layout.ofInput c)) = stored := by
  obtain ⟨hreply, -⟩ := hrecorded.of_suffix hfetch
  have hslot : Store.numbered ((worldAfter (Store.numberedStates layout .faithful) st atFetch).slot
      (layout.ofInput c)) = stored := Except.ok.inj (Except.ok.inj hreply)
  rw [← hslot, Store.count_numbered] at hnumber
  rw [← hslot]
  refine congrArg Store.numbered (Eq.symm ?_)
  exact view_eq_of_measure_eq (Store.numberedStates_advances layout .faithful (layout.ofInput c))
    ((List.suffix_cons _ _).trans hfetch) hnumber

/-- **No gap, no repetition.** Under each key the accepted numbers count on from the one stored
first to the one stored last. -/
theorem accepted_consecutive
    (hrecorded : Recorded (Store.numberedStates layout .faithful) st transcript) (key : K) :
    let accepted := savedUnder layout key (saves transcript)
    accepted.map (·.data.2.number.toNat) =
        List.range' (Store.slotCount (st.slot key) + 1) accepted.length ∧
      Store.slotCount
          ((worldAfter (Store.numberedStates layout .faithful) st transcript).slot key) =
        Store.slotCount (st.slot key) + accepted.length := by
  refine saves_induction (motive := fun saved w =>
    (savedUnder layout key saved).map (·.data.2.number.toNat) =
        List.range' (Store.slotCount (st.slot key) + 1) (savedUnder layout key saved).length ∧
      Store.slotCount (w.slot key) =
        Store.slotCount (st.slot key) + (savedUnder layout key saved).length)
    (fun _ _ => happening_numbered) ⟨rfl, rfl⟩ hrecorded ?_
  rintro i ⟨s, sequence⟩ saved earlier hsuffix ⟨hnumbers, hcount⟩
  obtain ⟨haccepted, -⟩ := hrecorded.of_suffix hsuffix
  obtain ⟨-, hnumber, hwrite⟩ := wrote_numbered haccepted
  rw [hwrite]
  by_cases hkey : layout.ofState s = key
  · subst hkey
    have hconcat := savedUnder_concat_self layout (saves earlier) ⟨i, (s, sequence), saved⟩
    have hstored : Store.slotCount (some (s, sequence.number)) = sequence.number.toNat := rfl
    rw [hconcat, List.map_append, List.length_append, List.length_singleton, List.range'_1_concat,
      hnumbers, Store.slot_putSlot_self, hstored, List.map_singleton, hnumber, hcount]
    exact ⟨by rw [Nat.add_right_comm], Nat.add_assoc _ _ _⟩
  · rw [savedUnder_concat_ne layout (saves earlier) hkey, Store.slot_putSlot_ne _ hkey]
    exact ⟨hnumbers, hcount⟩

variable {initial : Checked S} {becomes : I → S → Outcome (Failure I R) S}
  {e : Engine (Exchange.numberedStates I S) (Failure I R) (I × SequenceNumber) (S × SequenceNumber)}
  {items : List (Checked (I × SequenceNumber))}

/-- **Nothing in between.** A delivery that is accepted was saved with its own number, and where
that is in the slot its call fetched, it was applied to what this slot holds right before. -/
theorem delivered_on_current
    (hrecorded : Recorded (Store.numberedStates layout .faithful) st transcript)
    (hallows : (deliveringProtocol initial e becomes).Allows items transcript) {i : Nat} {s' : S}
    {number : SequenceNumber} {saved : S × SequenceNumber}
    {earlier : List (Nat × Happening (Exchange.numberedStates I S))}
    (hsuffix : (i, .wrote (s', number) (.ok (.ok saved))) :: earlier <:+ transcript) :
    let w := worldAfter (Store.numberedStates layout .faithful) st earlier
    saved = (s', number) ∧ ∃ input, items[i]? = some (.ok (input, number)) ∧
      (layout.ofState s' = layout.ofInput input → ∃ t last,
        storedOr initial (Store.numbered (w.slot (layout.ofInput input))) = .ok (t, last) ∧
        becomes input t = .done s') := by
  intro w
  obtain ⟨⟨input, sequence⟩, hitem, rfl, stored, t, last, hpast, hcurrent, hcheck, hbecomes⟩ :=
    hallows i _ _ earlier hsuffix rfl
  obtain ⟨haccepted, -⟩ := hrecorded.of_suffix hsuffix
  have hearlier := hrecorded.of_suffix ((List.suffix_cons _ _).trans hsuffix)
  obtain ⟨hsaved, hnumber, -⟩ := wrote_numbered haccepted
  refine ⟨hsaved, input, hitem, fun hplace => ⟨t, last, ?_, hbecomes⟩⟩
  obtain ⟨atFetch, hfetch, -⟩ := exists_of_past hpast
  have hdue := SequenceNumber.check_eq_ok.mp hcheck
  have hsame : Store.numbered (w.slot (layout.ofInput input)) = stored := by
    refine numbered_of_fetched hearlier hfetch ?_
    rw [storedOr_token hcurrent, ← hplace]
    omega
  rw [hsame]
  exact hcurrent

end

/-! ## Deliveries at the same time -/

/-- What became of deliveries at the same time. -/
structure AppliedOnce [DecidableEq K]
    {e : Engine (Exchange.numberedStates I S) (Failure I R) (I × SequenceNumber)
      (S × SequenceNumber)}
    (initial : Checked S) (becomes : I → S → Outcome (Failure I R) S) (layout : Layout K I T S)
    (items : List (Checked (I × SequenceNumber))) (st : Store K T S A)
    (s : System e (Store K T S A)) : Prop where
  /-- Under each key the accepted numbers count on from the one stored first to the one stored
  now. -/
  consecutive : ∀ key, let accepted := savedUnder layout key (saves s.transcript)
    accepted.map (·.data.2.number.toNat) =
        List.range' (Store.slotCount (st.slot key) + 1) accepted.length ∧
      Store.slotCount (s.world.slot key) = Store.slotCount (st.slot key) + accepted.length
  /-- What is accepted is a delivery with its own number, applied to what its slot holds right
  before.
  -/
  applied : ∀ (i : Nat) data ack earlier,
    (i, .wrote data (.ok (.ok ack))) :: earlier <:+ s.transcript →
    ack = data ∧ ∃ input, items[i]? = some (.ok (input, data.2)) ∧
      (layout.ofState data.1 = layout.ofInput input → ∃ t last,
        storedOr initial (Store.numbered ((worldAfter (Store.numberedStates layout .faithful) st
          earlier).slot (layout.ofInput input))) = .ok (t, last) ∧ becomes input t = .done data.1)
  savesOnce : s.SavesOnce (Store.numberedStates layout .faithful)
  /-- A delivery that finds another number due than its own is refused with the one that is. -/
  outOfTurn : ∀ (i : Nat) input sequence stored t last, items[i]? = some (.ok (input, sequence)) →
    .fetched input (.ok (.ok stored)) ∈ past i s.transcript →
    storedOr initial stored = .ok (t, last) →
    SequenceNumber.count last + 1 < 18446744073709551616 →
    sequence.number.toNat ≠ SequenceNumber.count last + 1 →
    ∀ o, s.tasks[i]? = some (.finished o) → ∃ due e,
      due.number.toNat = SequenceNumber.count last + 1 ∧
      e = .storeFailed input (.sequenceMismatch due sequence) ∧ e.isDuplicate = true ∧ o = .failed e
  /-- One in turn whose change fails ends with that failure. -/
  refused : ∀ (i : Nat) input sequence stored t last e, items[i]? = some (.ok (input, sequence)) →
    .fetched input (.ok (.ok stored)) ∈ past i s.transcript →
    storedOr initial stored = .ok (t, last) →
    sequence.number.toNat = SequenceNumber.count last + 1 → becomes input t = .failed e →
    ∀ o, s.tasks[i]? = some (.finished o) → o = .failed e
  settles : ∀ i < items.length, ∃ n o,
    (s.run (Store.numberedStates layout .faithful) (List.replicate n i)).tasks[i]? =
      some (.finished o)

/-- Engines that deduplicate apply every delivery at most once, and in turn. -/
theorem updateNumbered_appliedOnce [DecidableEq K] (began : SequenceNumber → Note)
    (skipped : Option SequenceNumber → Note) (ended : Note) (initial : Checked S)
    {change : I → S → Program (Exchange.numberedStates I S) (Failure I R) S}
    {becomes : I → S → Outcome (Failure I R) S}
    (hchange : ∀ i s, (change i s).Computes (becomes i s)) (layout : Layout K I T S)
    (items : List (Checked (I × SequenceNumber))) (st : Store K T S A) (schedule : List Nat) :
    AppliedOnce initial becomes layout items st
      ((System.start (.ofProgram (updateNumbered began skipped ended initial change)) items st).run
        (Store.numberedStates layout .faithful) schedule) := by
  let e : Engine (Exchange.numberedStates I S) (Failure I R) (I × SequenceNumber) _ :=
    .ofProgram (updateNumbered began skipped ended initial change)
  let b : Backend (Exchange.numberedStates I S) (Store K T S A) :=
    Store.numberedStates layout .faithful
  let s := (System.start e items st).run b schedule
  have hk : (deliveringProtocol initial e becomes).Kept :=
    updateNumbered_kept began skipped ended initial hchange
  have hkeeps : s.Keeps (deliveringProtocol initial e becomes) items :=
    System.run_keeps hk items st schedule
  obtain ⟨hworld, hrecorded⟩ := System.run_recorded (e := e) (b := b) items st schedule
  -- how a call ended that fetched this state
  have hended : ∀ (i : Nat) input sequence stored t last, items[i]? = some (.ok (input, sequence)) →
      .fetched input (.ok (.ok stored)) ∈ past i s.transcript →
      storedOr initial stored = .ok (t, last) →
      ∀ o, s.tasks[i]? = some (.finished o) → Refuses becomes input sequence t last o := by
    intro i input sequence stored t last hitem hfetched hcurrent o hfinished
    rcases hkeeps.tasks i _ hfinished with ⟨item, hitem', hends⟩ | ⟨x, hitem', -⟩
    · obtain rfl : (input, sequence) = item :=
        Except.ok.inj (Option.some.inj (hitem.symm.trans hitem'))
      exact hends.2 stored t last hfetched hcurrent
    · cases hitem.symm.trans hitem'
  constructor
  case consecutive =>
    intro key
    have haccepted := accepted_consecutive hrecorded key
    rw [← hworld] at haccepted
    exact haccepted
  case applied =>
    rintro i ⟨s', number⟩ ack earlier hsuffix
    exact delivered_on_current hrecorded hkeeps.calls hsuffix
  case savesOnce =>
    refine System.savesOnce_of_kept (fun _ _ => happening_numbered) hk ?_ hk
      (fun _ _ _ h => h.1) items st schedule
    rintro ⟨i, sequence⟩ ⟨s', number⟩ past ⟨-, stored, s, last, rfl, -⟩
    simp [Happening.save?]
  case outOfTurn =>
    intro i input sequence stored t last hitem hfetched hcurrent hroom hne o hfinished
    obtain ⟨hrefused, -⟩ :=
      hended i input sequence stored t last hitem hfetched hcurrent o hfinished
    obtain ⟨due, hdue⟩ := SequenceNumber.exists_successor hroom
    have hcount := SequenceNumber.successor_eq_ok.mp hdue
    refine ⟨due, _, hcount, rfl, rfl,
      hrefused _ (SequenceNumber.check_eq_error.mpr ⟨due, hdue, ?_, rfl⟩)⟩
    rintro rfl
    exact hne hcount
  case refused =>
    intro i input sequence stored t last e hitem hfetched hcurrent hnumber hbecomes o hfinished
    obtain ⟨-, hrefused⟩ :=
      hended i input sequence stored t last hitem hfetched hcurrent o hfinished
    exact hrefused e (SequenceNumber.check_eq_ok.mpr hnumber) hbecomes
  case settles =>
    intro i hi
    have hlength : s.tasks.length = items.length := System.tasks_length items st schedule
    rw [← hlength] at hi
    exact System.exists_finished b (List.getElem?_eq_getElem hi)

/-- **Exactly once.** Whatever numbers the deliveries carry and in whatever order they take their
steps, under each key those that are accepted count on from what was stored, each that is saved
where its call fetched is applied to exactly what is stored right before, and all others change
nothing. -/
theorem deliveries_applied_once {F : Type} [DecidableEq K] (d : Decider C S E R) (v : View T F)
    (layout : Layout K C E S) (layout' : Layout K F E T) (schedule : List Nat) :
    (∀ (items : List (Checked (C × SequenceNumber))) (st : Store K E S A),
      AppliedOnce d.initial d.becomes layout items st
        ((System.start (StateStored.deduplicating d) items st).run
          (Store.numberedStates layout .faithful) schedule)) ∧
    ∀ (items : List (Checked (F × SequenceNumber))) (st : Store K E T A),
      AppliedOnce v.initial (fun e s => .ofChecked (v.evolve s e)) layout' items st
        ((System.start (Projection.deduplicating v) items st).run
          (Store.numberedStates layout' .faithful) schedule) := by
  refine ⟨fun items st => ?_, fun items st => ?_⟩
  · rw [StateStored.deduplicating_eq]
    exact updateNumbered_appliedOnce _ _ _ d.initial (StateStored.compute_computes d) layout
      items st schedule
  · rw [Projection.deduplicating_eq]
    exact updateNumbered_appliedOnce _ _ _ v.initial
      (fun e s => Program.ofChecked_computes (v.evolve s e)) layout' items st schedule

/-- The same booking comes twice at the same time, then one that is rejected, and then another with
the number of that one. -/
example :
    let items := [.ok ((1, 5), ⟨1⟩), .ok ((1, 5), ⟨1⟩), .ok ((1, 2000), ⟨2⟩), .ok ((1, 7), ⟨2⟩)]
    let s := (System.start (StateStored.deduplicating Account.decider) items
      (.empty : Store Nat Account.Entry Account.Entry Empty)).run
      (Store.numberedStates Account.layout .faithful)
      ([0, 0, 1, 1] ++ List.replicate 9 0 ++ List.replicate 9 1 ++ List.replicate 9 2 ++
        List.replicate 9 3)
    s.world.slot 1 = some ((1, 12), 2) ∧ s.outcomes =
      [.done ((1, 5), ⟨1⟩), .failed (.storeFailed (1, 5) (.sequenceMismatch ⟨2⟩ ⟨1⟩)),
        .failed (.rejected (1, 2000) "too much"), .done ((1, 12), ⟨2⟩)] :=
  ⟨rfl, rfl⟩

end EventMachines
