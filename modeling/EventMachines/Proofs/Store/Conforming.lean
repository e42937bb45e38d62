import EventMachines.Proofs.Concurrency.Cascades

/-!
Stores that do what they are for. A fetch returns what is held under the key of its input, and a
write that expects what is held there is accepted and changes that key alone, unless it breaks off.
A store may count its writes, as versions or as numbers of deliveries.

* `Backend.KeepsStreams`, `Backend.KeepsVersions`: streams of events, without and with versions;
* `Backend.KeepsStates`, `Backend.KeepsMarks`: a state under each key, without and with what it was
  written at;
* `Backend.HasRoom`: a store that answers the next so many writes;
* `Store.events_keepsStreams`, `Store.states_hasRoom` and the like: the store in memory, with an
  intake that is faithful.
-/

namespace EventMachines

variable {P : Exchange} {C I E S T X K V A α ω : Type}

/-- Under this key is that value now, and under all others what was there before. -/
structure ChangedAt (before after : K → V) (key : K) (value : V) : Prop where
  here : after key = value
  elsewhere : ∀ other, key ≠ other → after other = before other

/-- The store broke off instead of giving an answer. -/
def Reply.Breaks (reply : Reply α) : Prop := ∃ x, reply = .error x

theorem Reply.not_breaks_ok (answer : Except StoreError α) : ¬ Breaks (.ok answer) := by
  rintro ⟨x, hx⟩
  cases hx

/-- A store of streams, of which each batch belongs to that of its first event. -/
structure Backend.KeepsStreams (b : Backend (Exchange.events I E) ω) (layout : Layout K I E S)
    (held : ω → K → List E) : Prop where
  fetch : ∀ i w, ∃ w', b.fetch i w = (.ok (.ok (held w (layout.ofInput i))), w') ∧ held w' = held w
  write : ∀ e rest w, Reply.Breaks (b.write (e :: rest) w).1 ∨
    ∃ w', b.write (e :: rest) w = (.ok (.ok (e :: rest)), w') ∧
      ChangedAt (held w) (held w') (layout.ofEvent e) (held w (layout.ofEvent e) ++ e :: rest)

/-- A store of versioned streams. A batch is added to the stream that is at the version it expects,
and gets the versions that come next. -/
structure Backend.KeepsVersions (b : Backend (Exchange.lockedEvents I E) ω)
    (layout : Layout K I E S) (held : ω → K → List (E × Version)) : Prop where
  fetch : ∀ i w, ∃ w', b.fetch i w = (.ok (.ok (held w (layout.ofInput i))), w') ∧ held w' = held w
  write : ∀ e rest w, let log := held w (layout.ofEvent e)
    let data := (e :: rest, ExpectedVersion.ofCurrent (EventSourced.lastVersion log))
    Reply.Breaks (b.write data w).1 ∨
    ∃ added log' w', b.write data w = (.ok (.ok added), w') ∧ added.map (·.1) = e :: rest ∧
      Grown log added log' ∧ ChangedAt (held w) (held w') (layout.ofEvent e) log'
  untold : ∀ i w, b.consult i w = none

/-- A store of states, each under its key. -/
structure Backend.KeepsStates (b : Backend (Exchange.states I S) ω) (layout : Layout K I E S)
    (held : ω → K → Option S) : Prop where
  fetch : ∀ i w, ∃ w', b.fetch i w = (.ok (.ok (held w (layout.ofInput i))), w') ∧ held w' = held w
  write : ∀ s w, Reply.Breaks (b.write s w).1 ∨
    ∃ w', b.write s w = (.ok (.ok s), w') ∧
      ChangedAt (held w) (held w') (layout.ofState s) (some s)

/-- A store of states that are marked by their last write. A state is accepted if it comes with what
is due after the mark that is there, and its own mark counts one more. -/
structure Backend.KeepsMarks (b : Backend ⟨I, Option (S × T), S × X, S × T⟩ ω)
    (layout : Layout K I E S) (count : Option T → Nat) (due : Option T → X → Prop)
    (held : ω → K → Option (S × T)) : Prop where
  fetch : ∀ i w, ∃ w', b.fetch i w = (.ok (.ok (held w (layout.ofInput i))), w') ∧ held w' = held w
  write : ∀ s x w, let current := (held w (layout.ofState s)).map (·.2)
    due current x → Reply.Breaks (b.write (s, x) w).1 ∨
    ∃ mark w', b.write (s, x) w = (.ok (.ok (s, mark)), w') ∧
      count (some mark) = count current + 1 ∧
      ChangedAt (held w) (held w') (layout.ofState s) (some (s, mark))
  untold : ∀ i w, b.consult i w = none

/-- Due is what expects the current version. -/
def Version.Due (current : Option Version) (expected : ExpectedVersion) : Prop :=
  expected.toCurrent = current

/-- Due is the number that comes next. -/
def SequenceNumber.Due (last : Option SequenceNumber) (sequence : SequenceNumber) : Prop :=
  sequence.number.toNat = count last + 1

instance (last : Option SequenceNumber) (sequence : SequenceNumber) :
    Decidable (SequenceNumber.Due last sequence) := inferInstanceAs (Decidable (_ = _))

/-- With room for so many writes under a key, the store answers the next of them and has room for
the others. -/
structure Backend.HasRoom (b : Backend P ω) (target : P.Write → K) (room : ω → K → Nat → Prop) :
    Prop where
  fetch : ∀ i w key n, room w key n → room (b.fetch i w).2 key n
  write : ∀ data w n, room w (target data) (n + 1) →
    ¬ Reply.Breaks (b.write data w).1 ∧ room (b.write data w).2 (target data) n

/-! ## The store in memory -/

namespace Store

variable [DecidableEq K] (layout : Layout K I E S)

theorem events_keepsStreams :
    (events layout (.faithful : Intake E S A)).KeepsStreams layout fun st key =>
      (st.stream key).map (·.1) where
  fetch i st := ⟨st, rfl, rfl⟩
  write e rest st := by
    rcases htake : (Intake.faithful : Intake E S A).take (st.streamVersion (layout.ofEvent e))
      (e :: rest) with x | added
    · refine .inl ⟨x, ?_⟩
      simp only [events, append, htake, bind, Except.bind]
      rfl
    · have hadded := Intake.faithful_take htake
      refine .inr ⟨st.extend (layout.ofEvent e) added, ?_, ?_, fun other hne => ?_⟩
      · simp only [events, append, htake, bind, Except.bind]
        exact congrArg (fun events => (Except.ok (Except.ok events), st.extend _ added)) hadded
      · rw [stream_extend_self, List.map_append, hadded]
      · exact congrArg (List.map (·.1)) (stream_extend_ne st hne added)

theorem lockedEvents_keepsVersions :
    (lockedEvents layout (.faithful : Intake E S A) fun _ _ => none).KeepsVersions layout
      stream where
  fetch i st := ⟨st, rfl, rfl⟩
  write e rest st := by
    have hcheck : (ExpectedVersion.ofCurrent (EventSourced.lastVersion
        (st.stream (layout.ofEvent e)))).check (st.streamVersion (layout.ofEvent e)) = .ok () :=
      ExpectedVersion.check_eq_ok.mpr (ExpectedVersion.toCurrent_ofCurrent _)
    rcases htake : (Intake.faithful : Intake E S A).take (st.streamVersion (layout.ofEvent e))
      (e :: rest) with x | added
    · refine .inl ⟨x, ?_⟩
      simp only [lockedEvents, hcheck, append, htake, bind, Except.bind]
      rfl
    · refine .inr ⟨added, _, st.extend (layout.ofEvent e) added, ?_, Intake.faithful_take htake,
        grown_of_take htake, stream_extend_self st _ added,
        fun other hne => stream_extend_ne st hne added⟩
      simp only [lockedEvents, hcheck, append, htake, bind, Except.bind]
      rfl
  untold _ _ := rfl

theorem states_keepsStates :
    (states layout (.faithful : Intake E S A)).KeepsStates layout fun st key =>
      (st.slot key).map (·.1) where
  fetch i st := ⟨st, rfl, rfl⟩
  write s st := by
    rcases hnext : st.nextNumber (layout.ofState s) with x | version
    · refine .inl ⟨x, ?_⟩
      simp only [states, hnext, bind, Except.bind]
      rfl
    · refine .inr ⟨st.putSlot (layout.ofState s) s version.number, ?_, ?_, fun other hne => ?_⟩
      · simp only [states, hnext, bind, Except.bind]
        rfl
      · rw [slot_putSlot_self]
        rfl
      · exact congrArg (Option.map (·.1)) (slot_putSlot_ne st hne s version.number)

theorem lockedStates_keepsMarks :
    (lockedStates layout (.faithful : Intake E S A) fun _ _ => none).KeepsMarks layout Version.count
      Version.Due fun st key => held (st.slot key) where
  fetch i st := ⟨st, rfl, rfl⟩
  write s expected st := by
    intro current hdue
    have hcurrent : current = (st.slotNumber (layout.ofState s)).map (⟨·⟩) :=
      (map_held _).trans (slotVersion_slot st _)
    have hcheck := ExpectedVersion.check_eq_ok.mpr (hdue.trans hcurrent)
    rcases hnext : st.nextNumber (layout.ofState s) with x | version
    · refine .inl ⟨x, ?_⟩
      simp only [lockedStates, hcheck, hnext, bind, Except.bind]
      rfl
    · refine .inr ⟨version, st.putSlot (layout.ofState s) s version.number, ?_, ?_, ?_,
        fun other hne => ?_⟩
      · simp only [lockedStates, hcheck, hnext, bind, Except.bind]
        rfl
      · rw [hcurrent]
        exact Version.after_eq_ok.mp hnext
      · rw [slot_putSlot_self]
        rfl
      · exact congrArg held (slot_putSlot_ne st hne s version.number)
  untold _ _ := rfl

theorem numberedStates_keepsMarks :
    (numberedStates layout (.faithful : Intake E S A)).KeepsMarks layout SequenceNumber.count
      SequenceNumber.Due fun st key => (st.slot key).map fun p => (p.1, ⟨p.2⟩) where
  fetch i st := ⟨st, rfl, rfl⟩
  write s sequence st := by
    intro current hdue
    have hcurrent : current = (st.slotNumber (layout.ofState s)).map (⟨·⟩) := by
      rw [slotNumber, Option.map_map]
      exact Option.map_map ..
    have hcheck := SequenceNumber.check_eq_ok.mpr (hcurrent ▸ hdue)
    refine .inr ⟨sequence, st.putSlot (layout.ofState s) s sequence.number, ?_, hdue, ?_,
      fun other hne => ?_⟩
    · simp only [numberedStates, hcheck, bind, Except.bind]
      rfl
    · rw [slot_putSlot_self]
      rfl
    · exact congrArg (Option.map _) (slot_putSlot_ne st hne s sequence.number)
  untold _ _ := rfl

/-- The number of the slot can go up so many times. -/
def Room (st : Store K E S A) (key : K) (n : Nat) : Prop :=
  Version.count ((st.slotNumber key).map (⟨·⟩)) + n < UInt64.size

theorem Room.of_succ {st : Store K E S A} {key : K} {n : Nat} (h : st.Room key (n + 1)) :
    st.Room key n :=
  Nat.lt_of_succ_lt h

theorem Room.putSlot {st : Store K E S A} {key : K} {n : Nat} (h : st.Room key (n + 1)) (s : S)
    {number : UInt64}
    (hnumber : number.toNat = Version.count ((st.slotNumber key).map (⟨·⟩)) + 1) :
    (st.putSlot key s number).Room key n := by
  rw [Room, slotNumber, slot_putSlot_self]
  show number.toNat + n < UInt64.size
  rw [Room] at h
  omega

theorem Room.exists_next {st : Store K E S A} {key : K} {n : Nat} (h : st.Room key (n + 1)) :
    ∃ version, st.nextNumber key = .ok version ∧
      version.number.toNat = Version.count ((st.slotNumber key).map (⟨·⟩)) + 1 := by
  have hlt : Version.count ((st.slotNumber key).map (⟨·⟩)) + 1 < UInt64.size :=
    Nat.lt_of_le_of_lt (Nat.add_le_add_left (Nat.le_add_left 1 n) _) h
  have hnumber := Nat.mod_eq_of_lt hlt
  exact ⟨⟨.ofNat (Version.count ((st.slotNumber key).map (⟨·⟩)) + 1)⟩,
    Version.after_eq_ok.mpr hnumber, hnumber⟩

theorem count_slotNumber (number : Option UInt64) :
    SequenceNumber.count (number.map (⟨·⟩)) = Version.count (number.map (⟨·⟩)) := by
  cases number <;> rfl

theorem states_hasRoom :
    (states layout (.faithful : Intake E S A)).HasRoom layout.ofState Room where
  fetch _ _ _ _ h := h
  write s st n h := by
    obtain ⟨version, hnext, hnumber⟩ := h.exists_next
    have hwrite : (states layout (.faithful : Intake E S A)).write s st =
        (.ok (.ok s), st.putSlot (layout.ofState s) s version.number) := by
      simp only [states, hnext, bind, Except.bind]
      rfl
    rw [hwrite]
    exact ⟨Reply.not_breaks_ok _, h.putSlot s hnumber⟩

theorem lockedStates_hasRoom (latest : I → Store K E S A → Option ExpectedVersion) :
    (lockedStates layout (.faithful : Intake E S A) latest).HasRoom
      (fun data => layout.ofState data.1) Room where
  fetch _ _ _ _ h := h
  write := by
    rintro ⟨s, expected⟩ st n h
    obtain ⟨version, hnext, hnumber⟩ := h.exists_next
    rcases hcheck : expected.check ((st.slotNumber (layout.ofState s)).map (⟨·⟩)) with e | ⟨⟩
    · have hwrite : (lockedStates layout (.faithful : Intake E S A) latest).write (s, expected) st =
          (.ok (.error e), st) := by
        simp only [lockedStates, hcheck]
        rfl
      rw [hwrite]
      exact ⟨Reply.not_breaks_ok _, h.of_succ⟩
    · have hwrite : (lockedStates layout (.faithful : Intake E S A) latest).write (s, expected) st =
          (.ok (.ok (s, version)), st.putSlot (layout.ofState s) s version.number) := by
        simp only [lockedStates, hcheck, hnext, bind, Except.bind]
        rfl
      rw [hwrite]
      exact ⟨Reply.not_breaks_ok _, h.putSlot s hnumber⟩

theorem numberedStates_hasRoom :
    (numberedStates layout (.faithful : Intake E S A)).HasRoom
      (fun data => layout.ofState data.1) Room where
  fetch _ _ _ _ h := h
  write := by
    rintro ⟨s, sequence⟩ st n h
    rcases hcheck : sequence.check ((st.slotNumber (layout.ofState s)).map (⟨·⟩)) with x | e | ⟨⟩
    · -- there is a next number, so the check answers
      have hlt : SequenceNumber.count ((st.slotNumber (layout.ofState s)).map (⟨·⟩)) + 1 <
          UInt64.size := by
        rw [count_slotNumber]
        exact Nat.lt_of_le_of_lt (Nat.add_le_add_left (Nat.le_add_left 1 n) _) h
      obtain ⟨next, hnext⟩ := SequenceNumber.exists_successor hlt
      rw [SequenceNumber.check_of_successor hnext] at hcheck
      split at hcheck <;> cases hcheck
    · have hwrite : (numberedStates layout (.faithful : Intake E S A)).write (s, sequence) st =
          (.ok (.error e), st) := by
        simp only [numberedStates, hcheck, bind, Except.bind]
        rfl
      rw [hwrite]
      exact ⟨Reply.not_breaks_ok _, h.of_succ⟩
    · have hwrite : (numberedStates layout (.faithful : Intake E S A)).write (s, sequence) st =
          (.ok (.ok (s, sequence)), st.putSlot (layout.ofState s) s sequence.number) := by
        simp only [numberedStates, hcheck, bind, Except.bind]
        rfl
      rw [hwrite]
      refine ⟨Reply.not_breaks_ok _, h.putSlot s ?_⟩
      rw [← count_slotNumber]
      exact SequenceNumber.check_eq_ok.mp hcheck

end Store

end EventMachines
