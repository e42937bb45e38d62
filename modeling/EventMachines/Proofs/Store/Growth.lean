import EventMachines.Engine.EventSourced
import EventMachines.Proofs.Concurrency.History
import EventMachines.Store.Basic

/-!
How the store in memory grows. A write of versioned data either adds to one stream, or replaces one
slot, at the version it expects, or it leaves the store as it was; and the version goes up with
every change.

* `write_lockedEvents`, `write_lockedStates`, `write_numberedStates`: all that a write can do;
* `lockedEvents_advances`, `lockedStates_advances`, `numberedStates_advances`: a stream and a slot
  change only while their version or number goes up.
-/

namespace EventMachines

open EventSourced

variable {K I E S A : Type}

/-! ## Batches with their versions -/

namespace Intake

/-- What is stored for a batch has one event for each that was given, and the versions count on. -/
theorem take_spec (intake : Intake E S A) {current : Option Version} {events : List E}
    {added : List (E × Version)} (h : intake.take current events = .ok added) :
    added.length = events.length ∧
      ∀ before : List (E × Version), lastVersion before = current →
        Version.count (lastVersion (before ++ added)) = Version.count current + events.length := by
  induction events generalizing current added with
  | nil =>
    obtain rfl := Except.ok.inj h
    refine ⟨rfl, fun before hbefore => ?_⟩
    rw [List.append_nil, hbefore]
    rfl
  | cons e rest ih =>
    simp only [take, Checked.bind_eq_ok] at h
    obtain ⟨v, hv, stored, -, more, hmore, h⟩ := h
    obtain rfl := Except.ok.inj h
    obtain ⟨hlength, hversion⟩ := ih hmore
    refine ⟨congrArg (· + 1) hlength, fun before _ => ?_⟩
    have hnext : Version.count (some v) = Version.count current + 1 := Version.after_eq_ok.mp hv
    have hlast : lastVersion (before ++ [(stored, v)]) = some v := by simp [lastVersion]
    have hmoved := hversion (before ++ [(stored, v)]) hlast
    rw [List.append_assoc, List.singleton_append] at hmoved
    rw [hmoved, hnext, List.length_cons]
    omega

/-- The versions count on by one. -/
theorem take_versions (intake : Intake E S A) {current : Option Version} {events : List E}
    {added : List (E × Version)} (h : intake.take current events = .ok added) :
    added.map (·.2.number.toNat) = List.range' (Version.count current + 1) added.length := by
  induction events generalizing current added with
  | nil =>
    obtain rfl := Except.ok.inj h
    rfl
  | cons e rest ih =>
    simp only [take, Checked.bind_eq_ok] at h
    obtain ⟨v, hv, stored, -, more, hmore, h⟩ := h
    obtain rfl := Except.ok.inj h
    have hnext : v.number.toNat = Version.count current + 1 := Version.after_eq_ok.mp hv
    have hrest := ih hmore
    rw [Version.count, hnext] at hrest
    rw [List.map_cons, List.length_cons, List.range'_succ, hrest, hnext]

theorem faithful_take {current : Option Version} {events : List E} {added : List (E × Version)}
    (h : (faithful : Intake E S A).take current events = .ok added) : added.map (·.1) = events := by
  induction events generalizing current added with
  | nil =>
    obtain rfl := Except.ok.inj h
    rfl
  | cons e rest ih =>
    simp only [take, Checked.bind_eq_ok] at h
    obtain ⟨v, -, stored, hstored, more, hmore, h⟩ := h
    obtain rfl := Except.ok.inj hstored
    obtain rfl := Except.ok.inj h
    exact congrArg (e :: ·) (ih hmore)

end Intake

namespace Store

variable [DecidableEq K] (layout : Layout K I E S) (intake : Intake E S A)
  (latest : I → Store K E S A → Option ExpectedVersion)

/-! ## Streams -/

/-- The store with more events at the end of a stream. -/
def extend (st : Store K E S A) (key : K) (added : List (E × Version)) : Store K E S A :=
  { st with streams := st.streams.set key (st.stream key ++ added) }

@[simp] theorem stream_extend_self (st : Store K E S A) (key : K) (added : List (E × Version)) :
    (st.extend key added).stream key = st.stream key ++ added := by
  simp [extend, stream]

theorem stream_extend_ne (st : Store K E S A) {key other : K} (hne : key ≠ other)
    (added : List (E × Version)) : (st.extend key added).stream other = st.stream other := by
  simp [extend, stream, Table.get?_set_ne _ hne]

/-- **Writing events.** A batch goes to the end of the stream of its first event where that is at
the expected version; all else changes nothing, and succeeds only for a batch without events. -/
theorem write_lockedEvents (st : Store K E S A) (batch : List E) (expected : ExpectedVersion) :
    (∃ e rest added, batch = e :: rest ∧
      expected.toCurrent = st.streamVersion (layout.ofEvent e) ∧
      intake.take (st.streamVersion (layout.ofEvent e)) batch = .ok added ∧
      (lockedEvents layout intake latest).write (batch, expected) st =
        (.ok (.ok (intake.echo.of added)), st.extend (layout.ofEvent e) added)) ∨
    ((lockedEvents layout intake latest).write (batch, expected) st).2 = st ∧
      ∀ saved, ((lockedEvents layout intake latest).write (batch, expected) st).1 =
        .ok (.ok saved) → batch = [] := by
  cases batch with
  | nil => exact .inr ⟨rfl, fun _ _ => rfl⟩
  | cons e rest =>
    cases hcheck : expected.check (st.streamVersion (layout.ofEvent e)) with
    | error error =>
      refine .inr ?_
      simp [lockedEvents, hcheck, commit]
    | ok =>
      cases htake : intake.take (st.streamVersion (layout.ofEvent e)) (e :: rest) with
      | error x =>
        refine .inr ?_
        simp [lockedEvents, hcheck, append, htake, commit, bind, Except.bind]
      | ok added =>
        refine .inl ⟨e, rest, added, rfl, ExpectedVersion.check_eq_ok.mp hcheck, htake, ?_⟩
        simp only [lockedEvents, hcheck, append, htake, bind, Except.bind]
        rfl

/-- How far a stream has come. -/
def streamCount (stream : List (E × Version)) : Nat := Version.count (lastVersion stream)

theorem lockedEvents_advances (key : K) :
    (lockedEvents layout intake latest).Advances (fun st => st.stream key) streamCount := by
  intro h st
  rcases h with n | ⟨i, reply⟩ | ⟨⟨batch, expected⟩, reply⟩ | ⟨i, answer⟩
  · exact .inl rfl
  · exact .inl rfl
  · rcases write_lockedEvents layout intake latest st batch expected with
      ⟨e, rest, added, rfl, -, htake, hwrite⟩ | ⟨hsame, -⟩
    · simp only [Happening.effect, hwrite]
      by_cases hkey : layout.ofEvent e = key
      · subst hkey
        obtain ⟨-, hversion⟩ := intake.take_spec htake
        have hcount := hversion (st.stream (layout.ofEvent e)) rfl
        refine .inr ?_
        rw [stream_extend_self, streamCount, streamCount, hcount, List.length_cons]
        exact Nat.lt_add_of_pos_right (Nat.succ_pos _)
      · exact .inl (stream_extend_ne st hkey added)
    · exact .inl (congrArg (fun st => stream st key) hsame)
  · exact .inl rfl

/-! ## Slots -/

/-- The store with another state in a slot. -/
def putSlot (st : Store K E S A) (key : K) (s : S) (number : UInt64) : Store K E S A :=
  { st with slots := st.slots.set key (s, number) }

@[simp] theorem slot_putSlot_self (st : Store K E S A) (key : K) (s : S) (number : UInt64) :
    (st.putSlot key s number).slot key = some (s, number) := by
  simp [putSlot, slot]

theorem slot_putSlot_ne (st : Store K E S A) {key other : K} (hne : key ≠ other) (s : S)
    (number : UInt64) : (st.putSlot key s number).slot other = st.slot other := by
  simp [putSlot, slot, Table.get?_set_ne _ hne]

/-- The version of what is in a slot. -/
def slotVersion (slot : Option (S × UInt64)) : Option Version := slot.map fun stored => ⟨stored.2⟩

theorem slotVersion_slot (st : Store K E S A) (key : K) :
    slotVersion (st.slot key) = (st.slotNumber key).map (⟨·⟩) := by
  rw [slotVersion, slotNumber, Option.map_map]
  rfl

/-- **Writing a state.** A state replaces what is in its slot where that is at the expected version,
and gets the next one; all else changes nothing and does not succeed. -/
theorem write_lockedStates (st : Store K E S A) (s : S) (expected : ExpectedVersion) :
    (∃ stored version, expected.toCurrent = slotVersion (st.slot (layout.ofState s)) ∧
      version.number.toNat = Version.count (slotVersion (st.slot (layout.ofState s))) + 1 ∧
      intake.onState s = .ok stored ∧
      (lockedStates layout intake latest).write (s, expected) st =
        (.ok (.ok (stored, version)), st.putSlot (layout.ofState s) stored version.number)) ∨
    ((lockedStates layout intake latest).write (s, expected) st).2 = st ∧
      ∀ saved, ((lockedStates layout intake latest).write (s, expected) st).1 ≠
        .ok (.ok saved) := by
  rw [slotVersion_slot]
  cases hcheck : expected.check ((st.slotNumber (layout.ofState s)).map (⟨·⟩)) with
  | error error =>
    refine .inr ?_
    simp [lockedStates, hcheck, commit]
  | ok =>
    cases hnext : st.nextNumber (layout.ofState s) with
    | error x =>
      refine .inr ?_
      simp [lockedStates, hcheck, hnext, commit, bind, Except.bind]
    | ok version =>
      cases hstate : intake.onState s with
      | error x =>
        refine .inr ?_
        simp [lockedStates, hcheck, hnext, replace, hstate, commit, bind, Except.bind]
      | ok stored =>
        refine .inl ⟨stored, version, ExpectedVersion.check_eq_ok.mp hcheck,
          Version.after_eq_ok.mp hnext, rfl, ?_⟩
        simp only [lockedStates, hcheck, hnext, replace, hstate, bind, Except.bind]
        rfl

/-- How far a slot has come. -/
def slotCount (slot : Option (S × UInt64)) : Nat := Version.count (slotVersion slot)

theorem lockedStates_advances (key : K) :
    (lockedStates layout intake latest).Advances (fun st => st.slot key) slotCount := by
  intro h st
  rcases h with n | ⟨i, reply⟩ | ⟨⟨s, expected⟩, reply⟩ | ⟨i, answer⟩
  · exact .inl rfl
  · exact .inl rfl
  · rcases write_lockedStates layout intake latest st s expected with
      ⟨stored, version, -, hversion, -, hwrite⟩ | ⟨hsame, -⟩
    · simp only [Happening.effect, hwrite]
      by_cases hkey : layout.ofState s = key
      · subst hkey
        refine .inr ?_
        rw [slot_putSlot_self]
        show _ < version.number.toNat
        rw [hversion]
        exact Nat.lt_succ_self _
      · exact .inl (slot_putSlot_ne st hkey stored version.number)
    · exact .inl (congrArg (fun st => slot st key) hsame)
  · exact .inl rfl

theorem slotCount_slot (st : Store K E S A) (key : K) :
    slotCount (st.slot key) = SequenceNumber.count ((st.slotNumber key).map (⟨·⟩)) := by
  rw [slotNumber]
  cases st.slot key <;> rfl

/-- **Writing a numbered state.** A state replaces what is in its slot where its number is the next
one; all else changes nothing and does not succeed. -/
theorem write_numberedStates (st : Store K E S A) (s : S) (sequence : SequenceNumber) :
    (∃ stored, sequence.number.toNat = slotCount (st.slot (layout.ofState s)) + 1 ∧
      intake.onState s = .ok stored ∧
      (numberedStates layout intake).write (s, sequence) st =
        (.ok (.ok (stored, sequence)), st.putSlot (layout.ofState s) stored sequence.number)) ∨
    ((numberedStates layout intake).write (s, sequence) st).2 = st ∧
      ∀ saved, ((numberedStates layout intake).write (s, sequence) st).1 ≠ .ok (.ok saved) := by
  rw [slotCount_slot]
  rcases hcheck : sequence.check ((st.slotNumber (layout.ofState s)).map (⟨·⟩)) with x | error | _
  · refine .inr ?_
    simp [numberedStates, hcheck, commit, bind, Except.bind]
  · refine .inr ?_
    simp [numberedStates, hcheck, commit, bind, Except.bind, pure, Except.pure]
  · cases hstate : intake.onState s with
    | error x =>
      refine .inr ?_
      simp [numberedStates, hcheck, replace, hstate, commit, bind, Except.bind]
    | ok stored =>
      refine .inl ⟨stored, SequenceNumber.check_eq_ok.mp hcheck, rfl, ?_⟩
      simp only [numberedStates, hcheck, replace, hstate, bind, Except.bind]
      rfl

theorem numberedStates_advances (key : K) :
    (numberedStates layout intake).Advances (fun st => st.slot key) slotCount := by
  intro h st
  rcases h with n | ⟨i, reply⟩ | ⟨⟨s, sequence⟩, reply⟩ | ⟨i, answer⟩
  · exact .inl rfl
  · exact .inl rfl
  · rcases write_numberedStates layout intake st s sequence with
      ⟨stored, hnumber, -, hwrite⟩ | ⟨hsame, -⟩
    · simp only [Happening.effect, hwrite]
      by_cases hkey : layout.ofState s = key
      · subst hkey
        refine .inr ?_
        rw [slot_putSlot_self]
        show _ < sequence.number.toNat
        rw [hnumber]
        exact Nat.lt_succ_self _
      · exact .inl (slot_putSlot_ne st hkey stored sequence.number)
    · exact .inl (congrArg (fun st => slot st key) hsame)
  · exact .inl rfl

end Store

end EventMachines
