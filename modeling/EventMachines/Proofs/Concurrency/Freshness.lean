import EventMachines.Proofs.Concurrency.Contract
import EventMachines.Proofs.Store.Growth
import EventMachines.Sample.Account

/-!
Whether what a task has read is still so. Every task sees the store in memory as it stood at the
time of a call; versions tell whether it has changed since.

* `stream_of_fetched`, `stream_of_consulted`: a history is still that of its stream where the stream
  has the version that was read with it, or that was read before it;
* `wrote_events`: all that an accepted write of a decided batch says about the stream;
* `happening_events`: every happening leaves the store as it was, or it is such a write;
* `slot_of_fetched`, `slot_of_consulted`, `happening_states`: the same for slots.
-/

namespace EventMachines

open EventSourced

variable {C S E R K A T : Type} [DecidableEq K]

/-- What a command decides belongs to the stream that it is decided on. -/
def Layout.Routes (layout : Layout K C E T) (d : Decider C S E R) : Prop :=
  ∀ c s e rest, d.decide c s = .ok (.ok (e :: rest)) → layout.ofEvent e = layout.ofInput c

theorem Account.routes : layout.Routes decider := by
  intro c s e rest h
  by_cases hsmall : c.2 ≤ 1000 <;> simp [decider, Decider.total, hsmall] at h
  rw [← h.1]
  rfl

/-! ## Streams -/

section

variable {d : Decider C S E R} {layout : Layout K C E T}
  {latest : C → Store K E T A → Option ExpectedVersion} {st : Store K E T A}
  {i : Nat} {earlier older : List (Nat × Happening (Exchange.lockedEvents C E))}
  {c : C} {history : List (E × Version)} {before : List (Happening (Exchange.lockedEvents C E))}

private theorem stream_at_fetch
    (hrecorded : Recorded (Store.lockedEvents layout .faithful latest) st
      ((i, .fetched c (.ok (.ok history))) :: earlier)) :
    (worldAfter (Store.lockedEvents layout .faithful latest) st earlier).stream
      (layout.ofInput c) = history :=
  Except.ok.inj (Except.ok.inj hrecorded.1)

/-- A fetched history is still that of its stream where the stream has its version. -/
theorem stream_of_fetched
    (hrecorded : Recorded (Store.lockedEvents layout .faithful latest) st earlier)
    (hpast : past i earlier = .fetched c (.ok (.ok history)) :: before)
    (hversion : lastVersion history =
      (worldAfter (Store.lockedEvents layout .faithful latest) st earlier).streamVersion
        (layout.ofInput c)) :
    (worldAfter (Store.lockedEvents layout .faithful latest) st earlier).stream
      (layout.ofInput c) = history := by
  obtain ⟨atFetch, hfetch, -⟩ := exists_of_past hpast
  have hstream := stream_at_fetch (hrecorded.of_suffix hfetch)
  refine Eq.trans (Eq.symm ?_) hstream
  refine view_eq_of_measure_eq
    (Store.lockedEvents_advances layout .faithful latest (layout.ofInput c))
    ((List.suffix_cons _ _).trans hfetch) ?_
  rw [hstream]
  exact congrArg Version.count hversion

/-- So it is where the stream has the version that it had before the fetch. -/
theorem stream_of_consulted
    (htruthful : ∀ c st v, latest c st = some v →
      v = .ofCurrent (st.streamVersion (layout.ofInput c)))
    (hrecorded : Recorded (Store.lockedEvents layout .faithful latest) st earlier)
    {v : ExpectedVersion}
    (hpast : past i earlier = .fetched c (.ok (.ok history)) :: .consulted c (some v) :: before)
    (hversion : v.toCurrent =
      (worldAfter (Store.lockedEvents layout .faithful latest) st earlier).streamVersion
        (layout.ofInput c)) :
    (worldAfter (Store.lockedEvents layout .faithful latest) st earlier).stream
      (layout.ofInput c) = history := by
  obtain ⟨atFetch, hfetch, hbefore⟩ := exists_of_past hpast
  obtain ⟨atConsult, hconsult, -⟩ := exists_of_past hbefore
  have hstream := stream_at_fetch (hrecorded.of_suffix hfetch)
  obtain ⟨hanswer, -⟩ := hrecorded.of_suffix
    (hconsult.trans ((List.suffix_cons _ _).trans hfetch))
  obtain rfl := htruthful c _ v hanswer
  rw [ExpectedVersion.toCurrent_ofCurrent] at hversion
  refine Eq.trans (Eq.symm ?_) hstream
  exact view_eq_between
    (Store.lockedEvents_advances layout .faithful latest (layout.ofInput c))
    ((List.suffix_cons _ _).trans hconsult) ((List.suffix_cons _ _).trans hfetch)
    (congrArg Version.count hversion)

/-- A batch that was decided and accepted is at the end of the stream it was decided on, which had
the expected version, and its events have the next ones. -/
theorem wrote_events (hroutes : layout.Routes d) {w : Store K E T A} {batch : List E}
    {expected : ExpectedVersion} {saved : List (E × Version)} (hdecides : d.Decides c history batch)
    (haccepted : ((Store.lockedEvents layout .faithful latest).write (batch, expected) w).1 =
      .ok (.ok saved)) :
    expected.toCurrent = w.streamVersion (layout.ofInput c) ∧
      (Intake.faithful : Intake E T A).take (w.streamVersion (layout.ofInput c)) batch = .ok saved ∧
      (Store.lockedEvents layout .faithful latest).write (batch, expected) w =
        (.ok (.ok saved), w.extend (layout.ofInput c) saved) := by
  obtain ⟨hne, s, -, hattempt⟩ := hdecides
  rcases Store.write_lockedEvents layout .faithful latest w batch expected with
    ⟨e, rest, added, rfl, hversion, htake, hwrite⟩ | ⟨-, hempty⟩
  · have hkey := hroutes c s e rest (Decider.attempt_eq_ok.mp hattempt).2
    rw [hkey] at hversion htake hwrite
    rw [hwrite] at haccepted
    obtain rfl := Except.ok.inj (Except.ok.inj haccepted)
    exact ⟨hversion, htake, hwrite⟩
  · exact absurd (hempty saved haccepted) hne

/-- Only an accepted write changes streams. -/
theorem happening_events {h : Happening (Exchange.lockedEvents C E)} {w : Store K E T A}
    (htruthful : h.Truthful (Store.lockedEvents layout .faithful latest) w)
    (hnone : h.save? = none) : h.effect (Store.lockedEvents layout .faithful latest) w = w := by
  rcases h with n | ⟨input, reply⟩ | ⟨⟨batch, expected⟩, reply⟩ | ⟨input, answer⟩
  · rfl
  · rfl
  · rcases Store.write_lockedEvents layout .faithful latest w batch expected with
      ⟨e, rest, added, rfl, -, -, hwrite⟩ | ⟨hsame, -⟩
    · simp only [Happening.Truthful] at htruthful
      rw [hwrite] at htruthful
      subst htruthful
      cases hnone
    · exact hsame
  · rfl

end

/-! ## Slots -/

section

variable {layout : Layout K C E T} {latest : C → Store K E T A → Option ExpectedVersion}
  {st : Store K E T A} {i : Nat} {earlier : List (Nat × Happening (Exchange.lockedStates C T))}
  {c : C} {stored : Option (T × Version)} {before : List (Happening (Exchange.lockedStates C T))}

/-- What a fetch makes of a slot. -/
def Store.held (slot : Option (T × UInt64)) : Option (T × Version) :=
  slot.map fun (s, number) => (s, ⟨number⟩)

theorem Store.map_held (slot : Option (T × UInt64)) :
    (Store.held slot).map (·.2) = Store.slotVersion slot := by
  cases slot <;> rfl

private theorem slot_at_fetch
    (hrecorded : Recorded (Store.lockedStates layout .faithful latest) st
      ((i, .fetched c (.ok (.ok stored))) :: earlier)) :
    Store.held ((worldAfter (Store.lockedStates layout .faithful latest) st earlier).slot
      (layout.ofInput c)) = stored :=
  Except.ok.inj (Except.ok.inj hrecorded.1)

/-- What was fetched is still in its slot exactly if the slot has its version. -/
theorem slot_of_fetched
    (hrecorded : Recorded (Store.lockedStates layout .faithful latest) st earlier)
    {atFetch : List (Nat × Happening (Exchange.lockedStates C T))}
    (hfetch : (i, .fetched c (.ok (.ok stored))) :: atFetch <:+ earlier) :
    Store.held ((worldAfter (Store.lockedStates layout .faithful latest) st earlier).slot
        (layout.ofInput c)) = stored ↔
      stored.map (·.2) = Store.slotVersion
        ((worldAfter (Store.lockedStates layout .faithful latest) st earlier).slot
          (layout.ofInput c)) := by
  have hslot := slot_at_fetch (hrecorded.of_suffix hfetch)
  constructor
  · rintro rfl
    exact Store.map_held _
  · intro hversion
    rw [← hslot, Store.map_held] at hversion
    rw [← hslot]
    refine congrArg Store.held (Eq.symm ?_)
    exact view_eq_of_measure_eq
      (Store.lockedStates_advances layout .faithful latest (layout.ofInput c))
      ((List.suffix_cons _ _).trans hfetch) (congrArg Version.count hversion)

/-- A slot is as it was when its version was asked for where it still has that version. -/
theorem slot_of_consulted
    (htruthful : ∀ c st v, latest c st = some v →
      v = .ofCurrent (Store.slotVersion (st.slot (layout.ofInput c))))
    (hrecorded : Recorded (Store.lockedStates layout .faithful latest) st earlier)
    {atConsult : List (Nat × Happening (Exchange.lockedStates C T))} {v : ExpectedVersion}
    (hconsult : (i, .consulted c (some v)) :: atConsult <:+ earlier)
    (hversion : v.toCurrent = Store.slotVersion
      ((worldAfter (Store.lockedStates layout .faithful latest) st earlier).slot
        (layout.ofInput c))) :
    (worldAfter (Store.lockedStates layout .faithful latest) st atConsult).slot
        (layout.ofInput c) =
      (worldAfter (Store.lockedStates layout .faithful latest) st earlier).slot
        (layout.ofInput c) := by
  obtain ⟨hanswer, -⟩ := hrecorded.of_suffix hconsult
  obtain rfl := htruthful c _ v hanswer
  rw [ExpectedVersion.toCurrent_ofCurrent] at hversion
  exact view_eq_of_measure_eq
    (Store.lockedStates_advances layout .faithful latest (layout.ofInput c))
    ((List.suffix_cons _ _).trans hconsult) (congrArg Version.count hversion)

/-- A state that was accepted is in its slot, which had the expected version. -/
theorem wrote_state {w : Store K E T A} {s : T} {expected : ExpectedVersion} {saved : T × Version}
    (haccepted : ((Store.lockedStates layout .faithful latest).write (s, expected) w).1 =
      .ok (.ok saved)) :
    expected.toCurrent = Store.slotVersion (w.slot (layout.ofState s)) ∧ saved.1 = s ∧
      (Store.lockedStates layout .faithful latest).write (s, expected) w =
        (.ok (.ok saved), w.putSlot (layout.ofState s) s saved.2.number) := by
  rcases Store.write_lockedStates layout .faithful latest w s expected with
    ⟨stored, version, hversion, -, hstored, hwrite⟩ | ⟨-, hrefused⟩
  · obtain rfl := Except.ok.inj hstored
    rw [hwrite] at haccepted
    obtain rfl := Except.ok.inj (Except.ok.inj haccepted)
    exact ⟨hversion, rfl, hwrite⟩
  · exact absurd haccepted (hrefused saved)

/-- Only an accepted write changes slots. -/
theorem happening_states {h : Happening (Exchange.lockedStates C T)} {w : Store K E T A}
    (htruthful : h.Truthful (Store.lockedStates layout .faithful latest) w)
    (hnone : h.save? = none) : h.effect (Store.lockedStates layout .faithful latest) w = w := by
  rcases h with n | ⟨input, reply⟩ | ⟨⟨s, expected⟩, reply⟩ | ⟨input, answer⟩
  · rfl
  · rfl
  · rcases Store.write_lockedStates layout .faithful latest w s expected with
      ⟨stored, version, -, -, -, hwrite⟩ | ⟨hsame, -⟩
    · simp only [Happening.Truthful] at htruthful
      rw [hwrite] at htruthful
      subst htruthful
      cases hnone
    · exact hsame
  · rfl

end

end EventMachines
