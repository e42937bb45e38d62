import EventMachines.Proofs.Concurrency.Freshness

/-!
Stores that compare and write in one step. What is stored under a key has a version, a write names
the version it expects, and the store accepts it exactly where that is the version it has; as long
as there are versions left, it fails in no other way. So the version of a key tells whether anything
was saved under it meanwhile.

* `version_effect`: what one happening makes of the version of a key;
* `unchanged_or_raised`: what happened between two times leaves the version as it was, or somebody
  saved under the key and the version went up;
* `since_fetched`: so it is since a fetch, which tells the version;
* `accepted_iff`: a write is accepted exactly at the version it expects;
* `Store.guardsEvents`, `Store.guardsStates`: the store in memory is such a store.
-/

namespace EventMachines

variable {P : Exchange} {C I S E K A ω : Type}

/-! ## Versions in what is exchanged -/

/-- The version that data was read at, and the one that a write expects. -/
structure Versioned (P : Exchange) where
  read : P.Read → Option Version
  expected : P.Write → ExpectedVersion

namespace Versioned

def events : Versioned (Exchange.lockedEvents C E) := ⟨EventSourced.lastVersion, Prod.snd⟩

def states : Versioned (Exchange.lockedStates I S) := ⟨Option.map Prod.snd, Prod.snd⟩

end Versioned

/-- A store that checks the expected version and writes in one step. A fetch finds the data of its
input with the version; a write is refused for its version exactly where that is not the one
expected, else it is accepted and the version goes up, unless the versions have run out. -/
structure Guard (b : Backend P ω) (V : Versioned P) (K : Type) where
  source : P.Input → K
  target : P.Write → Option K
  version : ω → K → Option Version
  /-- How many versions a write takes. -/
  takes : P.Write → Nat
  fetches : ∀ i w, ∃ data, b.fetch i w = (.ok (.ok data), w) ∧ V.read data = version w (source i)
  refuses : ∀ {d key w}, target d = some key → V.expected d ≠ .ofCurrent (version w key) →
    b.write d w = (.ok (.error (.versionMismatch (V.expected d) (version w key))), w)
  accepts : ∀ {d key w}, target d = some key → V.expected d = .ofCurrent (version w key) →
    (∃ ack w', b.write d w = (.ok (.ok ack), w') ∧
      Version.count (version w key) < Version.count (version w' key) ∧
      ∀ other, other ≠ key → version w' other = version w other) ∨
    UInt64.size ≤ Version.count (version w key) + takes d ∧ ∃ x, b.write d w = (.error x, w)
  elsewhere : ∀ {d w}, target d = none → ∀ key, version (b.write d w).2 key = version w key

/-- A store that may change by itself, but fails no write other than for its version: one is
accepted exactly where its key is at the version it expects, as long as there are versions left. -/
structure VersionCheck (b : Backend P ω) (V : Versioned P) (K : Type) where
  target : P.Write → Option K
  version : ω → K → Option Version
  takes : P.Write → Nat
  accepted_iff : ∀ {d key w}, target d = some key →
    Version.count (version w key) + takes d < UInt64.size →
    ((∃ ack, (b.write d w).1 = .ok (.ok ack)) ↔ V.expected d = .ofCurrent (version w key))

namespace Guard

variable {b : Backend P ω} {V : Versioned P} (guard : Guard b V K)

/-- Something was saved under the key. -/
def SavedUnder (key : K) (h : Happening P) : Prop :=
  ∃ d ack, h.save? = some (d, ack) ∧ guard.target d = some key

/-- The version of a key goes up exactly with what is saved under it. -/
theorem version_effect {h : Happening P} {w : ω} (htruthful : h.Truthful b w) (key : K) :
    guard.SavedUnder key h ∧
      Version.count (guard.version w key) < Version.count (guard.version (h.effect b w) key) ∨
    ¬ guard.SavedUnder key h ∧ guard.version (h.effect b w) key = guard.version w key := by
  have hunsaved : h.save? = none → ¬ guard.SavedUnder key h := by
    rintro hnone ⟨d, ack, hsave, -⟩
    rw [hnone] at hsave
    cases hsave
  rcases h with n | ⟨i, reply⟩ | ⟨d, reply⟩ | ⟨i, answer⟩
  · exact .inr ⟨hunsaved rfl, rfl⟩
  · obtain ⟨data, hfetch, -⟩ := guard.fetches i w
    exact .inr ⟨hunsaved rfl, by rw [Happening.effect, hfetch]⟩
  · obtain rfl : (b.write d w).1 = reply := htruthful
    rw [Happening.effect]
    rcases htarget : guard.target d with _ | target
    · refine .inr ⟨?_, guard.elsewhere htarget key⟩
      rintro ⟨d', ack, hsave, hkey⟩
      obtain ⟨rfl, -⟩ := Happening.wrote.inj (Happening.save?_eq_some.mp hsave)
      rw [htarget] at hkey
      cases hkey
    · by_cases hexpected : V.expected d = .ofCurrent (guard.version w target)
      · rcases guard.accepts htarget hexpected with ⟨ack, w', hwrite, hraised, hothers⟩ |
          ⟨-, x, hwrite⟩
        · rw [hwrite]
          by_cases hkey : key = target
          · subst hkey
            exact .inl ⟨⟨d, ack, rfl, htarget⟩, hraised⟩
          · refine .inr ⟨?_, hothers key hkey⟩
            rintro ⟨d', ack', hsave, hkey'⟩
            obtain ⟨rfl, -⟩ := Happening.wrote.inj (Happening.save?_eq_some.mp hsave)
            rw [htarget] at hkey'
            exact hkey (Option.some.inj hkey').symm
        · rw [hwrite] at hunsaved ⊢
          exact .inr ⟨hunsaved rfl, rfl⟩
      · have hwrite := guard.refuses htarget hexpected
        rw [hwrite] at hunsaved ⊢
        exact .inr ⟨hunsaved rfl, rfl⟩
  · exact .inr ⟨hunsaved rfl, rfl⟩

/-- Between two times either nothing was saved under the key, and it has the version it had, or its
version went up. -/
theorem unchanged_or_raised {w : ω} {between before : List (Nat × Happening P)}
    (hrecorded : Recorded b w (between ++ before)) (key : K) :
    (∀ entry ∈ between, ¬ guard.SavedUnder key entry.2) ∧
      guard.version (worldAfter b w (between ++ before)) key =
        guard.version (worldAfter b w before) key ∨
    (∃ entry ∈ between, guard.SavedUnder key entry.2) ∧
      Version.count (guard.version (worldAfter b w before) key) <
        Version.count (guard.version (worldAfter b w (between ++ before)) key) := by
  induction between with
  | nil => exact .inl ⟨by simp, rfl⟩
  | cons entry between ih =>
    obtain ⟨htruthful, hearlier⟩ :
      entry.2.Truthful b (worldAfter b w (between ++ before)) ∧ Recorded b w (between ++ before) :=
      hrecorded
    show _ ∧ guard.version (entry.2.effect b (worldAfter b w (between ++ before))) key = _ ∨ _ ∧
      _ < Version.count (guard.version (entry.2.effect b (worldAfter b w (between ++ before))) key)
    rcases guard.version_effect htruthful key with ⟨hunder, hup⟩ | ⟨hnot, hkept⟩
    · refine .inr ⟨⟨entry, List.mem_cons_self, hunder⟩, ?_⟩
      rcases ih hearlier with ⟨-, hsame⟩ | ⟨-, hraised⟩
      · rwa [hsame] at hup
      · exact Nat.lt_trans hraised hup
    · rw [hkept]
      rcases ih hearlier with ⟨hnone, hsame⟩ | ⟨⟨saved, hmem, hsaved⟩, hraised⟩
      · exact .inl ⟨List.forall_mem_cons.mpr ⟨hnot, hnone⟩, hsame⟩
      · exact .inr ⟨⟨saved, List.mem_cons_of_mem _ hmem, hsaved⟩, hraised⟩

/-- What was fetched has the version that its key had then. Either nothing was saved under the key
since, and it has that version still, or its version went up. -/
theorem since_fetched {w : ω} {between before : List (Nat × Happening P)} {i : Nat}
    {input : P.Input} {data : P.Read}
    (hrecorded : Recorded b w (between ++ (i, .fetched input (.ok (.ok data))) :: before)) :
    let now := worldAfter b w (between ++ (i, .fetched input (.ok (.ok data))) :: before)
    (∀ entry ∈ between, ¬ guard.SavedUnder (guard.source input) entry.2) ∧
      guard.version now (guard.source input) = V.read data ∨
    (∃ entry ∈ between, guard.SavedUnder (guard.source input) entry.2) ∧
      Version.count (V.read data) < Version.count (guard.version now (guard.source input)) := by
  have hfetch : Recorded b w ((i, .fetched input (.ok (.ok data))) :: before) :=
    hrecorded.of_suffix (List.suffix_append _ _)
  obtain ⟨found, hreply, hread⟩ := guard.fetches input (worldAfter b w before)
  obtain rfl : found = data :=
    Except.ok.inj (Except.ok.inj ((congrArg Prod.fst hreply).symm.trans hfetch.1))
  have hsame : worldAfter b w ((i, .fetched input (.ok (.ok found))) :: before) =
      worldAfter b w before := congrArg Prod.snd hreply
  have hsince := guard.unchanged_or_raised hrecorded (guard.source input)
  rw [hsame, ← hread] at hsince
  exact hsince

/-- As long as there are versions left, a write is accepted exactly at the version it expects. -/
theorem accepted_iff {d : P.Write} {key : K} {w : ω} (htarget : guard.target d = some key)
    (hroom : Version.count (guard.version w key) + guard.takes d < UInt64.size) :
    (∃ ack, (b.write d w).1 = .ok (.ok ack)) ↔ V.expected d = .ofCurrent (guard.version w key) := by
  constructor
  · rintro ⟨ack, hack⟩
    refine Classical.byContradiction fun hexpected => ?_
    rw [guard.refuses htarget hexpected] at hack
    cases hack
  · intro hexpected
    rcases guard.accepts htarget hexpected with ⟨ack, w', hwrite, -⟩ | ⟨hfull, -⟩
    · exact ⟨ack, congrArg Prod.fst hwrite⟩
    · omega

def check : VersionCheck b V K := ⟨guard.target, guard.version, guard.takes, guard.accepted_iff⟩

end Guard

/-! ## The store in memory -/

namespace ExpectedVersion

theorem ofCurrent_inj {one other : Option Version} :
    ofCurrent one = ofCurrent other ↔ one = other := by
  refine ⟨fun h => ?_, congrArg ofCurrent⟩
  rw [← toCurrent_ofCurrent one, h, toCurrent_ofCurrent]

theorem check_of_eq {expected : ExpectedVersion} {actual : Option Version}
    (h : expected = .ofCurrent actual) : expected.check actual = .ok () := by
  rw [check_eq_ok, h, toCurrent_ofCurrent]

theorem check_of_ne {expected : ExpectedVersion} {actual : Option Version}
    (h : expected ≠ .ofCurrent actual) :
    expected.check actual = .error (.versionMismatch expected actual) := by
  have hcurrent : expected.toCurrent ≠ actual := by
    rintro rfl
    exact h (ofCurrent_toCurrent expected).symm
  rw [check, if_neg hcurrent]

end ExpectedVersion

theorem Version.exists_after {current : Option Version}
    (h : Version.count current + 1 < UInt64.size) : ∃ v, Version.after current = .ok v := by
  refine ⟨⟨UInt64.ofNat (Version.count current + 1)⟩, Version.after_eq_ok.mpr ?_⟩
  exact UInt64.toNat_ofNat_of_lt' h

/-- A batch is stored in full where there are versions left for it. -/
theorem Intake.exists_take {current : Option Version} {events : List E}
    (h : Version.count current + events.length < UInt64.size) :
    ∃ added, (faithful : Intake E S A).take current events = .ok added := by
  induction events generalizing current with
  | nil => exact ⟨[], rfl⟩
  | cons e rest ih =>
    rw [List.length_cons] at h
    have hone : Version.count current + 1 < UInt64.size := by omega
    obtain ⟨v, hv⟩ := Version.exists_after hone
    have hcount : Version.count (some v) = Version.count current + 1 := Version.after_eq_ok.mp hv
    have hrest : Version.count (some v) + rest.length < UInt64.size := by omega
    obtain ⟨more, hmore⟩ := ih hrest
    refine ⟨(e, v) :: more, ?_⟩
    simp only [take, Checked.bind_eq_ok]
    exact ⟨v, hv, e, rfl, more, hmore, rfl⟩

namespace Store

variable [DecidableEq K] (layout : Layout K I E S)
  (latest : I → Store K E S A → Option ExpectedVersion)

theorem streamVersion_extend_self (st : Store K E S A) (key : K) (added : List (E × Version)) :
    (st.extend key added).streamVersion key =
      EventSourced.lastVersion (st.stream key ++ added) := by
  rw [streamVersion, stream_extend_self]
  rfl

theorem streamVersion_extend_ne (st : Store K E S A) {key other : K} (hne : key ≠ other)
    (added : List (E × Version)) :
    (st.extend key added).streamVersion other = st.streamVersion other := by
  rw [streamVersion, stream_extend_ne st hne]
  rfl

section

variable {layout latest} {key : K} {st : Store K E S A} {d : List E × ExpectedVersion}

theorem lockedEvents_refuses (htarget : d.1.head?.map layout.ofEvent = some key)
    (hexpected : d.2 ≠ .ofCurrent (st.streamVersion key)) :
    (lockedEvents layout .faithful latest).write d st =
      (.ok (.error (.versionMismatch d.2 (st.streamVersion key))), st) := by
  obtain ⟨batch, expected⟩ := d
  obtain ⟨e, hhead, rfl⟩ := Option.map_eq_some_iff.mp htarget
  obtain ⟨rest, rfl⟩ := List.head?_eq_some_iff.mp hhead
  have hcheck : expected.check (st.streamVersion (layout.ofEvent e)) = _ :=
    ExpectedVersion.check_of_ne hexpected
  simp only [lockedEvents, hcheck]
  rfl

theorem lockedEvents_accepts (htarget : d.1.head?.map layout.ofEvent = some key)
    (hexpected : d.2 = .ofCurrent (st.streamVersion key)) :
    (∃ ack st', (lockedEvents layout .faithful latest).write d st = (.ok (.ok ack), st') ∧
      Version.count (st.streamVersion key) < Version.count (st'.streamVersion key) ∧
      ∀ other, other ≠ key → st'.streamVersion other = st.streamVersion other) ∨
    UInt64.size ≤ Version.count (st.streamVersion key) + d.1.length ∧
      ∃ x, (lockedEvents layout .faithful latest).write d st = (.error x, st) := by
  obtain ⟨batch, expected⟩ := d
  obtain ⟨e, hhead, rfl⟩ := Option.map_eq_some_iff.mp htarget
  obtain ⟨rest, rfl⟩ := List.head?_eq_some_iff.mp hhead
  have hcheck : expected.check (st.streamVersion (layout.ofEvent e)) = _ :=
    ExpectedVersion.check_of_eq hexpected
  rcases htake : (Intake.faithful : Intake E S A).take (st.streamVersion (layout.ofEvent e))
    (e :: rest) with x | added
  · refine .inr ⟨?_, x, ?_⟩
    · refine Nat.le_of_not_lt fun hroom => ?_
      obtain ⟨added, hadded⟩ := Intake.exists_take (S := S) (A := A) hroom
      have hnone := htake.symm.trans hadded
      cases hnone
    · simp only [lockedEvents, hcheck, append, htake, bind, Except.bind]
      rfl
  · refine .inl ⟨added, st.extend (layout.ofEvent e) added, ?_, ?_, ?_⟩
    · simp only [lockedEvents, hcheck, append, htake, bind, Except.bind]
      rfl
    · have hcount := (Intake.take_spec _ htake).2 (st.stream (layout.ofEvent e)) rfl
      rw [streamVersion_extend_self, hcount, List.length_cons]
      exact Nat.lt_add_of_pos_right (Nat.succ_pos _)
    · intro other hother
      exact streamVersion_extend_ne st (Ne.symm hother) added

theorem lockedEvents_elsewhere (htarget : d.1.head?.map layout.ofEvent = none) (key : K) :
    ((lockedEvents layout .faithful latest).write d st).2.streamVersion key =
      st.streamVersion key := by
  obtain ⟨_ | ⟨e, rest⟩, expected⟩ := d
  · rfl
  · cases htarget

end

/-- The streams. A batch without events belongs to none of them. -/
def guardsEvents : Guard (lockedEvents layout .faithful latest) .events K where
  source := layout.ofInput
  target d := d.1.head?.map layout.ofEvent
  version st key := st.streamVersion key
  takes d := d.1.length
  fetches _ _ := ⟨_, rfl, rfl⟩
  refuses := lockedEvents_refuses
  accepts := lockedEvents_accepts
  elsewhere := lockedEvents_elsewhere

section

variable {layout latest} {key : K} {st : Store K E S A} {d : S × ExpectedVersion}

theorem lockedStates_refuses (htarget : some (layout.ofState d.1) = some key)
    (hexpected : d.2 ≠ .ofCurrent (slotVersion (st.slot key))) :
    (lockedStates layout .faithful latest).write d st =
      (.ok (.error (.versionMismatch d.2 (slotVersion (st.slot key)))), st) := by
  obtain ⟨s, expected⟩ := d
  obtain rfl := Option.some.inj htarget
  rw [slotVersion_slot] at hexpected ⊢
  have hcheck : expected.check ((st.slotNumber (layout.ofState s)).map (⟨·⟩)) = _ :=
    ExpectedVersion.check_of_ne hexpected
  simp only [lockedStates, hcheck]
  rfl

theorem lockedStates_accepts (htarget : some (layout.ofState d.1) = some key)
    (hexpected : d.2 = .ofCurrent (slotVersion (st.slot key))) :
    (∃ ack st', (lockedStates layout .faithful latest).write d st = (.ok (.ok ack), st') ∧
      Version.count (slotVersion (st.slot key)) < Version.count (slotVersion (st'.slot key)) ∧
      ∀ other, other ≠ key → slotVersion (st'.slot other) = slotVersion (st.slot other)) ∨
    UInt64.size ≤ Version.count (slotVersion (st.slot key)) + 1 ∧
      ∃ x, (lockedStates layout .faithful latest).write d st = (.error x, st) := by
  obtain ⟨s, expected⟩ := d
  obtain rfl := Option.some.inj htarget
  rw [slotVersion_slot] at hexpected
  have hcheck : expected.check ((st.slotNumber (layout.ofState s)).map (⟨·⟩)) = _ :=
    ExpectedVersion.check_of_eq hexpected
  rcases hnext : st.nextNumber (layout.ofState s) with x | version
  · refine .inr ⟨?_, x, ?_⟩
    · refine Nat.le_of_not_lt fun hroom => ?_
      obtain ⟨v, hv⟩ := Version.exists_after hroom
      rw [slotVersion_slot] at hv
      have hnone := hnext.symm.trans hv
      cases hnone
    · simp only [lockedStates, hcheck, hnext, bind, Except.bind]
      rfl
  · refine .inl ⟨(s, version), st.putSlot (layout.ofState s) s version.number, ?_, ?_, ?_⟩
    · simp only [lockedStates, hcheck, hnext, bind, Except.bind]
      rfl
    · have hcount := Version.after_eq_ok.mp hnext
      rw [slot_putSlot_self, slotVersion_slot]
      show _ < version.number.toNat
      rw [hcount]
      exact Nat.lt_succ_self _
    · intro other hother
      rw [slot_putSlot_ne st (Ne.symm hother)]

end

/-- The slots. -/
def guardsStates : Guard (lockedStates layout .faithful latest) .states K where
  source := layout.ofInput
  target d := some (layout.ofState d.1)
  version st key := slotVersion (st.slot key)
  takes _ := 1
  fetches _ _ := ⟨_, rfl, map_held _⟩
  refuses := lockedStates_refuses
  accepts := lockedStates_accepts
  elsewhere htarget _ := absurd htarget (Option.some_ne_none _)

end Store

end EventMachines
