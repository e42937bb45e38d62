import EventMachines.Proofs.Concurrency.Guards
import EventMachines.Proofs.Concurrency.Serialization
import EventMachines.Proofs.Concurrency.Slots
import EventMachines.Store.Failures

/-!
Saves that build on what is stored. A store keeps data with a version and accepts a write only at
the version that the data has. An engine bases what it writes on data that it fetched, and names the
version of that data. So whatever is accepted is based on the data as it stands right before, no
matter how long ago its call fetched.

* `Revision.Atomic`: such a store, which may fail a call for any other reason;
* `Engine.WritesBased`: such an engine; the four locking engines are (`locking_based`,
  `lockingOrchestrating_based`, `Replaces.based`);
* `Atomic.step_based`: a step leaves the data as it is, or revises it by what was based on it;
* `Atomic.run_based`: so what every revision keeps, a run keeps;
* `lockedEvents_atomic`, `lockedStates_atomic`, `Atomic.failing`: the store in memory with a single
  key, also with failures planned for it.
-/

namespace EventMachines

variable {P : Exchange} {C I S E R K A ε Answer ω : Type}

/-! ## Stores -/

/-- What a write makes of the data, and which writes make nothing of it. -/
structure Revision (P : Exchange) extends Versioned P where
  makes : P.Write → P.Read → P.Read → Prop
  isVoid : P.Write → Prop

namespace Revision

/-- A batch is added to the history. -/
def events : Revision (Exchange.lockedEvents C E) where
  toVersioned := .events
  makes d before after := ∃ added, after = before ++ added ∧ added.map (·.1) = d.1
  isVoid d := d.1 = []

/-- A state takes the place of the one before. -/
def states : Revision (Exchange.lockedStates I S) where
  toVersioned := .states
  makes d _ after := ∃ version, after = some (d.1, version)
  isVoid _ := False

/-- The store keeps this data. It checks the expected version and writes in one step: a write is
accepted only at the version that the data has, and then the version goes up. Nothing else changes
the data, and a call may fail for any reason. -/
structure Atomic (V : Revision P) (b : Backend P ω) (stored : ω → P.Read) : Prop where
  fetch : ∀ i w, stored (b.fetch i w).2 = stored w
  fetched : ∀ {i w data}, (b.fetch i w).1 = .ok (.ok data) → data = stored w
  accepted : ∀ {d w ack}, ¬ V.isVoid d → (b.write d w).1 = .ok (.ok ack) →
    V.expected d = .ofCurrent (V.read (stored w)) ∧ V.makes d (stored w) (stored (b.write d w).2) ∧
      Version.count (V.read (stored w)) < Version.count (V.read (stored (b.write d w).2))
  unwritten : ∀ {d w}, V.isVoid d ∨ (∀ ack, (b.write d w).1 ≠ .ok (.ok ack)) →
    stored (b.write d w).2 = stored w

namespace Atomic

variable {V : Revision P} {b : Backend P ω} {stored : ω → P.Read} (hb : V.Atomic b stored) {w : ω}
include hb

theorem rests (h : Happening P) (w : ω) (htruthful : h.Truthful b w) (hnone : h.save? = none) :
    stored (h.effect b w) = stored w := by
  rcases h with n | ⟨i, reply⟩ | ⟨d, reply⟩ | ⟨i, answer⟩
  · rfl
  · exact hb.fetch i w
  · refine hb.unwritten (.inr fun ack hack => ?_)
    obtain rfl : (b.write d w).1 = reply := htruthful
    rw [hack] at hnone
    cases hnone
  · rfl

theorem advances : b.Advances stored fun data => Version.count (V.read data) := by
  rintro (n | ⟨i, reply⟩ | ⟨d, reply⟩ | ⟨i, answer⟩) w
  · exact .inl rfl
  · exact .inl (hb.fetch i w)
  · by_cases hvoid : V.isVoid d
    · exact .inl (hb.unwritten (.inl hvoid))
    · rcases hreply : (b.write d w).1 with x | error | ack
      · exact .inl (hb.unwritten (.inr (by simp [hreply])))
      · exact .inl (hb.unwritten (.inr (by simp [hreply])))
      · exact .inr (hb.accepted hvoid hreply).2.2
  · exact .inl rfl

/-- Data that was fetched is still stored where what is stored has its version. -/
theorem stored_of_fetched {transcript : List (Nat × Happening P)}
    (hrecorded : Recorded b w transcript) {i : Nat} {c : P.Input} {data : P.Read}
    (hmem : (i, .fetched c (.ok (.ok data))) ∈ transcript)
    (hversion : V.read data = V.read (stored (worldAfter b w transcript))) :
    stored (worldAfter b w transcript) = data := by
  obtain ⟨later, earlier, rfl⟩ := List.append_of_mem hmem
  obtain ⟨htruthful, -⟩ := hrecorded.of_suffix (List.suffix_append later _)
  have hdata : data = stored (worldAfter b w earlier) := hb.fetched htruthful
  rw [hdata] at hversion ⊢
  exact (view_eq_of_measure_eq hb.advances
    ((List.suffix_cons _ _).trans (List.suffix_append later _))
    (congrArg Version.count hversion)).symm

/-- Failures planned for a store leave it what it is. -/
theorem failing (plan : List PlannedFailure) (writing : CallKind) :
    V.Atomic (b.failing plan writing) fun w => stored w.1 where
  fetch i := by
    rintro ⟨w, tally⟩
    simp only [Backend.failing, withPlan]
    split
    · rfl
    · exact hb.fetch i w
  fetched {i w data} h := by
    obtain ⟨w, tally⟩ := w
    simp only [Backend.failing, withPlan] at h
    split at h
    · cases h
    · exact hb.fetched h
  accepted {d w ack} hnot h := by
    obtain ⟨w, tally⟩ := w
    simp only [Backend.failing, withPlan] at h ⊢
    split at h
    · cases h
    · exact hb.accepted hnot h
  unwritten {d w} h := by
    obtain ⟨w, tally⟩ := w
    simp only [Backend.failing, withPlan] at h ⊢
    split at h
    · rfl
    · exact hb.unwritten h

end Atomic

end Revision

/-! ## Engines -/

/-- What the engine writes is based on data that it fetched before, and names the version of that
data, or one that it was told. -/
def Engine.WritesBased (e : Engine P ε P.Input Answer) (V : Versioned P)
    (based : P.Input → P.Read → P.Write → Prop) : Prop :=
  ∃ k : Protocol e, k.Kept ∧ ∀ i d past, k.may i (.write d) past → ∃ c data asked,
    .fetched c (.ok (.ok data)) ∈ past ∧ (asked = none ∨ .consulted c asked ∈ past) ∧
    V.expected d = asked.getD (.ofCurrent (V.read data)) ∧ based c data d

theorem EventSourced.locking_based (d : Decider C S E R) :
    (locking d).WritesBased .events fun c history write => d.Decides c history write.1 := by
  refine ⟨_, locking_kept d, ?_⟩
  rintro c ⟨events, expected⟩ past ⟨history, rfl, hdecides, rfl⟩
  exact ⟨c, history, none, List.mem_cons_self, .inl rfl, rfl, hdecides⟩

theorem EventSourced.lockingOrchestrating_based (d : Decider C S E R) (g : Saga E C)
    (limit : DepthLimit) :
    (lockingOrchestrating d g limit).WritesBased .events
      fun c history write => d.Decides c history write.1 := by
  refine ⟨_, lockingOrchestrating_kept d g limit, ?_⟩
  rintro root ⟨events, expected⟩ past ⟨c, history, older, asked, rfl, hdecides, rfl, hasked⟩
  refine ⟨c, history, asked, List.mem_cons_self, ?_, rfl, hdecides⟩
  cases asked with
  | none => exact .inl rfl
  | some v =>
    obtain ⟨before, rfl⟩ := hasked v rfl
    exact .inr (List.mem_cons_of_mem _ List.mem_cons_self)

theorem Replaces.based {e : Engine (Exchange.lockedStates I S) ε I (S × Version)}
    {initial : Checked S} {leads : I → S → S → Prop} (he : Replaces e initial leads) :
    e.WritesBased .states fun i stored write =>
      ∃ s version, storedOr initial stored = .ok (s, version) ∧ leads i s write.1 := by
  obtain ⟨k, hk, hmay⟩ := he.informed
  refine ⟨k, hk, ?_⟩
  rintro i ⟨s', expected⟩ past hknown
  obtain ⟨stored, s, version, asked, hpast, hstored, hleads, rfl⟩ := hmay _ _ _ _ hknown
  have hread : Versioned.states.read stored = version := storedOr_token hstored
  refine ⟨i, stored, asked, ?_, ?_, by rw [hread]; rfl, s, version, hstored, hleads⟩
  · rcases hpast with ⟨rfl, -⟩ | rfl <;> simp
  · rcases hpast with ⟨-, hnone⟩ | rfl
    · exact .inl hnone
    · exact .inr List.mem_cons_self

/-! ## Calls at the same time -/

section

variable {V : Revision P} {b : Backend P ω} {stored : ω → P.Read} (hb : V.Atomic b stored)
  (hunasked : ∀ i w, b.consult i w = none) {e : Engine P ε P.Input Answer}
  {based : P.Input → P.Read → P.Write → Prop} (he : e.WritesBased V.toVersioned based)
  (hvoid : ∀ c data d, based c data d → ¬ V.isVoid d) {items : List (Checked P.Input)} {w : ω}
include hb hunasked he hvoid

/-- **Based on what is stored.** A step of any call leaves the data as it is, or revises it by what
was based on exactly that data. -/
theorem Revision.Atomic.step_based (schedule : List Nat) (i : Nat) :
    let s := (System.start e items w).run b schedule
    s.RestsAt b stored i ∨ ∃ c d, based c (stored s.world) d ∧
      V.makes d (stored s.world) (stored (s.step b i).world) := by
  intro s
  obtain ⟨k, hk, hmay⟩ := he
  refine (System.rests_or_saves hk stored hb.rests items w schedule i).imp_right ?_
  rintro ⟨d, ack, w', ⟨hwrite, hafter, -⟩, hworld, ⟨-, hrecorded⟩, hallows⟩
  obtain ⟨input, -, hknown⟩ := hallows i _ _ _ List.suffix_rfl rfl
  obtain ⟨c, data, asked, hfetched, hasked, hexpected, hbased⟩ := hmay _ _ _ hknown
  have hnone : asked = none := by
    rcases hasked with hnone | hconsulted
    · exact hnone
    · obtain ⟨later, earlier, hsplit⟩ := List.append_of_mem (mem_past.mp hconsulted).1
      obtain ⟨hanswer, -⟩ := hrecorded.of_suffix ⟨later, hsplit.symm⟩
      exact hanswer.symm.trans (hunasked c _)
  rw [hnone, Option.getD_none] at hexpected
  obtain ⟨hcurrent, hmakes, -⟩ := hb.accepted (hvoid c data d hbased) (congrArg Prod.fst hwrite)
  have hversion := congrArg ExpectedVersion.toCurrent (hexpected.symm.trans hcurrent)
  rw [ExpectedVersion.toCurrent_ofCurrent, ExpectedVersion.toCurrent_ofCurrent, hworld] at hversion
  have hstored := hb.stored_of_fetched hrecorded (mem_past.mp hfetched).1 hversion
  rw [← hworld] at hstored
  rw [hwrite] at hmakes
  refine ⟨c, d, ?_, ?_⟩
  · rwa [hstored]
  · rwa [hafter]

/-- What every revision by based data keeps, a run keeps from the time that it holds. -/
theorem Revision.Atomic.run_based {J : P.Read → Prop}
    (hstep : ∀ c d before after, J before → based c before d → V.makes d before after → J after)
    (schedule later : List Nat) :
    let s := (System.start e items w).run b schedule
    J (stored s.world) → J (stored (s.run b later).world) := by
  refine System.run_from (I := fun now : System e ω => J (stored now.world)) ?_ schedule later
  intro schedule i hnow
  rcases hb.step_based hunasked he hvoid schedule i with ⟨hsame, -⟩ | ⟨c, d, hbased, hmakes⟩
  · rwa [hsame]
  · exact hstep c d _ _ hnow hbased hmakes

/-- Where nothing can be based on the data, nothing is saved any more. -/
theorem Revision.Atomic.run_ended (schedule later : List Nat) :
    let s := (System.start e items w).run b schedule
    (∀ c d, ¬ based c (stored s.world) d) →
      stored (s.run b later).world = stored s.world ∧
      saves (s.run b later).transcript = saves s.transcript := by
  intro s hended
  refine System.run_from (I := fun now : System e ω => stored now.world = stored s.world ∧
    saves now.transcript = saves s.transcript) ?_ schedule later ⟨rfl, rfl⟩
  rintro schedule i ⟨hsame, hsaves⟩
  rcases hb.step_based hunasked he hvoid schedule i with ⟨hrests, hsaved⟩ | ⟨c, d, hbased, -⟩
  · exact ⟨hrests.trans hsame, hsaved.trans hsaves⟩
  · rw [hsame] at hbased
    exact absurd hbased (hended c d)

end

/-! ## The store in memory -/

namespace Store

variable (layout : Layout Unit I E S) (latest : I → Store Unit E S A → Option ExpectedVersion)

theorem lockedEvents_atomic :
    Revision.events.Atomic (lockedEvents layout .faithful latest) fun st => st.stream () where
  fetch _ _ := rfl
  fetched h := (Except.ok.inj (Except.ok.inj h)).symm
  accepted := by
    rintro ⟨batch, expected⟩ st saved hne hreply
    rcases write_lockedEvents layout .faithful latest st batch expected with
      ⟨e, rest, added, rfl, hversion, htake, hwrite⟩ | ⟨-, hempty⟩
    · rw [hwrite]
      have hstream : (st.extend () added).stream () = st.stream () ++ added :=
        stream_extend_self st () added
      refine ⟨?_, ⟨added, hstream, Intake.faithful_take htake⟩, ?_⟩
      · rw [← ExpectedVersion.ofCurrent_toCurrent expected, hversion]
        rfl
      · show _ < Version.count (EventSourced.lastVersion ((st.extend () added).stream ()))
        rw [hstream, (Intake.take_spec _ htake).2 (st.stream ()) rfl, List.length_cons]
        exact Nat.lt_add_of_pos_right (Nat.succ_pos _)
    · exact absurd (hempty saved hreply) hne
  unwritten := by
    rintro ⟨batch, expected⟩ st hvoid
    rcases write_lockedEvents layout .faithful latest st batch expected with
      ⟨e, rest, added, rfl, -, -, hwrite⟩ | ⟨hsame, -⟩
    · rcases hvoid with hempty | hrefused
      · cases hempty
      · exact absurd (congrArg Prod.fst hwrite) (hrefused _)
    · exact congrArg (fun st => st.stream ()) hsame

theorem lockedStates_atomic :
    Revision.states.Atomic (lockedStates layout .faithful latest) fun st => held (st.slot ()) where
  fetch _ _ := rfl
  fetched h := (Except.ok.inj (Except.ok.inj h)).symm
  accepted := by
    rintro ⟨s, expected⟩ st saved - hreply
    rcases write_lockedStates layout .faithful latest st s expected with
      ⟨stored, version, hversion, hcount, hstate, hwrite⟩ | ⟨-, hrefused⟩
    · obtain rfl := Except.ok.inj hstate
      rw [hwrite]
      have hslot : held ((st.putSlot () s version.number).slot ()) = some (s, version) := by
        rw [slot_putSlot_self]
        rfl
      refine ⟨?_, ⟨version, hslot⟩, ?_⟩
      · rw [← ExpectedVersion.ofCurrent_toCurrent expected, hversion]
        exact congrArg ExpectedVersion.ofCurrent (map_held _).symm
      · show Version.count ((held (st.slot ())).map (·.2)) <
          Version.count ((held ((st.putSlot () s version.number).slot ())).map (·.2))
        rw [hslot, map_held]
        show _ < version.number.toNat
        rw [hcount]
        exact Nat.lt_succ_self _
    · exact absurd hreply (hrefused saved)
  unwritten := by
    rintro ⟨s, expected⟩ st hvoid
    rcases write_lockedStates layout .faithful latest st s expected with
      ⟨stored, version, -, -, -, hwrite⟩ | ⟨hsame, -⟩
    · rcases hvoid with hfalse | hrefused
      · exact hfalse.elim
      · exact absurd (congrArg Prod.fst hwrite) (hrefused _)
    · exact congrArg (fun st => held (st.slot ())) hsame

end Store

end EventMachines
