import EventMachines.Proofs.Execution.Independence
import EventMachines.Proofs.Execution.Once
import EventMachines.Sample.Account

/-!
Deliveries and their numbers, over the whole range of numbers. A delivery is due if its number is,
as a natural number, one above the one stored. The number after the stored one is looked for before
anything is compared, and there is none after the largest: so everything that is delivered on top of
the largest number breaks off, a replay too, where it should have been refused.

* `check_fault`, `check_refuses`: the check, for every pair of numbers;
* `delivered_updateNumbered`: what becomes of a delivery, for whatever was fetched;
* `broken_iff`: with a machine that answers and a store that does not break off, a delivery breaks
  off on the largest number only;
* `deliveries_by_number`: so it is with both engines that deduplicate.
-/

namespace EventMachines

open Program hiding bind

variable {C I S S' E E' R ε α ω ω' : Type}

/-! ## The check -/

theorem checkedSucc_eq_error {n : UInt64} {x : Fault} :
    checkedSucc n = .error x ↔ x = .addOverflow ∧ n.toNat + 1 = UInt64.size := by
  have hlt : n.toNat < 18446744073709551616 := n.toNat_lt
  have hsize : UInt64.size = 18446744073709551616 := rfl
  unfold checkedSucc
  split
  next h =>
    have hne : n.toNat + 1 ≠ UInt64.size := by omega
    simp [hne]
  next h =>
    have heq : n.toNat + 1 = UInt64.size := by omega
    simp [heq, eq_comm]

namespace SequenceNumber

variable {s next : SequenceNumber} {last : Option SequenceNumber} {x : Fault}

theorem successor_eq_error :
    successor last = .error x ↔ x = .addOverflow ∧ count last + 1 = UInt64.size := by
  cases last with
  | none => simp [successor, count, UInt64.size]
  | some t =>
    rw [count, ← checkedSucc_eq_error, successor]
    rcases checkedSucc t.number with y | n <;> simp [bind, Except.bind, pure, Except.pure]

/-- The check breaks off on the largest number, whatever was delivered. -/
theorem check_fault :
    s.check last = .error x ↔ x = .addOverflow ∧ count last + 1 = UInt64.size := by
  rw [← successor_eq_error]
  rcases h : successor last with y | next
  · simp [check, follows, h, bind, Except.bind]
  · simp [check_of_successor h]

theorem count_lt (last : Option SequenceNumber) : count last < UInt64.size := by
  cases last with
  | none => exact Nat.lt_of_sub_eq_succ rfl
  | some t => exact t.number.toNat_lt

/-- Every number but the largest has a next one. -/
theorem exists_next (h : count last + 1 ≠ UInt64.size) :
    ∃ next : SequenceNumber, next.number.toNat = count last + 1 := by
  have hlt := count_lt last
  obtain ⟨next, hnext⟩ := exists_successor (show count last + 1 < UInt64.size by omega)
  exact ⟨next, successor_eq_ok.mp hnext⟩

/-- Any other number than the next one is refused. -/
theorem check_refuses (hnext : next.number.toNat = count last + 1) (hne : s ≠ next) :
    s.check last = .ok (.error (.sequenceMismatch next s)) :=
  check_eq_error.mpr ⟨next, successor_eq_ok.mpr hnext, hne, rfl⟩

end SequenceNumber

/-! ## Runs of one fetch and one write -/

section

variable {P : Exchange} {b : Backend P ω} {input : P.Input} {w : ω}

/-- Notes apart, the run ends right after its fetch. -/
def Run.EndsUnsaved (b : Backend P ω) (input : P.Input) (w : ω) (o : Outcome ε α)
    (r : Run P ε α ω) : Prop :=
  r.quiet = ⟨o, (b.fetch input w).2, [.fetched input (b.fetch input w).1]⟩

/-- Notes apart, the run fetches, writes the data and ends as the store replies. -/
def Run.EndsSaving (b : Backend P ω) (input : P.Input) (w : ω) (data : P.Write)
    (onWrite : StoreError → ε) (r : Run P ε P.Ack ω) : Prop :=
  let written := b.write data (b.fetch input w).2
  r.quiet = ⟨.ofResult ((·.mapError onWrite) <$> written.1), written.2,
    [.fetched input (b.fetch input w).1, .wrote data written.1]⟩

end

/-! ## Deliveries -/

/-- The number that a slot holds. -/
def Store.numberOf (stored : Option (S × SequenceNumber)) : Option SequenceNumber :=
  stored.map (·.2)

/-- What becomes of a delivery. Where it is not due nothing is said of the machine: it is not
asked. -/
structure Delivered (b : Backend (Exchange.numberedStates I S) ω) (initial : S)
    (becomes : S → Outcome (Failure I R) S) (i : I) (sequence : SequenceNumber) (w : ω)
    (r : Run (Exchange.numberedStates I S) (Failure I R) (S × SequenceNumber) ω) : Prop where
  unread : ∀ e, (b.fetch i w).1 = .ok (.error e) → r.EndsUnsaved b i w (.failed (.fetchFailed i e))
  refused : ∀ stored next, (b.fetch i w).1 = .ok (.ok stored) →
    next.number.toNat = SequenceNumber.count (Store.numberOf stored) + 1 → sequence ≠ next →
    r.EndsUnsaved b i w (.failed (.storeFailed i (.sequenceMismatch next sequence)))
  exhausted : ∀ stored, (b.fetch i w).1 = .ok (.ok stored) →
    SequenceNumber.count (Store.numberOf stored) + 1 = UInt64.size →
    r.EndsUnsaved b i w (.broken .addOverflow)
  due : ∀ stored, (b.fetch i w).1 = .ok (.ok stored) →
    sequence.number.toNat = SequenceNumber.count (Store.numberOf stored) + 1 →
    match becomes ((stored.map (·.1)).getD initial) with
    | .done s => r.EndsSaving b i w (s, sequence) (.storeFailed i)
    | .failed e => r.EndsUnsaved b i w (.failed e)
    | .broken x => r.EndsUnsaved b i w (.broken x)

/-- The check comes first, and only then the machine. -/
theorem updateMarked_admitted (initial : S) (i : I) (sequence : SequenceNumber)
    (becomes : S → Outcome (Failure I R) S) (stored : Option (S × SequenceNumber)) :
    Course.updateMarked (.ok initial) (sequence.admitted i) becomes (fun _ => sequence) stored =
      (match sequence.check (Store.numberOf stored) with
        | .error x => .ends (.broken x)
        | .ok (.error e) => .ends (.failed (.storeFailed i e))
        | .ok (.ok ()) => (becomes ((stored.map (·.1)).getD initial)).course fun s =>
          .writes (s, sequence) : Course (Exchange.numberedStates I S) (Failure I R)) := by
  have hstored : storedOr (.ok initial) stored =
      .ok ((stored.map (·.1)).getD initial, Store.numberOf stored) := by cases stored <;> rfl
  rw [Course.updateMarked, hstored, Outcome.ofChecked, Outcome.course, SequenceNumber.admitted]
  rcases sequence.check (Store.numberOf stored) with x | e | ⟨⟩ <;> rfl

section

variable {becomes : I → S → Outcome (Failure I R) S} {initial : S}
  {b : Backend (Exchange.numberedStates I S) ω} {i : I} {sequence : SequenceNumber} {w : ω}
  {r : Run (Exchange.numberedStates I S) (Failure I R) (S × SequenceNumber) ω}

theorem delivered_updateNumbered (began : SequenceNumber → Note)
    (skipped : Option SequenceNumber → Note) (ended : Note)
    {change : I → S → Program (Exchange.numberedStates I S) (Failure I R) S}
    (hchange : ∀ i s, (change i s).Computes (becomes i s)) (initial : S)
    (b : Backend (Exchange.numberedStates I S) ω) (i : I) (sequence : SequenceNumber) (w : ω) :
    Delivered b initial (becomes i) i sequence w
      ((updateNumbered began skipped ended (.ok initial) change (i, sequence)).run b w) := by
  have hquiet : ((updateNumbered began skipped ended (.ok initial) change (i, sequence)).run b
      w).quiet = (once i (.fetchFailed i) (.storeFailed i) (.updateMarked (.ok initial)
        (sequence.admitted i) (becomes i) fun _ => sequence)).run b w := by
    rw [← unnoted_updateNumbered began skipped ended hchange i sequence, run_unnoted]
  rw [run_once] at hquiet
  refine ⟨fun e hf => ?_, fun stored next hf hnext hne => ?_, fun stored hf hsize => ?_,
    fun stored hf hdue => ?_⟩ <;> simp only [hf] at hquiet
  · rw [Run.EndsUnsaved, hquiet, hf]
  · rw [updateMarked_admitted, SequenceNumber.check_refuses hnext hne] at hquiet
    rw [Run.EndsUnsaved, hquiet, hf]
    rfl
  · rw [updateMarked_admitted, SequenceNumber.check_fault.mpr ⟨rfl, hsize⟩] at hquiet
    rw [Run.EndsUnsaved, hquiet, hf]
    rfl
  · rw [updateMarked_admitted, SequenceNumber.check_eq_ok.mpr hdue] at hquiet
    cases hbecomes : becomes i ((stored.map (·.1)).getD initial) with
    | done s =>
      simp only [hbecomes, Outcome.course] at hquiet
      show Run.quiet _ = _
      rw [hquiet, hf]
      exact congrArg (Run.after _) (run_follow_writes b _ (s, sequence) _)
    | failed e =>
      simp only [hbecomes] at hquiet
      show Run.quiet _ = _
      rw [hquiet, hf]
      rfl
    | broken x =>
      simp only [hbecomes] at hquiet
      show Run.quiet _ = _
      rw [hquiet, hf]
      rfl

/-- The store answers every call. -/
structure Backend.Steady {P : Exchange} (b : Backend P ω) : Prop where
  fetch : ∀ input w, ∃ answer, (b.fetch input w).1 = .ok answer
  write : ∀ data w, ∃ answer, (b.write data w).1 = .ok answer

theorem Run.EndsSaving.outcome_ne {P : Exchange} {b : Backend P ω} (hb : b.Steady) {input : P.Input}
    {w : ω} {data : P.Write} {onWrite : StoreError → ε} {r : Run P ε P.Ack ω}
    (h : r.EndsSaving b input w data onWrite) (x : Fault) : r.outcome ≠ .broken x := by
  have houtcome := congrArg Run.outcome h
  obtain ⟨answer, hwrite⟩ := hb.write data (b.fetch input w).2
  simp only [hwrite] at houtcome
  intro hbroken
  cases answer <;> cases houtcome.symm.trans hbroken

/-- The store holds the largest number for the input. -/
def Backend.Exhausted (b : Backend (Exchange.numberedStates I S) ω) (i : I) (w : ω) : Prop :=
  ∃ stored, (b.fetch i w).1 = .ok (.ok stored) ∧
    SequenceNumber.count (Store.numberOf stored) + 1 = UInt64.size

/-- A delivery breaks off on top of the largest number, and only there. -/
theorem Delivered.broken_iff {becomes : S → Outcome (Failure I R) S}
    (h : Delivered b initial becomes i sequence w r) (hb : b.Steady)
    (hbecomes : ∀ s x, becomes s ≠ .broken x) {x : Fault} :
    r.outcome = .broken x ↔ x = .addOverflow ∧ b.Exhausted i w := by
  constructor
  · intro hbroken
    have hends : ∀ {o}, r.EndsUnsaved b i w o → o = .broken x := fun hends =>
      (congrArg Run.outcome hends).symm.trans hbroken
    obtain ⟨e | stored, hf⟩ := hb.fetch i w
    · cases hends (h.unread e hf)
    by_cases hsize : SequenceNumber.count (Store.numberOf stored) + 1 = UInt64.size
    · cases hends (h.exhausted stored hf hsize)
      exact ⟨rfl, stored, hf, hsize⟩
    by_cases hdue : sequence.number.toNat = SequenceNumber.count (Store.numberOf stored) + 1
    · have hturn := h.due stored hf hdue
      split at hturn
      next => exact absurd hbroken (hturn.outcome_ne hb x)
      next => cases hends hturn
      next y hy => exact absurd hy (hbecomes _ y)
    · obtain ⟨next, hnext⟩ := SequenceNumber.exists_next hsize
      have hne : sequence ≠ next := fun heq => hdue (heq ▸ hnext)
      cases hends (h.refused stored next hf hnext hne)
  · rintro ⟨rfl, stored, hf, hsize⟩
    exact congrArg Run.outcome (h.exhausted stored hf hsize)

end

/-! ## The engines -/

theorem Decider.Answers.becomes_ne {d : Decider C S E R} (hd : d.Answers) (c : C) (s : S)
    (x : Fault) : d.becomes c s ≠ .broken x := by
  obtain ⟨terminal, hterminal⟩ := hd.isTerminal c s
  obtain ⟨decided, hdecide⟩ := hd.decide c s
  rw [Decider.becomes, Decider.attempt, hterminal, hdecide]
  rcases terminal with _ | _
  · rcases decided with reason | events
    · simp [bind, Except.bind, pure, Except.pure]
    · obtain ⟨s', hs'⟩ := Decider.exists_evolveAll hd.evolve s events
      simp [bind, Except.bind, pure, Except.pure, hs', Outcome.ofChecked]
  · simp [bind, Except.bind, pure, Except.pure]

/-- Both engines take a delivery exactly if it is due, over all numbers, and refuse any other one
without asking the machine and without a save. On top of the largest number, and nowhere else, they
break off. -/
theorem deliveries_by_number {d : Decider C S E R} {s₀ : S} (hd : d.initial = .ok s₀)
    {v : View S' E'} {s₁ : S'} (hv : v.initial = .ok s₁)
    (b : Backend (Exchange.numberedStates C S) ω) (b' : Backend (Exchange.numberedStates E' S') ω') :
    (∀ (s : SequenceNumber) last,
      (s.check last = .ok (.ok ()) ↔ s.number.toNat = SequenceNumber.count last + 1) ∧
      (∀ next, next.number.toNat = SequenceNumber.count last + 1 → s ≠ next →
        s.check last = .ok (.error (.sequenceMismatch next s))) ∧
      ∀ x, s.check last = .error x ↔
        x = .addOverflow ∧ SequenceNumber.count last + 1 = UInt64.size) ∧
    (∀ fuel c sequence w, ∃ r,
      (StateStored.deduplicating d).handle b fuel (c, sequence) w = some r ∧
      Delivered b s₀ (d.becomes c) c sequence w r ∧
      (d.Answers → b.Steady →
        ∀ x, r.outcome = .broken x ↔ x = .addOverflow ∧ b.Exhausted c w)) ∧
    ∀ fuel e sequence w, ∃ r,
      (Projection.deduplicating v).handle b' fuel (e, sequence) w = some r ∧
      Delivered b' s₁ (fun s => .ofChecked (v.evolve s e)) e sequence w r ∧
      ((∀ s, ∃ s', v.evolve s e = .ok s') → b'.Steady →
        ∀ x, r.outcome = .broken x ↔ x = .addOverflow ∧ b'.Exhausted e w) := by
  refine ⟨fun s last => ⟨SequenceNumber.check_eq_ok, fun next => SequenceNumber.check_refuses,
    fun x => SequenceNumber.check_fault⟩, fun fuel c sequence w => ?_, fun fuel e sequence w => ?_⟩
  · have hdelivered := delivered_updateNumbered (.began <| .stateStoredDeduplicating ·)
      .commandSkipped .stateSaved (StateStored.compute_computes d) s₀ b c sequence w
    rw [StateStored.deduplicating_eq, Engine.handle_ofProgram, hd]
    exact ⟨_, rfl, hdelivered, fun hanswers hb x =>
      hdelivered.broken_iff hb (hanswers.becomes_ne c)⟩
  · have hdelivered := delivered_updateNumbered (R := Empty) (.began <| .viewDeduplicating ·)
      .eventSkipped .viewSaved (fun e s => ofChecked_computes (v.evolve s e)) s₁ b' e sequence w
    rw [Projection.deduplicating_eq, Engine.handle_ofProgram, hv]
    refine ⟨_, rfl, hdelivered, fun hevolve hb x => hdelivered.broken_iff hb fun s y => ?_⟩
    obtain ⟨s', hs'⟩ := hevolve s
    simp [hs', Outcome.ofChecked]

/-- A slot with the number it was written with. It answers every call. -/
def Backend.numberedSlot : Backend (Exchange.numberedStates I S) (Option (S × SequenceNumber)) where
  fetch _ slot := (.ok (.ok slot), slot)
  write data _ := (.ok (.ok data), some data)
  consult _ _ := none

theorem Backend.numberedSlot_steady :
    (numberedSlot : Backend (Exchange.numberedStates I S) _).Steady where
  fetch _ _ := ⟨_, rfl⟩
  write _ _ := ⟨_, rfl⟩

/-- The booking after the third one is taken, the second one is refused as a duplicate. -/
theorem fourth_booking_by_number :
    Account.decider.initial = .ok (0, 0) ∧ Account.view.initial = .ok (0, 0) ∧
    (∃ r, (StateStored.deduplicating Account.decider).handle Backend.numberedSlot 0 ((1, 5), ⟨4⟩)
        (some ((1, 10), ⟨3⟩)) = some r ∧
      r.outcome = .done ((1, 15), ⟨4⟩) ∧ ∀ x, r.outcome ≠ .broken x) ∧
    ∃ r, (Projection.deduplicating Account.view).handle Backend.numberedSlot 0 ((1, 5), ⟨2⟩)
        (some ((1, 10), ⟨3⟩)) = some r ∧
      r.outcome = .failed (.storeFailed (1, 5) (.sequenceMismatch ⟨4⟩ ⟨2⟩)) ∧
      ∀ x, r.outcome ≠ .broken x := by
  obtain ⟨-, hcommands, hevents⟩ := deliveries_by_number (d := Account.decider) rfl
    (v := Account.view) rfl Backend.numberedSlot Backend.numberedSlot
  have hroom :
      ¬ Backend.numberedSlot.Exhausted (1, 5) (some ((1, 10), (⟨3⟩ : SequenceNumber))) := by
    rintro ⟨stored, hf, hsize⟩
    cases hf
    cases hsize
  refine ⟨rfl, rfl, ?_, ?_⟩
  · obtain ⟨r, hr, hdelivered, hbroken⟩ := hcommands 0 (1, 5) ⟨4⟩ (some ((1, 10), ⟨3⟩))
    refine ⟨r, hr, congrArg Run.outcome (hdelivered.due _ rfl rfl), fun x h => ?_⟩
    exact hroom ((hbroken (Decider.answers_total _ _ _ _) Backend.numberedSlot_steady x).mp h).2
  · obtain ⟨r, hr, hdelivered, hbroken⟩ := hevents 0 (1, 5) ⟨2⟩ (some ((1, 10), ⟨3⟩))
    refine ⟨r, hr, congrArg Run.outcome (hdelivered.refused _ ⟨4⟩ rfl rfl (by decide)),
      fun x h => ?_⟩
    exact hroom ((hbroken (fun _ => ⟨_, rfl⟩) Backend.numberedSlot_steady x).mp h).2

/-- On top of the largest number the seventh delivery is a replay, and yet it is not refused. -/
theorem replay_breaks_off :
    (¬ ∃ answer, (⟨7⟩ : SequenceNumber).check (some ⟨18446744073709551615⟩) = .ok answer) ∧
    (¬ ∃ r, (StateStored.deduplicating Account.decider).handle Backend.numberedSlot 0
      ((1, 2), ⟨7⟩) (some ((1, 1), ⟨18446744073709551615⟩)) = some r ∧
        ∀ x, r.outcome ≠ .broken x) ∧
    ¬ ∃ r, (Projection.deduplicating Account.view).handle Backend.numberedSlot 0
      ((1, 2), ⟨7⟩) (some ((1, 1), ⟨18446744073709551615⟩)) = some r ∧
        ∀ x, r.outcome ≠ .broken x := by
  refine ⟨?_, ?_, ?_⟩
  · rintro ⟨answer, h⟩
    cases h
  · rintro ⟨r, hr, hne⟩
    cases hr
    exact hne .addOverflow rfl
  · rintro ⟨r, hr, hne⟩
    cases hr
    exact hne .addOverflow rfl

end EventMachines
