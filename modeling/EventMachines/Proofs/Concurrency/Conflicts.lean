import EventMachines.Proofs.Concurrency.Guards
import EventMachines.Proofs.Concurrency.Serialization
import EventMachines.Proofs.Concurrency.Slots

/-!
When calls at the same time conflict. A call of the engines that fetch, decide and save names the
version it fetched. The store refuses it exactly where somebody saved under the same key meanwhile,
and then, and only then, the call fails with a conflict of versions.

* `locking_checks`, `updateLocked_checks`: what the engines do, whatever the replies;
* `conflict_iff`: a save is refused for its version exactly if the call was overtaken;
* `first_to_save`: of calls that fetched the same version the first one to save succeeds;
* `conflicts_exact`: so it is with every engine that checks, in every order of steps;
* `locking_inPlace`, `Replaces.inPlace`: when calls write under the keys of their inputs;
* `version_conflicts_are_exact`: the engines over histories, states and views.
-/

namespace EventMachines

open EventSourced Program

variable {P : Exchange} {C I S E R K A T F ε ω Answer : Type}

/-! ## Calls that check -/

/-- The call failed because the data had changed. -/
def Outcome.IsConflict (o : Outcome (Failure I R) Answer) : Prop :=
  ∃ e, o = .failed e ∧ e.isVersionConflict = true

/-- The store refused a write for its version. -/
def Happening.Refused (h : Happening P) : Prop :=
  ∃ d expected actual, h = .wrote d (.ok (.error (.versionMismatch expected actual)))

/-- How the end of a call tells what became of its write: it failed with a conflict exactly where
the store refused the write for its version, and succeeded where it was accepted. -/
structure Tells (o : Outcome (Failure I R) Answer) (past : List (Happening P)) : Prop where
  conflict : o.IsConflict ↔ ∃ h ∈ past, h.Refused
  saved : ∀ h ∈ past, h.save?.isSome = true → ∃ answer, o = .done answer

/-- A call fetches for its own input and then writes once, expecting the version it fetched. -/
def checkingProtocol (V : Versioned P) (e : Engine P (Failure I R) P.Input Answer) :
    Protocol e where
  may i
    | .fetch j, past => j = i ∧ past = []
    | .write d, past => ∃ data, past = [.fetched i (.ok (.ok data))] ∧
      V.expected d = .ofCurrent (V.read data)
    | .consult _, _ => False
  ends _ o past := Tells o past
  waits _ _ _ := False

section

variable {past : List (Happening P)} {o : Outcome (Failure I R) Answer}

/-- No write was accepted, and none refused for its version. -/
def Settled (past : List (Happening P)) : Prop :=
  ∀ h ∈ past, ¬ h.Refused ∧ h.save? = none

theorem tells_of_settled (ho : ∀ e, o = .failed e → e.isVersionConflict = false)
    (hpast : Settled past) : Tells o past where
  conflict := by
    constructor
    · rintro ⟨e, hfailed, hconflict⟩
      rw [ho e hfailed] at hconflict
      cases hconflict
    · rintro ⟨h, hmem, hrefused⟩
      exact absurd hrefused (hpast h hmem).1
  saved h hmem hsaved := by
    rw [(hpast h hmem).2] at hsaved
    cases hsaved

theorem tells_of_saved (answer : Answer) (d : P.Write) (ack : P.Ack) (hpast : Settled past) :
    Tells (.done answer : Outcome (Failure I R) Answer) (.wrote d (.ok (.ok ack)) :: past) where
  conflict := by
    refine iff_of_false ?_ ?_
    · rintro ⟨e, ⟨⟩, -⟩
    · rintro ⟨h, hmem, hrefused⟩
      rcases List.mem_cons.mp hmem with rfl | hmem
      · obtain ⟨d', expected, actual, ⟨⟩⟩ := hrefused
      · exact (hpast h hmem).1 hrefused
  saved _ _ _ := ⟨answer, rfl⟩

/-- A store that refuses a write fails its call, with a conflict where that is for the version. -/
theorem tells_of_refused (i : I) (d : P.Write) (error : StoreError) (hpast : Settled past) :
    Tells (.failed (.storeFailed i error) : Outcome (Failure I R) Answer)
      (.wrote d (.ok (.error error)) :: past) where
  conflict := by
    have hnewest : (∃ h ∈ .wrote d (.ok (.error error)) :: past, h.Refused) ↔
        (Happening.wrote d (.ok (.error error)) : Happening P).Refused := by
      constructor
      · rintro ⟨h, hmem, hrefused⟩
        rcases List.mem_cons.mp hmem with rfl | hmem
        · exact hrefused
        · exact absurd hrefused (hpast h hmem).1
      · intro hrefused
        exact ⟨_, List.mem_cons_self, hrefused⟩
    rw [hnewest]
    cases error with
    | versionMismatch expected actual => exact iff_of_true ⟨_, rfl, rfl⟩ ⟨d, expected, actual, rfl⟩
    | sequenceMismatch | io | backend =>
      refine iff_of_false ?_ ?_
      · rintro ⟨_, ⟨⟩, ⟨⟩⟩
      · rintro ⟨_, _, _, ⟨⟩⟩
  saved h hmem hsaved := by
    rcases List.mem_cons.mp hmem with rfl | hmem
    · cases hsaved
    · rw [(hpast h hmem).2] at hsaved
      cases hsaved

theorem settled_fetched (i : P.Input) (reply : Reply P.Read) :
    Settled [(.fetched i reply : Happening P)] := by
  simp [Settled, Happening.Refused, Happening.save?]

theorem settled_broken (d : P.Write) (x : Fault) (hpast : Settled past) :
    Settled (.wrote d (.error x) :: past) :=
  List.forall_mem_cons.mpr ⟨by simp [Happening.Refused, Happening.save?], hpast⟩

end

theorem Outcome.ofChecked_ne_failed (x : Checked Answer) (e : ε) :
    (Outcome.ofChecked x : Outcome ε Answer) ≠ .failed e := by
  cases x <;> simp [Outcome.ofChecked]

/-- A refusal by the decider is no conflict. -/
theorem Decider.attempt_unconflicted {d : Decider C S E R} {c : C} {s : S} {e : Failure C R}
    (h : d.attempt c s = .ok (.error e)) : e.isVersionConflict = false := by
  rcases attempt_eq_error.mp h with ⟨-, rfl⟩ | ⟨-, reason, -, rfl⟩ <;> rfl

theorem EventSourced.locking_checks (d : Decider C S E R) :
    (checkingProtocol .events (locking d)).Kept := by
  refine Protocol.kept_ofProgram fun c => ?_
  show (executeLocking d c none).Keeps _ []
  refine keeps_read_bind ⟨rfl, rfl⟩ (fun history => ?_) ?_ ?_
  · have hfetched := settled_fetched (P := Exchange.lockedEvents C E) c (.ok (.ok history))
    refine keeps_ofChecked_bind (fun s _ => ?_) ?_
    · refine keeps_attempt_bind (fun events _ => ?_) ?_ ?_
      · by_cases hempty : events.isEmpty = true
        · simp only [if_pos hempty]
          exact tells_of_settled (by simp) hfetched
        · simp only [if_neg hempty]
          refine keeps_save_bind ⟨history, rfl, rfl⟩ (fun saved => ?_) ?_ ?_
          · exact tells_of_saved saved _ saved hfetched
          · intro error
            exact tells_of_refused c _ error hfetched
          · intro x
            exact tells_of_settled (by simp) (settled_broken _ x hfetched)
      · intro e he
        refine tells_of_settled ?_ hfetched
        rintro _ ⟨⟩
        exact Decider.attempt_unconflicted he
      · intro x _
        exact tells_of_settled (by simp) hfetched
    · intro x _
      exact tells_of_settled (by simp) hfetched
  · intro error
    refine tells_of_settled ?_ (settled_fetched _ _)
    rintro _ ⟨⟩
    rfl
  · intro x
    exact tells_of_settled (by simp) (settled_fetched _ _)

/-- So it is with a state that is computed without a conflict. -/
theorem updateLocked_checks (began : Note) (ended : ExpectedVersion → Version → Note)
    (initial : Checked S) {change : I → S → Program (Exchange.lockedStates I S) (Failure I R) S}
    {becomes : I → S → Outcome (Failure I R) S}
    (hchange : ∀ i s, (change i s).Computes (becomes i s))
    (hbecomes : ∀ i s e, becomes i s = .failed e → e.isVersionConflict = false) :
    (checkingProtocol .states (.ofProgram (updateLocked began ended initial change))).Kept := by
  refine Protocol.kept_ofProgram fun i => ?_
  refine keeps_read_bind ⟨rfl, rfl⟩ (fun stored => ?_) ?_ ?_
  · have hfetched := settled_fetched (P := Exchange.lockedStates I S) i (.ok (.ok stored))
    refine keeps_ofChecked_bind (fun current hcurrent => ?_) ?_
    · obtain ⟨s, version⟩ := current
      have hversion : Versioned.states.read stored = version := storedOr_token hcurrent
      refine (hchange i s).keeps_bind.mpr ?_
      rcases hend : becomes i s with s' | e | x
      · refine keeps_save_bind ⟨stored, rfl, ?_⟩ (fun saved => ?_) ?_ ?_
        · rw [hversion]
          rfl
        · exact tells_of_saved saved _ saved hfetched
        · intro error
          exact tells_of_refused i _ error hfetched
        · intro x
          exact tells_of_settled (by simp) (settled_broken _ x hfetched)
      · refine tells_of_settled ?_ hfetched
        rintro _ ⟨⟩
        exact hbecomes i s e hend
      · exact tells_of_settled (by simp) hfetched
    · intro x _
      exact tells_of_settled (by simp) hfetched
  · intro error
    refine tells_of_settled ?_ (settled_fetched _ _)
    rintro _ ⟨⟩
    rfl
  · intro x
    exact tells_of_settled (by simp) (settled_fetched _ _)

theorem StateStored.locking_checks (d : Decider C S E R) :
    (checkingProtocol .states (locking d)).Kept := by
  rw [locking_eq]
  refine updateLocked_checks _ _ _ (compute_computes d) fun c s e h => ?_
  rw [Decider.becomes] at h
  rcases hattempt : d.attempt c s with x | e' | events <;> rw [hattempt] at h
  · cases h
  · obtain rfl := Outcome.failed.inj h
    exact Decider.attempt_unconflicted hattempt
  · exact absurd h (Outcome.ofChecked_ne_failed _ _)

theorem Projection.locking_checks (v : View S E) :
    (checkingProtocol .states (locking v)).Kept := by
  rw [locking_eq]
  refine updateLocked_checks _ _ _ (fun e s => Program.ofChecked_computes (v.evolve s e)) ?_
  intro e s failure h
  exact absurd h (Outcome.ofChecked_ne_failed _ _)

/-! ## Saves that were tried -/

/-- What a call did: it fetched data for its input, then, after what happened in between, it wrote,
and this was the reply. -/
structure Attempt (P : Exchange) where
  task : Nat
  input : P.Input
  data : P.Read
  write : P.Write
  reply : Reply P.Ack
  between : List (Nat × Happening P)
  before : List (Nat × Happening P)

namespace Attempt

/-- All that had happened when the call wrote, the newest first. -/
def earlier (a : Attempt P) : List (Nat × Happening P) :=
  a.between ++ (a.task, .fetched a.input (.ok (.ok a.data))) :: a.before

/-- It is what the call did: it made no other calls before it wrote. -/
structure IsIn (a : Attempt P) (transcript : List (Nat × Happening P)) : Prop where
  suffix : (a.task, .wrote a.write a.reply) :: a.earlier <:+ transcript
  alone : past a.task a.earlier = [.fetched a.input (.ok (.ok a.data))]

end Attempt

/-- Another call saved under the key of the call's input, after this had fetched and before it
wrote. -/
def Guard.Overtaken {b : Backend P ω} {V : Versioned P} (guard : Guard b V K) (a : Attempt P) :
    Prop :=
  ∃ j d ack, j ≠ a.task ∧ (j, .wrote d (.ok (.ok ack))) ∈ a.between ∧
    guard.target d = some (guard.source a.input)

section

variable {b : Backend P ω} {V : Versioned P} (guard : Guard b V K)
  {e : Engine P (Failure I R) P.Input Answer} {items : List (Checked P.Input)} {w : ω}
  {transcript : List (Nat × Happening P)}

/-- Whatever a call wrote, it had fetched for its input before, and nothing else. -/
theorem exists_attempt (hallows : (checkingProtocol V e).Allows items transcript) {i : Nat}
    {d : P.Write} {reply : Reply P.Ack} {earlier : List (Nat × Happening P)}
    (hsuffix : (i, .wrote d reply) :: earlier <:+ transcript) :
    ∃ a : Attempt P, a.IsIn transcript ∧ a.task = i ∧ a.write = d ∧ a.reply = reply ∧
      a.earlier = earlier := by
  obtain ⟨input, -, data, hpast, -⟩ := hallows i _ _ earlier hsuffix rfl
  obtain ⟨before, ⟨between, rfl⟩, -⟩ := exists_of_past hpast
  exact ⟨⟨i, input, data, d, reply, between, before⟩, ⟨hsuffix, hpast⟩, rfl, rfl, rfl, rfl⟩

variable {a : Attempt P} (ha : a.IsIn transcript)
include ha

/-- The call's input is its item, and it expects the version that it fetched. -/
theorem Attempt.IsIn.checked (hallows : (checkingProtocol V e).Allows items transcript) :
    items[a.task]? = some (.ok a.input) ∧ V.expected a.write = .ofCurrent (V.read a.data) := by
  obtain ⟨input, hitem, data, hpast, hexpected⟩ := hallows a.task _ _ a.earlier ha.suffix rfl
  obtain ⟨hfetched, -⟩ := List.cons.inj (ha.alone.symm.trans hpast)
  obtain ⟨rfl, hdata⟩ := Happening.fetched.inj hfetched
  obtain rfl := Except.ok.inj (Except.ok.inj hdata)
  exact ⟨hitem, hexpected⟩

/-- The call itself made no calls in between. -/
theorem Attempt.IsIn.idle_between : past a.task a.between = [] := by
  have hall := ha.alone
  have hself : past a.task ((a.task, .fetched a.input (.ok (.ok a.data))) :: a.before) =
      .fetched a.input (.ok (.ok a.data)) :: past a.task a.before := past_cons_self _ _ _
  rw [Attempt.earlier, past_append, hself] at hall
  have hlength := congrArg List.length hall
  simp only [List.length_append, List.length_cons, List.length_nil] at hlength
  exact List.eq_nil_of_length_eq_zero (by omega)

theorem overtaken_iff :
    guard.Overtaken a ↔ ∃ entry ∈ a.between, guard.SavedUnder (guard.source a.input) entry.2 := by
  constructor
  · rintro ⟨j, d, ack, -, hmem, htarget⟩
    exact ⟨_, hmem, d, ack, rfl, htarget⟩
  · rintro ⟨⟨j, h⟩, hmem, d, ack, hsave, htarget⟩
    obtain rfl : h = _ := Happening.save?_eq_some.mp hsave
    refine ⟨j, d, ack, ?_, hmem, htarget⟩
    rintro rfl
    have hknown : .wrote d (.ok (.ok ack)) ∈ past a.task a.between := mem_past.mpr ⟨hmem, rfl⟩
    rw [ha.idle_between] at hknown
    cases hknown

/-- What was fetched has the version that its key had then, and when the call writes the key still
has it, or the call was overtaken and the version went up. -/
theorem version_since_fetched (hrecorded : Recorded b w transcript) :
    ¬ guard.Overtaken a ∧
      guard.version (worldAfter b w a.earlier) (guard.source a.input) = V.read a.data ∨
    guard.Overtaken a ∧ Version.count (V.read a.data) <
      Version.count (guard.version (worldAfter b w a.earlier) (guard.source a.input)) := by
  have hearlier : Recorded b w a.earlier :=
    hrecorded.of_suffix ((List.suffix_cons _ _).trans ha.suffix)
  rw [overtaken_iff guard ha]
  rcases guard.since_fetched hearlier with ⟨hnone, hkept⟩ | hraised
  · refine .inl ⟨?_, hkept⟩
    rintro ⟨entry, hmem, hsaved⟩
    exact hnone entry hmem hsaved
  · exact .inr hraised

/-- **Exactly where it was overtaken** a call is refused for its version. Else its save is accepted,
unless there are no versions left. -/
theorem conflict_iff (hallows : (checkingProtocol V e).Allows items transcript)
    (hrecorded : Recorded b w transcript)
    (htarget : guard.target a.write = some (guard.source a.input)) :
    guard.Overtaken a ∧ (∃ expected actual,
      a.reply = .ok (.error (.versionMismatch expected actual))) ∨
    ¬ guard.Overtaken a ∧ ((∃ ack, a.reply = .ok (.ok ack)) ∨
      UInt64.size ≤ Version.count (V.read a.data) + guard.takes a.write ∧
        ∃ x, a.reply = .error x) := by
  have hreply : (b.write a.write (worldAfter b w a.earlier)).1 = a.reply :=
    (hrecorded.of_suffix ha.suffix).1
  obtain ⟨-, hexpected⟩ := ha.checked hallows
  rcases version_since_fetched guard ha hrecorded with ⟨hnot, hkept⟩ | ⟨hovertaken, hraised⟩
  · rw [← hkept] at hexpected
    refine .inr ⟨hnot, ?_⟩
    rcases guard.accepts htarget hexpected with ⟨ack, w', hwrite, -⟩ | ⟨hfull, x, hwrite⟩
    · rw [hwrite] at hreply
      exact .inl ⟨ack, hreply.symm⟩
    · rw [hwrite] at hreply
      rw [hkept] at hfull
      exact .inr ⟨hfull, x, hreply.symm⟩
  · refine .inl ⟨hovertaken, ?_⟩
    have hmoved : V.expected a.write ≠
        .ofCurrent (guard.version (worldAfter b w a.earlier) (guard.source a.input)) := by
      intro hsame
      rw [ExpectedVersion.ofCurrent_inj.mp (hexpected.symm.trans hsame)] at hraised
      exact Nat.lt_irrefl _ hraised
    have hwrite := guard.refuses htarget hmoved
    rw [hwrite] at hreply
    exact ⟨_, _, hreply.symm⟩

end

/-! ## The first to save -/

/-- What a call writes belongs under the key of its input. -/
def Guard.InPlace {b : Backend P ω} {V : Versioned P} (guard : Guard b V K)
    (transcript : List (Nat × Happening P)) : Prop :=
  ∀ a : Attempt P, a.IsIn transcript → guard.target a.write = some (guard.source a.input)

/-- Calls that fetched the same version of a key and found versions left when they wrote. Nobody
else saved under the key in between. -/
structure Guard.Rivals {b : Backend P ω} {V : Versioned P} (guard : Guard b V K)
    (transcript : List (Nat × Happening P)) (key : K) (version : Option Version)
    (among : Nat → Prop) : Prop where
  fetched : ∀ a : Attempt P, a.IsIn transcript → among a.task →
    guard.source a.input = key ∧ V.read a.data = version
  room : ∀ a : Attempt P, a.IsIn transcript → among a.task → ∀ x, a.reply ≠ .error x
  alone : ∀ a : Attempt P, a.IsIn transcript → among a.task →
    ∀ j d ack, (j, .wrote d (.ok (.ok ack))) ∈ a.between → guard.target d = some key → among j

/-- None of those calls had written before. -/
def Attempt.IsFirst (a : Attempt P) (among : Nat → Prop) : Prop :=
  ∀ j d reply, (j, .wrote d reply) ∈ a.earlier → ¬ among j

section

variable {b : Backend P ω} {V : Versioned P} {guard : Guard b V K}
  {e : Engine P (Failure I R) P.Input Answer} {items : List (Checked P.Input)} {w : ω}
  {transcript : List (Nat × Happening P)}

/-- Once one of the rivals has written, the version that they fetched is gone. -/
theorem moved_since_rival (hallows : (checkingProtocol V e).Allows items transcript)
    (hrecorded : Recorded b w transcript) (hplace : guard.InPlace transcript)
    {key : K} {version : Option Version} {among : Nat → Prop}
    (hrivals : guard.Rivals transcript key version among) {j : Nat} {d : P.Write}
    {reply : Reply P.Ack} {later earlier : List (Nat × Happening P)}
    (hsuffix : later ++ (j, .wrote d reply) :: earlier <:+ transcript) (hamong : among j) :
    Version.count version < Version.count
      (guard.version (worldAfter b w (later ++ (j, .wrote d reply) :: earlier)) key) := by
  obtain ⟨a, ha, rfl, rfl, rfl, rfl⟩ :=
    exists_attempt hallows ((List.suffix_append later _).trans hsuffix)
  obtain ⟨hkey, hversion⟩ := hrivals.fetched a ha hamong
  have htarget := hplace a ha
  rw [hkey] at htarget
  have hfetched : Version.count version ≤
      Version.count (guard.version (worldAfter b w a.earlier) key) := by
    rw [← hkey, ← hversion]
    rcases version_since_fetched guard ha hrecorded with ⟨-, hkept⟩ | ⟨-, hraised⟩
    · exact Nat.le_of_eq (congrArg Version.count hkept.symm)
    · exact Nat.le_of_lt hraised
  have hwhole : Recorded b w ((later ++ [(a.task, .wrote a.write a.reply)]) ++ a.earlier) := by
    rw [List.append_assoc]
    exact hrecorded.of_suffix hsuffix
  have hsince := guard.unchanged_or_raised hwhole key
  rw [List.append_assoc, List.singleton_append] at hsince
  rcases hsince with ⟨hnone, hsame⟩ | ⟨-, hraised⟩
  · -- its own save was not accepted, so another one came before it
    rw [hsame]
    rcases conflict_iff guard ha hallows hrecorded (hplace a ha) with ⟨hovertaken, -⟩ |
      ⟨-, ⟨ack, hack⟩ | ⟨-, x, hx⟩⟩
    · rcases version_since_fetched guard ha hrecorded with ⟨hnot, -⟩ | ⟨-, hraised⟩
      · exact absurd hovertaken hnot
      · rwa [hkey, hversion] at hraised
    · refine absurd ⟨a.write, ack, ?_, htarget⟩ (hnone (a.task, .wrote a.write a.reply) (by simp))
      rw [hack]
      rfl
    · exact absurd hx (hrivals.room a ha hamong x)
  · exact Nat.lt_of_le_of_lt hfetched hraised

/-- **The first to save.** Of calls that fetched the same version of a key exactly the one that
writes first is accepted. -/
theorem first_to_save (hallows : (checkingProtocol V e).Allows items transcript)
    (hrecorded : Recorded b w transcript) (hplace : guard.InPlace transcript)
    {key : K} {version : Option Version} {among : Nat → Prop}
    (hrivals : guard.Rivals transcript key version among) {a : Attempt P}
    (ha : a.IsIn transcript) (hamong : among a.task) :
    a.IsFirst among ∧ (∃ ack, a.reply = .ok (.ok ack)) ∨
      ¬ a.IsFirst among ∧ guard.Overtaken a := by
  obtain ⟨hkey, hversion⟩ := hrivals.fetched a ha hamong
  by_cases hfirst : a.IsFirst among
  · refine .inl ⟨hfirst, ?_⟩
    rcases conflict_iff guard ha hallows hrecorded (hplace a ha) with
      ⟨⟨j, d, ack, -, hmem, htarget⟩, -⟩ | ⟨-, haccepted | ⟨-, x, hx⟩⟩
    · have hrival := hrivals.alone a ha hamong j d ack hmem (htarget.trans (congrArg some hkey))
      exact absurd hrival (hfirst j d _ (List.mem_append_left _ hmem))
    · exact haccepted
    · exact absurd hx (hrivals.room a ha hamong x)
  · refine .inr ⟨hfirst, ?_⟩
    simp only [Attempt.IsFirst, Classical.not_forall, Classical.not_not] at hfirst
    obtain ⟨j, d, reply, hmem, hrival⟩ := hfirst
    obtain ⟨later, earlier, hsplit⟩ := List.append_of_mem hmem
    have hsuffix : later ++ (j, .wrote d reply) :: earlier <:+ transcript := by
      rw [← hsplit]
      exact (List.suffix_cons _ _).trans ha.suffix
    have hmoved := moved_since_rival hallows hrecorded hplace hrivals hsuffix hrival
    rw [← hsplit] at hmoved
    rcases version_since_fetched guard ha hrecorded with ⟨-, hkept⟩ | ⟨hovertaken, -⟩
    · rw [hkey, hversion] at hkept
      rw [hkept] at hmoved
      exact absurd hmoved (Nat.lt_irrefl _)
    · exact hovertaken

end

/-! ## Calls at the same time -/

/-- When calls at the same time conflict. -/
structure ExactConflicts {b : Backend P ω} {V : Versioned P} (guard : Guard b V K)
    {e : Engine P (Failure I R) P.Input Answer} (items : List (Checked P.Input))
    (s : System e ω) : Prop where
  /-- A call comes to its save after one fetch for its input. -/
  attempted : ∀ i d reply earlier, (i, .wrote d reply) :: earlier <:+ s.transcript →
    ∃ a : Attempt P, a.IsIn s.transcript ∧ items[a.task]? = some (.ok a.input) ∧ a.task = i ∧
      a.write = d ∧ a.reply = reply ∧ a.earlier = earlier
  /-- It is refused for its version exactly if it was overtaken. -/
  refused : ∀ a : Attempt P, a.IsIn s.transcript →
    ((∃ expected actual, a.reply = .ok (.error (.versionMismatch expected actual))) ↔
      guard.Overtaken a)
  /-- It is accepted where it was not and there are versions left. -/
  accepted : ∀ a : Attempt P, a.IsIn s.transcript → ¬ guard.Overtaken a →
    (∃ ack, a.reply = .ok (.ok ack)) ∨
      UInt64.size ≤ Version.count (V.read a.data) + guard.takes a.write ∧ ∃ x, a.reply = .error x
  /-- A call that came to its save fails with a conflict exactly if it was overtaken. -/
  conflict : ∀ a : Attempt P, a.IsIn s.transcript → ∀ o,
    s.tasks[a.task]? = some (.finished o) → (o.IsConflict ↔ guard.Overtaken a)
  /-- A call that did not come to its save does not. -/
  unsaved : ∀ (i : Nat) o, s.tasks[i]? = some (.finished o) → o.IsConflict →
    ∃ a : Attempt P, a.IsIn s.transcript ∧ a.task = i
  /-- Of calls that fetched the same version of a key, with no other writer and versions left, the
  first to save succeeds and the others fail with a conflict. -/
  first : ∀ key version among, guard.Rivals s.transcript key version among →
    ∀ a : Attempt P, a.IsIn s.transcript → among a.task →
      ((∃ ack, a.reply = .ok (.ok ack)) ↔ a.IsFirst among) ∧
      ∀ o, s.tasks[a.task]? = some (.finished o) →
        ((∃ answer, o = .done answer) ↔ a.IsFirst among) ∧ (o.IsConflict ↔ ¬ a.IsFirst among)
  /-- A call that nobody disturbed between its fetch and its save has no conflict. -/
  undisturbed : ∀ a : Attempt P, a.IsIn s.transcript → (∀ entry ∈ a.between, entry.1 = a.task) →
    ∀ o, s.tasks[a.task]? = some (.finished o) → ¬ o.IsConflict

section

variable {V : Versioned P} {e : Engine P (Failure I R) P.Input Answer}
  {items : List (Checked P.Input)} {transcript : List (Nat × Happening P)} {a : Attempt P}
  (ha : a.IsIn transcript)
include ha

theorem Attempt.IsIn.unwritten_before (d : P.Write) (reply : Reply P.Ack) :
    (a.task, .wrote d reply) ∉ a.earlier := by
  intro hmem
  have hknown : .wrote d reply ∈ past a.task a.earlier := mem_past.mpr ⟨hmem, rfl⟩
  rw [ha.alone] at hknown
  cases List.mem_singleton.mp hknown

/-- No call writes twice. -/
theorem Attempt.IsIn.write_unique (hallows : (checkingProtocol V e).Allows items transcript)
    {d : P.Write} {reply : Reply P.Ack} (hmem : (a.task, .wrote d reply) ∈ transcript) :
    reply = a.reply := by
  obtain ⟨later, earlier, hsplit⟩ := List.append_of_mem hmem
  have hsuffix : (a.task, .wrote d reply) :: earlier <:+ transcript := ⟨later, hsplit.symm⟩
  obtain ⟨a', ha', htask, rfl, rfl, rfl⟩ := exists_attempt hallows hsuffix
  rcases List.suffix_or_suffix_of_suffix ha.suffix hsuffix with h | h <;>
    rcases List.suffix_cons_iff.mp h with hsame | hbefore
  · obtain ⟨hentry, -⟩ := List.cons.inj hsame
    exact (Happening.wrote.inj (Prod.mk.inj hentry).2).2.symm
  · rw [← htask] at hbefore
    exact absurd (hbefore.subset List.mem_cons_self) (ha'.unwritten_before _ _)
  · obtain ⟨hentry, -⟩ := List.cons.inj hsame
    exact (Happening.wrote.inj (Prod.mk.inj hentry).2).2
  · exact absurd (hbefore.subset List.mem_cons_self) (ha.unwritten_before _ _)

end

/-- A finished call that came to its save tells what became of it. -/
theorem tells_of_finished {V : Versioned P} {e : Engine P (Failure I R) P.Input Answer}
    {items : List (Checked P.Input)} {s : System e ω} {a : Attempt P} (ha : a.IsIn s.transcript)
    (hkeeps : s.Keeps (checkingProtocol V e) items) {o : Outcome (Failure I R) Answer}
    (hfinished : s.tasks[a.task]? = some (.finished o)) :
    (o.IsConflict ↔ ∃ expected actual,
      a.reply = .ok (.error (.versionMismatch expected actual))) ∧
    ((∃ ack, a.reply = .ok (.ok ack)) → ∃ answer, o = .done answer) := by
  have hwrote : .wrote a.write a.reply ∈ past a.task s.transcript :=
    mem_past.mpr ⟨ha.suffix.subset List.mem_cons_self, rfl⟩
  rcases hkeeps.tasks a.task _ hfinished with ⟨item, -, htells⟩ | ⟨x, hitem, -⟩
  · refine ⟨htells.conflict.trans ⟨?_, ?_⟩, ?_⟩
    · rintro ⟨h, hmem, d, expected, actual, rfl⟩
      have hreply := ha.write_unique hkeeps.calls (mem_past.mp hmem).1
      exact ⟨expected, actual, hreply.symm⟩
    · rintro ⟨expected, actual, hreply⟩
      exact ⟨_, hwrote, a.write, expected, actual, by rw [hreply]⟩
    · rintro ⟨ack, hack⟩
      refine htells.saved _ hwrote ?_
      rw [hack]
      rfl
  · have hbegun := (ha.checked hkeeps.calls).1
    rw [hitem] at hbegun
    cases hbegun

/-- **Conflicts of versions are exact** for every engine that fetches, checks and saves, over every
store that compares and writes in one step. -/
theorem conflicts_exact {b : Backend P ω} {V : Versioned P} (guard : Guard b V K)
    {e : Engine P (Failure I R) P.Input Answer} (hk : (checkingProtocol V e).Kept)
    (items : List (Checked P.Input)) (w : ω) (schedule : List Nat) :
    let s := (System.start e items w).run b schedule
    guard.InPlace s.transcript → ExactConflicts guard items s := by
  intro s hplace
  have hkeeps : s.Keeps (checkingProtocol V e) items := System.run_keeps hk items w schedule
  obtain ⟨-, hrecorded⟩ := System.run_recorded (e := e) (b := b) items w schedule
  have hallows := hkeeps.calls
  have hrefused : ∀ a : Attempt P, a.IsIn s.transcript →
      ((∃ expected actual, a.reply = .ok (.error (.versionMismatch expected actual))) ↔
        guard.Overtaken a) := by
    intro a ha
    rcases conflict_iff guard ha hallows hrecorded (hplace a ha) with ⟨hovertaken, hreply⟩ |
      ⟨hnot, ⟨ack, hreply⟩ | ⟨-, x, hreply⟩⟩
    · exact iff_of_true hreply hovertaken
    · exact iff_of_false (by simp [hreply]) hnot
    · exact iff_of_false (by simp [hreply]) hnot
  have hconflict : ∀ a : Attempt P, a.IsIn s.transcript → ∀ o,
      s.tasks[a.task]? = some (.finished o) → (o.IsConflict ↔ guard.Overtaken a) :=
    fun a ha o hfinished => (tells_of_finished ha hkeeps hfinished).1.trans (hrefused a ha)
  refine ⟨?_, hrefused, ?_, hconflict, ?_, ?_, ?_⟩
  · intro i d reply earlier hsuffix
    obtain ⟨a, ha, hsame⟩ := exists_attempt hallows hsuffix
    exact ⟨a, ha, (ha.checked hallows).1, hsame⟩
  · intro a ha hnot
    rcases conflict_iff guard ha hallows hrecorded (hplace a ha) with ⟨hovertaken, -⟩ |
      ⟨-, haccepted⟩
    · exact absurd hovertaken hnot
    · exact haccepted
  · intro i o hfinished hfailed
    rcases hkeeps.tasks i _ hfinished with ⟨item, -, htells⟩ | ⟨x, -, ho⟩
    · obtain ⟨h, hmem, d, expected, actual, rfl⟩ := htells.conflict.mp hfailed
      obtain ⟨later, earlier, hsplit⟩ := List.append_of_mem (mem_past.mp hmem).1
      obtain ⟨a, ha, htask, -⟩ := exists_attempt hallows ⟨later, hsplit.symm⟩
      exact ⟨a, ha, htask⟩
    · obtain rfl := Task.finished.inj ho
      obtain ⟨failure, ⟨⟩, -⟩ := hfailed
  · intro key version among hrivals a ha hamong
    rcases first_to_save hallows hrecorded hplace hrivals ha hamong with ⟨hfirst, haccepted⟩ |
      ⟨hlate, hovertaken⟩
    · have hnot : ¬ guard.Overtaken a := by
        rw [← hrefused a ha]
        rintro ⟨expected, actual, hreply⟩
        obtain ⟨ack, hack⟩ := haccepted
        rw [hack] at hreply
        cases hreply
      refine ⟨iff_of_true haccepted hfirst, fun o hfinished => ⟨?_, ?_⟩⟩
      · exact iff_of_true ((tells_of_finished ha hkeeps hfinished).2 haccepted) hfirst
      · exact (hconflict a ha o hfinished).trans
          (iff_of_false hnot (fun hlate => hlate hfirst))
    · refine ⟨iff_of_false ?_ hlate, fun o hfinished => ⟨?_, ?_⟩⟩
      · rintro ⟨ack, hack⟩
        obtain ⟨expected, actual, hreply⟩ := (hrefused a ha).mpr hovertaken
        rw [hack] at hreply
        cases hreply
      · obtain ⟨failure, rfl, -⟩ := (hconflict a ha o hfinished).mpr hovertaken
        exact iff_of_false (by simp) hlate
      · exact (hconflict a ha o hfinished).trans (iff_of_true hovertaken hlate)
  · intro a ha halone o hfinished hfailed
    obtain ⟨j, d, ack, hother, hmem, -⟩ := (hconflict a ha o hfinished).mp hfailed
    exact hother (halone _ hmem)

/-! ## The store in memory -/

section

variable [DecidableEq K]

/-- What belongs to the stream that it is decided on is written in place. -/
theorem EventSourced.locking_inPlace {d : Decider I S E R} {layout : Layout K I E T}
    (hroutes : layout.Routes d) (latest : I → Store K E T A → Option ExpectedVersion)
    (items : List (Checked I)) (st : Store K E T A) (schedule : List Nat) :
    (Store.guardsEvents layout latest).InPlace ((System.start (locking d) items st).run
      (Store.lockedEvents layout .faithful latest) schedule).transcript := by
  intro a ha
  have hallows := (System.run_keeps (b := Store.lockedEvents layout .faithful latest)
    (locking_kept d) items st schedule).calls
  obtain ⟨c, -, history, hpast, ⟨hne, s, -, hattempt⟩, -⟩ :=
    hallows a.task _ (.write a.write) a.earlier ha.suffix rfl
  obtain ⟨hfetched, -⟩ := List.cons.inj (ha.alone.symm.trans hpast)
  obtain ⟨rfl, -⟩ := Happening.fetched.inj hfetched
  obtain ⟨e, rest, hbatch⟩ := List.exists_cons_of_ne_nil hne
  rw [hbatch] at hattempt
  have hkey := hroutes _ s e rest (Decider.attempt_eq_ok.mp hattempt).2
  show a.write.1.head?.map layout.ofEvent = some (layout.ofInput a.input)
  rw [hbatch, ← hkey]
  rfl

/-- So is what belongs to the slot of the input that led to it. -/
theorem Replaces.inPlace {e : Engine (Exchange.lockedStates I S) (Failure C R) I (S × Version)}
    {initial : Checked S} {leads : I → S → S → Prop} {layout : Layout K I T S}
    (he : Replaces e initial leads)
    (hleads : ∀ i s s', leads i s s' → layout.ofState s' = layout.ofInput i)
    (latest : I → Store K T S A → Option ExpectedVersion) (items : List (Checked I))
    (st : Store K T S A) (schedule : List Nat) :
    (Store.guardsStates layout latest).InPlace ((System.start e items st).run
      (Store.lockedStates layout .faithful latest) schedule).transcript := by
  intro a ha
  obtain ⟨k, hk, hmay⟩ := he.informed
  obtain ⟨i, -, hknown⟩ := (System.run_keeps (b := Store.lockedStates layout .faithful latest) hk
    items st schedule).calls a.task _ (.write a.write) a.earlier ha.suffix rfl
  obtain ⟨stored, s, version, asked, hpast, -, hstate, -⟩ := hmay _ _ _ _ hknown
  have hinput : a.input = i := by
    rcases hpast with ⟨hpast, -⟩ | hpast
    · exact (Happening.fetched.inj (List.cons.inj (ha.alone.symm.trans hpast)).1).1
    · cases (List.cons.inj (ha.alone.symm.trans hpast)).1
  subst hinput
  exact congrArg some (hleads _ s _ hstate)

end

/-! ## The three engines -/

/-- **Conflicts of versions are exact.** Let a store compare and write in one step, and let what a
call writes belong under the key of its input. In every order of steps the calls of the locking
engines, over histories, states and views, fail with a conflict exactly where another call saved
under their key between their fetch and their save. -/
theorem version_conflicts_are_exact (d : Decider C S E R) (v : View T F) :
    (∀ (ω K : Type) (b : Backend (Exchange.lockedEvents C E) ω) (guard : Guard b .events K)
      (items : List (Checked C)) (w : ω) (schedule : List Nat),
      let s := (System.start (EventSourced.locking d) items w).run b schedule
      guard.InPlace s.transcript → ExactConflicts guard items s) ∧
    (∀ (ω K : Type) (b : Backend (Exchange.lockedStates C S) ω) (guard : Guard b .states K)
      (items : List (Checked C)) (w : ω) (schedule : List Nat),
      let s := (System.start (StateStored.locking d) items w).run b schedule
      guard.InPlace s.transcript → ExactConflicts guard items s) ∧
    ∀ (ω K : Type) (b : Backend (Exchange.lockedStates F T) ω) (guard : Guard b .states K)
      (items : List (Checked F)) (w : ω) (schedule : List Nat),
      let s := (System.start (Projection.locking v) items w).run b schedule
      guard.InPlace s.transcript → ExactConflicts guard items s :=
  ⟨fun _ _ _ guard => conflicts_exact guard (EventSourced.locking_checks d),
    fun _ _ _ guard => conflicts_exact guard (StateStored.locking_checks d),
    fun _ _ _ guard => conflicts_exact guard (Projection.locking_checks v)⟩

/-- Two bookings on one account, where the second call comes too late, and one on another. -/
theorem late_booking_conflicts :
    let items : List (Checked Account.Entry) := [.ok (1, 5), .ok (1, 7), .ok (2, 3)]
    let st : Store Nat Account.Entry Account.Entry Empty := .empty
    let schedule := [0, 0, 1, 1, 2, 2] ++ List.replicate 6 0 ++ List.replicate 6 1 ++
      List.replicate 6 2
    let slots := Store.lockedStates Account.layout .faithful fun _ _ => none
    let histories := (System.start (EventSourced.locking Account.decider) items st).run
      (Store.lockedEvents Account.layout .faithful fun _ _ => none) schedule
    let states := (System.start (StateStored.locking Account.decider) items st).run slots schedule
    let views := (System.start (Projection.locking Account.view) items st).run slots schedule
    let late : StoreError := .versionMismatch .noStream (some ⟨1⟩)
    (ExactConflicts (Store.guardsEvents Account.layout fun _ _ => none) items histories ∧
      .failed (.storeFailed (1, 7) late) ∈ histories.outcomes) ∧
    (ExactConflicts (Store.guardsStates Account.layout fun _ _ => none) items states ∧
      .failed (.storeFailed (1, 7) late) ∈ states.outcomes) ∧
    ExactConflicts (Store.guardsStates Account.layout fun _ _ => none) items views ∧
      .failed (.storeFailed (1, 7) late) ∈ views.outcomes := by
  intro items st schedule slots histories states views late
  obtain ⟨hevents, hstates, hview⟩ := version_conflicts_are_exact Account.decider Account.view
  refine ⟨⟨?_, by decide⟩, ⟨?_, by decide⟩, ?_, by decide⟩
  · exact hevents _ _ _ _ items st schedule
      (EventSourced.locking_inPlace Account.routes _ items st schedule)
  · exact hstates _ _ _ _ items st schedule
      ((StateStored.locking_replaces _).inPlace Account.turns _ items st schedule)
  · exact hview _ _ _ _ items st schedule
      ((Projection.locking_replaces _).inPlace Account.view_evolves _ items st schedule)

end EventMachines
