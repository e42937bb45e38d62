import EventMachines.Proofs.Execution.Grounds
import EventMachines.Proofs.Execution.Numbering

/-!
The grounds of the engines that do not orchestrate. A decider stands behind the failures that are no
call's, with the state in which it was asked; a view stands behind none; and where deliveries are
numbered, a number that is not the next one is refused right after the fetch.

* `Decider.grounds`, `View.grounds`, `Grounds.numbered`: what the machines and the numbers give;
* `Grounds.Turns`: a call that begins with what it fetched and then has its turn; `Turns.endsIn`,
  `Turns.numbered`: the courses of such calls;
* `EventSourced.plain_attributes` and the like: the eight engines of a single round.
-/

namespace EventMachines

open Program hiding bind

variable {P : Exchange} {C I S E R T X A : Type}

/-! ## Machines -/

/-- The command is tried in the state that the data fetched for it last amounts to. -/
def TriedOn (state : P.Read → Checked S) (c : P.Input) (s : S) (past : List (Happening P)) : Prop :=
  ∃ stored earlier, past = .fetched c (.ok (.ok stored)) :: earlier ∧ state stored = .ok s

/-- A decider refuses a command in the state that the command is tried in. -/
def Decider.grounds (d : Decider P.Input S E R)
    (tried : P.Input → S → List (Happening P) → Prop) : Grounds P R where
  terminal c past := ∃ s, tried c s past ∧ d.isTerminal c s = .ok true
  rejected c reason past :=
    ∃ s, tried c s past ∧ d.isTerminal c s = .ok false ∧ d.decide c s = .ok (.error reason)
  deep _ _ _ := False
  refused _ _ := False
  broken _ _ := ¬ d.Answers
  mismatch := False.elim

/-- No function of the view fails. -/
structure View.Answers (v : View S E) : Prop where
  evolve : ∀ s e, ∃ s', v.evolve s e = .ok s'
  initial : ∃ s, v.initial = .ok s

/-- A view refuses nothing. -/
def View.grounds (v : View S E) : Grounds P Empty where
  terminal _ _ := False
  rejected _ _ _ := False
  deep _ _ _ := False
  refused _ _ := False
  broken _ _ := ¬ v.Answers
  mismatch := False.elim

/-- A delivery is refused where the check refuses its number, and breaks off where there is no next
number at all. -/
def Grounds.numbered (g : Grounds (Exchange.numberedStates I S) R) (initial : Checked S)
    (sequence : SequenceNumber) : Grounds (Exchange.numberedStates I S) R :=
  { g with
    refused := fun stored e => ∃ s last, storedOr initial stored = .ok (s, last) ∧
      sequence.check last = .ok (.error e)
    broken := fun x past => g.broken x past ∨ x = .addOverflow ∧ ∃ i stored,
      past = [.fetched i (.ok (.ok stored))] ∧
      SequenceNumber.count (Store.numberOf stored) + 1 = UInt64.size
    mismatch := by
      rintro stored e ⟨s, last, -, hcheck⟩
      obtain ⟨next, -, -, rfl⟩ := SequenceNumber.check_eq_error.mp hcheck
      exact ⟨next, sequence, rfl⟩ }

namespace Grounds

/-- Where a call does not begin with what it fetched, or does not bring its turn to an end, that is
grounded. -/
structure Turns (g : Grounds P R) (A : Type) (begin : Checked T)
    (turn : T → Outcome (Failure P.Input R) X) (past : List (Happening P)) : Prop where
  begins : ∀ x, begin = .error x → g.broken x past
  fails : ∀ t e, begin = .ok t → turn t = .failed e → g.Holds (.failed e : Outcome _ A) past
  breaks : ∀ t x, begin = .ok t → turn t = .broken x → g.broken x past

theorem Covers.of_holds {g : Grounds P R} {o : Outcome (Failure P.Input R) A}
    {past : List (Happening P)} (hrefused : ∀ stored e, ¬ g.refused stored e)
    (h : g.Holds o past) : g.Covers o past :=
  ⟨h, fun _ _ ⟨_, _, hstored⟩ => absurd hstored (hrefused _ _)⟩

theorem Turns.endsIn {g : Grounds P R} {begin : Checked T}
    {turn : T → Outcome (Failure P.Input R) X} {next : T → X → Course P (Failure P.Input R)}
    {past : List (Happening P)} (h : g.Turns P.Ack begin turn past)
    (hrefused : ∀ stored e, ¬ g.refused stored e)
    (hnext : ∀ t x, (next t x).EndsIn fun o => ∃ answer, o = .done answer) :
    ((Outcome.ofChecked begin).course fun t => (turn t).course (next t)).EndsIn
      fun o => g.Covers o past := by
  refine .of_course (fun t ht => .of_course (fun x hx => ?_) (fun e he => ?_) fun x hx => ?_)
    (fun e he => ?_) fun x hx => ?_
  · have hends := hnext t x
    cases hcourse : next t x with
    | ends o =>
      rw [hcourse] at hends
      obtain ⟨answer, rfl⟩ := hends
      exact .of_holds hrefused trivial
    | writes data => trivial
  · exact .of_holds hrefused (h.fails t e (Outcome.ofChecked_eq_done.mp ht) he)
  · exact .of_holds hrefused (h.breaks t x (Outcome.ofChecked_eq_done.mp ht) hx)
  · cases begin <;> cases he
  · refine .of_holds hrefused (h.begins x ?_)
    cases begin <;> cases hx
    rfl

section

variable {g : Grounds (Exchange.numberedStates I S) R} {initial : Checked S}
  {sequence : SequenceNumber} {i : I} {stored : Option (S × SequenceNumber)}

theorem Holds.numbered {o : Outcome (Failure I R) A}
    {past : List (Happening (Exchange.numberedStates I S))}
    (hrefused : ∀ stored e, ¬ g.refused stored e) (h : g.Holds o past) :
    (g.numbered initial sequence).Holds o past := by
  rcases o with answer | (_ | _ | ⟨j, e⟩ | _ | _ | _) | x
  case failed.storeFailed =>
    obtain ⟨stored, -, hstored⟩ := h
    exact absurd hstored (hrefused stored e)
  case broken => exact .inl h
  all_goals exact h

/-- A call with a number refuses exactly what the check does. -/
theorem refuses_numbered {j : I} {e : StoreError} :
    (g.numbered initial sequence).Refuses j e [.fetched i (.ok (.ok stored))] ↔
      j = i ∧ ∃ s last, storedOr initial stored = .ok (s, last) ∧
        sequence.check last = .ok (.error e) := by
  constructor
  · rintro ⟨stored', hpast, hrefused⟩
    cases hpast
    exact ⟨rfl, hrefused⟩
  · rintro ⟨rfl, hrefused⟩
    exact ⟨stored, rfl, hrefused⟩

theorem Turns.numbered {becomes : S → Outcome (Failure I R) S}
    (h : g.Turns (S × SequenceNumber) (storedOr initial stored) (fun t => becomes t.1)
      [.fetched i (.ok (.ok stored))])
    (hrefused : ∀ stored e, ¬ g.refused stored e) :
    (Course.updateMarked initial (sequence.admitted i) becomes (fun _ => sequence) stored :
        Course (Exchange.numberedStates I S) (Failure I R)).EndsIn
      fun o => (g.numbered initial sequence).Covers o [.fetched i (.ok (.ok stored))] := by
  rw [Course.updateMarked]
  rcases hstored : storedOr initial stored with x | ⟨s, last⟩
  · refine ⟨.numbered hrefused (h.begins x hstored), fun j e hrefuses => ?_⟩
    obtain ⟨-, s, last, hbegun, -⟩ := refuses_numbered.mp hrefuses
    cases hstored.symm.trans hbegun
  · -- a number that is not refused leaves the end to the turn
    have hturn : ∀ o : Outcome (Failure I R) (S × SequenceNumber),
        (∀ e, sequence.check last ≠ .ok (.error e)) →
        (g.numbered initial sequence).Holds o [.fetched i (.ok (.ok stored))] →
        (g.numbered initial sequence).Covers o [.fetched i (.ok (.ok stored))] := by
      refine fun o hchecked hholds => ⟨hholds, fun j e hrefuses => ?_⟩
      obtain ⟨-, s', last', hbegun, hrefused⟩ := refuses_numbered.mp hrefuses
      cases hstored.symm.trans hbegun
      exact absurd hrefused (hchecked e)
    show (Outcome.course (sequence.admitted i last) _).EndsIn _
    rw [SequenceNumber.admitted]
    rcases hcheck : sequence.check last with x | e | ⟨⟩
    · obtain ⟨rfl, hsize⟩ := SequenceNumber.check_fault.mp hcheck
      refine hturn _ (by simp [hcheck]) (.inr ⟨rfl, i, stored, rfl, ?_⟩)
      rw [Store.numberOf, storedOr_token hstored]
      exact hsize
    · refine ⟨refuses_numbered.mpr ⟨rfl, s, last, hstored, hcheck⟩, fun j e' hrefuses => ?_⟩
      obtain ⟨rfl, s', last', hbegun, hrefused⟩ := refuses_numbered.mp hrefuses
      cases hstored.symm.trans hbegun
      cases hcheck.symm.trans hrefused
      rfl
    · show ((becomes s).course _).EndsIn _
      refine .of_course (fun s' _ => trivial) (fun e he => ?_) fun x hx => ?_
      · exact hturn _ (by simp [hcheck]) (.numbered hrefused (h.fails _ e hstored he))
      · exact hturn _ (by simp [hcheck]) (.inl (h.breaks _ x hstored hx))

end

end Grounds

section

variable {d : Decider P.Input S E R} {tried : P.Input → S → List (Happening P) → Prop} {c : P.Input}
  {past : List (Happening P)}

theorem Decider.holds_of_attempt {s : S} {e : Failure P.Input R} (htried : tried c s past)
    (h : d.attempt c s = .ok (.error e)) :
    (d.grounds tried).Holds (.failed e : Outcome (Failure P.Input R) A) past := by
  rcases Decider.attempt_eq_error.mp h with ⟨hterminal, rfl⟩ | ⟨hterminal, reason, hdecide, rfl⟩
  · exact ⟨s, htried, hterminal⟩
  · exact ⟨s, htried, hterminal, hdecide⟩

variable {begin : Checked T} {state : T → S}

/-- What a command decides or makes of a state fails only with what the decider refuses. -/
theorem Decider.turns {turn : S → Outcome (Failure P.Input R) X}
    (hfailed : ∀ s e, turn s = .failed e → d.attempt c s = .ok (.error e))
    (hbroken : d.Answers → ∀ s x, turn s ≠ .broken x)
    (hbegin : d.Answers → ∃ t, begin = .ok t)
    (htried : ∀ t, begin = .ok t → tried c (state t) past) :
    (d.grounds tried).Turns A begin (fun t => turn (state t)) past where
  begins x hx hanswers := by
    obtain ⟨t, ht⟩ := hbegin hanswers
    cases hx.symm.trans ht
  fails t e ht he := holds_of_attempt (htried t ht) (hfailed _ e he)
  breaks t x _ hx hanswers := hbroken hanswers _ x hx

end

theorem Decider.decides_eq_failed {d : Decider C S E R} {c : C} {s : S} {e : Failure C R} :
    d.decides c s = .failed e ↔ d.attempt c s = .ok (.error e) := by
  rw [decides]
  rcases d.attempt c s with x | e' | events <;> simp [Outcome.ofResult]

theorem Decider.Answers.decides_ne {d : Decider C S E R} (hd : d.Answers) (c : C) (s : S)
    (x : Fault) : d.decides c s ≠ .broken x := by
  obtain ⟨answer, hattempt⟩ := hd.attempt c s
  rw [Decider.decides, hattempt]
  cases answer <;> simp [Outcome.ofResult]

theorem exists_storedOr {initial : Checked S} (h : ∃ s, initial = .ok s) (stored : Option (S × T)) :
    ∃ t, storedOr initial stored = .ok t := by
  obtain ⟨s, hs⟩ := h
  cases stored with
  | none => exact ⟨(s, none), Checked.bind_eq_ok.mpr ⟨s, hs, rfl⟩⟩
  | some stored => exact ⟨_, rfl⟩

/-- The state of a history that comes with versions. -/
def Decider.replayLocked (d : Decider C S E R) (history : List (E × Version)) : Checked S :=
  d.replay (history.map (·.1))

/-- The state of a slot, or the initial one of an empty slot. -/
def slotState (initial : Checked S) (stored : Option (S × T)) : Checked S :=
  (·.1) <$> storedOr initial stored

theorem slotState_of_storedOr {initial : Checked S} {stored : Option (S × T)} {t : S × Option T}
    (h : storedOr initial stored = .ok t) : slotState initial stored = .ok t.1 := by
  rw [slotState, h]
  rfl

/-! ## The engines of a single round -/

namespace EventSourced

/-- The history, with or without versions, is folded into the state that the command is tried in. -/
theorem course_covers (d : Decider C S E R) (c : C) (history : List E)
    (past : List (Happening (Exchange.events C E))) :
    (course d c history).EndsIn fun o =>
      (d.grounds (TriedOn d.replay)).Covers o (.fetched c (.ok (.ok history)) :: past) := by
  refine Grounds.Turns.endsIn ?_ (fun _ _ => id) fun s events => ?_
  · exact Decider.turns (fun s e => Decider.decides_eq_failed.mp) (fun hd => hd.decides_ne c)
      (fun hd => hd.replay history) fun s hs => ⟨history, past, rfl, hs⟩
  · cases events with
    | nil => exact ⟨[], rfl⟩
    | cons e events => trivial

theorem courseAsked_covers (d : Decider C S E R) (c : C) (asked : Option ExpectedVersion)
    (history : List (E × Version)) (past : List (Happening (Exchange.lockedEvents C E))) :
    (courseAsked d c asked history).EndsIn fun o =>
      (d.grounds (TriedOn d.replayLocked)).Covers o (.fetched c (.ok (.ok history)) :: past) := by
  refine Grounds.Turns.endsIn ?_ (fun _ _ => id) fun s events => ?_
  · exact Decider.turns (fun s e => Decider.decides_eq_failed.mp) (fun hd => hd.decides_ne c)
      (fun hd => hd.replay _) fun s hs => ⟨history, past, rfl, hs⟩
  · cases events with
    | nil => exact ⟨[], rfl⟩
    | cons e events => trivial

theorem plain_attributes (d : Decider C S E R) :
    (plain d).Settles ∧ (plain d).Attributes fun _ => d.grounds (TriedOn d.replay) :=
  Engine.attributes_of_once (fun c => unnoted_execute d c) fun c history =>
    course_covers d c history []

theorem locking_attributes (d : Decider C S E R) :
    (locking d).Settles ∧ (locking d).Attributes fun _ => d.grounds (TriedOn d.replayLocked) :=
  Engine.attributes_of_once (fun c => unnoted_executeLocking d c) fun c history =>
    courseAsked_covers d c none history []

end EventSourced

namespace StateStored

/-- What a slot holds is the state that the command is tried in. -/
theorem slot_turns (d : Decider C S E R) (c : C) (stored : Option (S × T))
    (past : List (Happening ⟨C, Option (S × T), X, S × T⟩)) :
    (d.grounds (TriedOn (slotState d.initial))).Turns A (storedOr d.initial stored)
      (fun t => d.becomes c t.1) (.fetched c (.ok (.ok stored)) :: past) :=
  Decider.turns (fun _ _ => Decider.becomes_eq_failed.mp) (fun hd => hd.becomes_ne c)
    (fun hd => exists_storedOr hd.initial stored)
    fun _ ht => ⟨stored, past, rfl, slotState_of_storedOr ht⟩

theorem plain_attributes (d : Decider C S E R) :
    (plain d).Settles ∧ (plain d).Attributes fun _ => d.grounds (TriedOn d.current) := by
  refine Engine.attributes_of_once (fun c => unnoted_plain d c) fun c stored => ?_
  refine Grounds.Turns.endsIn ?_ (fun _ _ => id) fun _ _ => trivial
  exact Decider.turns (fun s e => Decider.becomes_eq_failed.mp) (fun hd => hd.becomes_ne c)
    (fun hd => hd.current stored) fun s hs => ⟨stored, [], rfl, hs⟩

theorem locking_attributes (d : Decider C S E R) :
    (locking d).Settles ∧
      (locking d).Attributes fun _ => d.grounds (TriedOn (slotState d.initial)) := by
  rw [locking_eq]
  refine Engine.attributes_of_once (unnoted_updateLocked _ _ (compute_computes d))
    fun c stored => ?_
  exact (slot_turns d c stored []).endsIn (fun _ _ => id) fun _ _ => trivial

theorem deduplicating_attributes (d : Decider C S E R) :
    (deduplicating d).Settles ∧ (deduplicating d).Attributes fun item =>
      (d.grounds (TriedOn (slotState d.initial))).numbered d.initial item.2 := by
  rw [deduplicating_eq]
  refine Engine.attributes_of_once
    (fun item => unnoted_updateNumbered _ _ _ (compute_computes d) item.1 item.2)
    fun item stored => ?_
  exact (slot_turns d item.1 stored []).numbered fun _ _ => id

end StateStored

/-- A view that answers folds an event into whatever is stored. -/
theorem View.Answers.newState {v : View S E} (hv : v.Answers) (stored : Option S) (e : E) :
    ∃ s, v.newState stored [e] = .ok s := by
  have hcurrent : ∃ s, v.current stored = .ok s := by
    cases stored with
    | none => exact hv.initial
    | some s => exact ⟨s, rfl⟩
  obtain ⟨s, hs⟩ := hcurrent
  obtain ⟨s', hs'⟩ := hv.evolve s e
  exact ⟨s', Checked.bind_eq_ok.mpr ⟨s, hs, Checked.bind_eq_ok.mpr ⟨s', hs', rfl⟩⟩⟩

theorem View.turns {v : View S E} {begin : Checked T} {turn : T → Outcome (Failure P.Input Empty) X}
    {past : List (Happening P)} (hbegin : v.Answers → ∃ t, begin = .ok t)
    (hfailed : ∀ t e, turn t ≠ .failed e) (hbroken : v.Answers → ∀ t x, turn t ≠ .broken x) :
    v.grounds.Turns A begin turn past where
  begins x hx hanswers := by
    obtain ⟨t, ht⟩ := hbegin hanswers
    cases hx.symm.trans ht
  fails t e _ he := absurd he (hfailed t e)
  breaks t x _ hx hanswers := hbroken hanswers t x hx

namespace Projection

/-- The view folds an event into what a slot holds. -/
theorem slot_turns (v : View S E) (e : E) (stored : Option (S × T))
    (past : List (Happening ⟨E, Option (S × T), X, S × T⟩)) :
    v.grounds.Turns A (storedOr v.initial stored)
      (fun t => (.ofChecked (v.evolve t.1 e) : Outcome (Failure E Empty) S)) past := by
  refine View.turns (fun hv => exists_storedOr hv.initial stored) (fun t e' => ?_) fun hv t x => ?_
  · cases v.evolve t.1 e <;> simp [Outcome.ofChecked]
  · obtain ⟨s', hs'⟩ := hv.evolve t.1 e
    simp [hs', Outcome.ofChecked]

theorem plain_attributes (v : View S E) :
    (plain v).Settles ∧ (plain v).Attributes fun _ => v.grounds := by
  refine Engine.attributes_of_once (fun e => unnoted_plain v e) fun e stored => ?_
  refine Grounds.Turns.endsIn ?_ (fun _ _ => id) fun _ _ => trivial
  exact View.turns (fun hv => hv.newState stored e) (by simp) (by simp)

theorem locking_attributes (v : View S E) :
    (locking v).Settles ∧ (locking v).Attributes fun _ => v.grounds := by
  rw [locking_eq]
  refine Engine.attributes_of_once (unnoted_updateLocked _ _ fun _ _ => ofChecked_computes _)
    fun e stored => ?_
  exact (slot_turns v e stored _).endsIn (fun _ _ => id) fun _ _ => trivial

theorem deduplicating_attributes (v : View S E) :
    (deduplicating v).Settles ∧ (deduplicating v).Attributes fun item =>
      v.grounds.numbered v.initial item.2 := by
  rw [deduplicating_eq]
  refine Engine.attributes_of_once
    (fun item => unnoted_updateNumbered _ _ _ (fun _ _ => ofChecked_computes _) item.1 item.2)
    fun item stored => ?_
  exact (slot_turns v item.1 stored _).numbered fun _ _ => id

end Projection

end EventMachines
