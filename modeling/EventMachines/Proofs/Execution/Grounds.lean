import EventMachines.Proofs.Execution.Accepted
import EventMachines.Proofs.Execution.Once

/-!
What stands behind a failure. The calls made for an item end with the first that the store does not
answer with data, and then the failure names that call. Every other failure comes after calls that
all succeeded, and has its own grounds.

* `Grounds`: what the failures that are no call's are grounded in;
* `Grounds.Explains`, `Grounds.Attributed`: how an item ends given its calls, and what its end and
  its calls tell of each other; `Explains.attributed`: the one gives the other;
* `Engine.Attributes`: so it is with every item of an engine, whoever else is at work;
* `attributes_of_once`: an engine of one fetch and one write is of that kind if its courses are
  grounded.
-/

namespace EventMachines

open Program hiding bind

variable {P : Exchange} {I S R A Item ω : Type}

namespace Happening

/-- The store did not answer the call with data. -/
def fails : Happening P → Bool
  | fetched _ (.ok (.ok _)) | wrote _ (.ok (.ok _)) => false
  | fetched _ _ | wrote _ _ => true
  | noted _ | consulted _ _ => false

/-- The fault that the store broke off with. -/
def fault? : Happening P → Option Fault
  | fetched _ (.error x) | wrote _ (.error x) => some x
  | _ => none

def fetched? : Happening P → Option P.Input
  | fetched i _ => some i
  | _ => none

end Happening

/-- The input that data was asked for last, given the calls made so far, the newest first. -/
def lastFetched (past : List (Happening P)) : Option P.Input :=
  past.findSome? Happening.fetched?

/-! ## Ends and calls -/

/-- What the failures that are no call's are grounded in. What is refused is a number, right after
what was read; all others are told of the calls made so far. -/
structure Grounds (P : Exchange) (R : Type) where
  terminal : P.Input → List (Happening P) → Prop
  rejected : P.Input → R → List (Happening P) → Prop
  deep : P.Input → Nat → List (Happening P) → Prop
  refused : P.Read → StoreError → Prop
  broken : Fault → List (Happening P) → Prop
  mismatch : ∀ {stored e}, refused stored e →
    ∃ expected actual, e = .sequenceMismatch expected actual

namespace Grounds

/-- All that was done is a fetch, and the number is refused after it. -/
def Refuses (g : Grounds P R) (i : P.Input) (e : StoreError) (past : List (Happening P)) : Prop :=
  ∃ stored, past = [.fetched i (.ok (.ok stored))] ∧ g.refused stored e

def Holds (g : Grounds P R) : Outcome (Failure P.Input R) A → List (Happening P) → Prop
  | .done _, _ => True
  | .failed (.terminal c), past => g.terminal c past
  | .failed (.rejected c reason), past => g.rejected c reason past
  | .failed (.depthExceeded c depth), past => g.deep c depth past
  | .failed (.storeFailed i e), past => g.Refuses i e past
  | .failed (.fetchFailed _ _), _ => False
  | .failed (.publishingFailed _ _), _ => False
  | .broken x, past => g.broken x past

/-- The end is grounded, and it is the one that a refused number leads to. -/
structure Covers (g : Grounds P R) (o : Outcome (Failure P.Input R) A)
    (past : List (Happening P)) : Prop where
  holds : g.Holds o past
  refused : ∀ i e, g.Refuses i e past → o = .failed (.storeFailed i e)

/-- How an item ends after its calls, the newest first: all of them succeeded and the end is
grounded, or the newest one failed or broke off. -/
inductive Explains (g : Grounds P R) :
    Outcome (Failure P.Input R) A → List (Happening P) → Prop
  | own {o : Outcome (Failure P.Input R) A} {past : List (Happening P)}
      (succeeded : ∀ h ∈ past, h.fails = false) (covers : g.Covers o past) : Explains g o past
  | unread {i : P.Input} {e : StoreError} {past : List (Happening P)}
      (succeeded : ∀ h ∈ past, h.fails = false) :
      Explains g (.failed (.fetchFailed i e)) (.fetched i (.ok (.error e)) :: past)
  | unsaved {i : P.Input} {e : StoreError} {data : P.Write} {past : List (Happening P)}
      (succeeded : ∀ h ∈ past, h.fails = false) (last : lastFetched past = some i) :
      Explains g (.failed (.storeFailed i e)) (.wrote data (.ok (.error e)) :: past)
  | fetchBroke {i : P.Input} {x : Fault} {past : List (Happening P)}
      (succeeded : ∀ h ∈ past, h.fails = false) :
      Explains g (.broken x) (.fetched i (.error x) :: past)
  | writeBroke {data : P.Write} {x : Fault} {past : List (Happening P)}
      (succeeded : ∀ h ∈ past, h.fails = false) :
      Explains g (.broken x) (.wrote data (.error x) :: past)

/-- What the end of an item and its calls, the newest first, tell of each other. -/
structure Attributed (g : Grounds P R) (o : Outcome (Failure P.Input R) A)
    (past : List (Happening P)) : Prop where
  /-- No call is made after one that failed. -/
  last : ∀ h ∈ past.tail, h.fails = false
  done : ∀ answer, o = .done answer → ∀ h ∈ past, h.fails = false
  fetchFailed : ∀ i e, o = .failed (.fetchFailed i e) ↔
    past.head? = some (.fetched i (.ok (.error e)))
  storeFailed : ∀ e, (∃ i, o = .failed (.storeFailed i e)) ↔
    (∃ data, past.head? = some (.wrote data (.ok (.error e)))) ∨ ∃ i, g.Refuses i e past
  storeInput : ∀ i e, o = .failed (.storeFailed i e) → lastFetched past = some i
  terminal : ∀ c, o = .failed (.terminal c) → (∀ h ∈ past, h.fails = false) ∧ g.terminal c past
  rejected : ∀ c reason, o = .failed (.rejected c reason) →
    (∀ h ∈ past, h.fails = false) ∧ g.rejected c reason past
  depthExceeded : ∀ c depth, o = .failed (.depthExceeded c depth) →
    (∀ h ∈ past, h.fails = false) ∧ g.deep c depth past
  unpublished : ∀ i cause, o ≠ .failed (.publishingFailed i cause)
  broken : ∀ x, o = .broken x → (past.head?.bind Happening.fault?) = some x ∨ g.broken x past
  versionConflict : (∃ e, o = .failed e ∧ e.isVersionConflict = true) ↔
    ∃ data expected actual, .wrote data (.ok (.error (.versionMismatch expected actual))) ∈ past
  duplicate : (∃ e, o = .failed e ∧ e.isDuplicate = true) ↔
    (∃ data expected actual,
      .wrote data (.ok (.error (.sequenceMismatch expected actual))) ∈ past) ∨
      ∃ i e, g.Refuses i e past

end Grounds

theorem Failure.isVersionConflict_iff {e : Failure I R} :
    e.isVersionConflict = true ↔
      ∃ i expected actual, e = .storeFailed i (.versionMismatch expected actual) := by
  unfold isVersionConflict
  split <;> simp_all

theorem Failure.isDuplicate_iff {e : Failure I R} :
    e.isDuplicate = true ↔
      ∃ i expected actual, e = .storeFailed i (.sequenceMismatch expected actual) := by
  unfold isDuplicate
  split <;> simp_all

namespace Grounds

variable {g : Grounds P R} {o : Outcome (Failure P.Input R) A} {past : List (Happening P)}

theorem not_refuses {i : P.Input} {e : StoreError} {h : Happening P} (hfails : h.fails = true) :
    ¬ g.Refuses i e (h :: past) := by
  rintro ⟨stored, hpast, -⟩
  obtain ⟨rfl, -⟩ := List.cons.inj hpast
  cases hfails

theorem not_mem_of_succeeded {h : Happening P} (succeeded : ∀ h ∈ past, h.fails = false)
    (hfails : h.fails = true) : h ∉ past := by
  intro hmem
  rw [succeeded h hmem] at hfails
  cases hfails

namespace Explains

/-- A write that is acknowledged ends well: it was no fetch, so no number is refused after it. -/
theorem written {data : P.Write} {ack : P.Ack} (answer : A)
    (succeeded : ∀ h ∈ past, h.fails = false) :
    g.Explains (.done answer) (.wrote data (.ok (.ok ack)) :: past) := by
  refine .own (List.forall_mem_cons.mpr ⟨rfl, succeeded⟩) ⟨trivial, ?_⟩
  rintro i e ⟨stored, hpast, -⟩
  cases hpast

/-- No call is made after one that failed. -/
theorem last (h : g.Explains o past) : ∀ call ∈ past.tail, call.fails = false := by
  cases h with
  | own succeeded => exact fun call hcall => succeeded call (List.mem_of_mem_tail hcall)
  | unread succeeded | unsaved succeeded | fetchBroke succeeded | writeBroke succeeded =>
    exact succeeded

/-- An end that is no call's comes after calls that succeeded. -/
theorem owned (h : g.Explains o past)
    (hfetch : ∀ i e, o ≠ .failed (.fetchFailed i e))
    (hstore : ∀ i e, o ≠ .failed (.storeFailed i e)) (hbroken : ∀ x, o ≠ .broken x) :
    (∀ call ∈ past, call.fails = false) ∧ g.Holds o past := by
  cases h with
  | own succeeded covers => exact ⟨succeeded, covers.holds⟩
  | unread => exact absurd rfl (hfetch _ _)
  | unsaved => exact absurd rfl (hstore _ _)
  | fetchBroke | writeBroke => exact absurd rfl (hbroken _)

theorem fetchFailed (h : g.Explains o past) {i : P.Input} {e : StoreError} :
    o = .failed (.fetchFailed i e) ↔ past.head? = some (.fetched i (.ok (.error e))) := by
  constructor
  · rintro rfl
    cases h with
    | own _ covers => exact covers.holds.elim
    | unread => rfl
  · intro hhead
    cases h with
    | own succeeded =>
      exact absurd (List.mem_of_mem_head? hhead) (not_mem_of_succeeded succeeded rfl)
    | unread =>
      cases hhead
      rfl
    | unsaved | fetchBroke | writeBroke => cases hhead

/-- Where a write failed, the end names its error. -/
theorem of_mem_wrote (h : g.Explains o past) {data : P.Write} {e : StoreError}
    (hmem : .wrote data (.ok (.error e)) ∈ past) : ∃ i, o = .failed (.storeFailed i e) := by
  cases h with
  | own succeeded => exact absurd hmem (not_mem_of_succeeded succeeded rfl)
  | unsaved succeeded =>
    rcases List.mem_cons.mp hmem with hsame | hmem
    · cases hsame
      exact ⟨_, rfl⟩
    · exact absurd hmem (not_mem_of_succeeded succeeded rfl)
  | unread succeeded | fetchBroke succeeded | writeBroke succeeded =>
    rcases List.mem_cons.mp hmem with hsame | hmem
    · cases hsame
    · exact absurd hmem (not_mem_of_succeeded succeeded rfl)

theorem of_refuses (h : g.Explains o past) {i : P.Input} {e : StoreError}
    (hrefuses : g.Refuses i e past) : o = .failed (.storeFailed i e) := by
  cases h with
  | own _ covers => exact covers.refused i e hrefuses
  | unread | unsaved | fetchBroke | writeBroke => exact absurd hrefuses (not_refuses rfl)

theorem storeFailed (h : g.Explains o past) {e : StoreError} :
    (∃ i, o = .failed (.storeFailed i e)) ↔
      (∃ data, past.head? = some (.wrote data (.ok (.error e)))) ∨ ∃ i, g.Refuses i e past := by
  constructor
  · rintro ⟨i, rfl⟩
    cases h with
    | own _ covers => exact .inr ⟨i, covers.holds⟩
    | unsaved => exact .inl ⟨_, rfl⟩
  · rintro (⟨data, hhead⟩ | ⟨i, hrefuses⟩)
    · exact h.of_mem_wrote (List.mem_of_mem_head? hhead)
    · exact ⟨i, h.of_refuses hrefuses⟩

/-- The input of a failed write is the one that was fetched for last. -/
theorem storeInput (h : g.Explains o past) {i : P.Input} {e : StoreError}
    (ho : o = .failed (.storeFailed i e)) : lastFetched past = some i := by
  subst ho
  cases h with
  | own _ covers =>
    obtain ⟨stored, rfl, -⟩ := covers.holds
    rfl
  | unsaved _ last => exact last

theorem broken (h : g.Explains o past) {x : Fault} (hx : o = .broken x) :
    past.head?.bind Happening.fault? = some x ∨ g.broken x past := by
  subst hx
  cases h with
  | own _ covers => exact .inr covers.holds
  | fetchBroke | writeBroke => exact .inl rfl

theorem versionConflict (h : g.Explains o past) :
    (∃ e, o = .failed e ∧ e.isVersionConflict = true) ↔
      ∃ data expected actual,
        .wrote data (.ok (.error (.versionMismatch expected actual))) ∈ past := by
  constructor
  · rintro ⟨e, rfl, hconflict⟩
    obtain ⟨i, expected, actual, rfl⟩ := Failure.isVersionConflict_iff.mp hconflict
    rcases h.storeFailed.mp ⟨i, rfl⟩ with ⟨data, hhead⟩ | ⟨_, stored, -, hrefused⟩
    · exact ⟨data, expected, actual, List.mem_of_mem_head? hhead⟩
    · obtain ⟨_, _, hmismatch⟩ := g.mismatch hrefused
      cases hmismatch
  · rintro ⟨data, expected, actual, hmem⟩
    obtain ⟨i, rfl⟩ := h.of_mem_wrote hmem
    exact ⟨_, rfl, rfl⟩

theorem duplicate (h : g.Explains o past) :
    (∃ e, o = .failed e ∧ e.isDuplicate = true) ↔
      (∃ data expected actual,
        .wrote data (.ok (.error (.sequenceMismatch expected actual))) ∈ past) ∨
        ∃ i e, g.Refuses i e past := by
  constructor
  · rintro ⟨e, rfl, hduplicate⟩
    obtain ⟨i, expected, actual, rfl⟩ := Failure.isDuplicate_iff.mp hduplicate
    rcases h.storeFailed.mp ⟨i, rfl⟩ with ⟨data, hhead⟩ | ⟨i, hrefuses⟩
    · exact .inl ⟨data, expected, actual, List.mem_of_mem_head? hhead⟩
    · exact .inr ⟨i, _, hrefuses⟩
  · rintro (⟨data, expected, actual, hmem⟩ | ⟨i, e, hrefuses⟩)
    · obtain ⟨i, rfl⟩ := h.of_mem_wrote hmem
      exact ⟨_, rfl, rfl⟩
    · refine ⟨_, h.of_refuses hrefuses, ?_⟩
      obtain ⟨stored, -, hrefused⟩ := hrefuses
      obtain ⟨expected, actual, rfl⟩ := g.mismatch hrefused
      rfl

/-- **The end and the calls.** -/
theorem attributed (h : g.Explains o past) : g.Attributed o past where
  last := h.last
  done := by
    rintro answer rfl
    exact (h.owned (by simp) (by simp) (by simp)).1
  fetchFailed _ _ := h.fetchFailed
  storeFailed _ := h.storeFailed
  storeInput _ _ := h.storeInput
  terminal := by
    rintro c rfl
    exact h.owned (by simp) (by simp) (by simp)
  rejected := by
    rintro c reason rfl
    exact h.owned (by simp) (by simp) (by simp)
  depthExceeded := by
    rintro c depth rfl
    exact h.owned (by simp) (by simp) (by simp)
  unpublished := by
    rintro i cause rfl
    exact (h.owned (by simp) (by simp) (by simp)).2
  broken _ := h.broken
  versionConflict := h.versionConflict
  duplicate := h.duplicate

end Explains

end Grounds

/-! ## Engines -/

/-- An item ends as its calls say, whatever the store answers to them: alone, and with other items
at work. -/
structure Engine.Attributes (e : Engine P (Failure P.Input R) Item A)
    (grounds : Item → Grounds P R) : Prop where
  run : ∀ {ω : Type} (b : Backend P ω) (fuel : Nat) (item : Item) (w : ω)
    (r : Run P (Failure P.Input R) A ω), e.handle b fuel item w = some r →
    (grounds item).Attributed r.outcome (calls r.transcript).reverse
  task : ∀ {ω : Type} (b : Backend P ω) (items : List (Checked Item)) (w : ω)
    (schedule : List Nat) (i : Nat) (item : Item) (o : Outcome (Failure P.Input R) A),
    let s := (System.start e items w).run b schedule
    items[i]? = some (.ok item) → s.tasks[i]? = some (.finished o) →
      (grounds item).Attributed o (past i s.transcript)

/-- Every call is allowed and every end explained; what holds between two rounds is up to the
engine. -/
def Protocol.attributing (e : Engine P (Failure P.Input R) Item A) (grounds : Item → Grounds P R)
    (waits : Item → e.Pending → List (Happening P) → Prop) : Protocol e where
  may _ _ _ := True
  ends item o past := (grounds item).Explains o past
  waits := waits

theorem Protocol.Kept.attributes {e : Engine P (Failure P.Input R) Item A}
    {grounds : Item → Grounds P R} (waits : Item → e.Pending → List (Happening P) → Prop)
    (hk : (Protocol.attributing e grounds waits).Kept) : e.Attributes grounds where
  run _ _ _ _ _ hr := (show Grounds.Explains _ _ _ from hk.handle hr).attributed
  task b items w schedule i item o := by
    intro s hitem hfinished
    have hkeeps : s.Keeps _ items := System.run_keeps (b := b) hk items w schedule
    rcases hkeeps.tasks i _ hfinished with ⟨item', hitem', hend⟩ | ⟨x, hitem', -⟩
    · obtain rfl := Except.ok.inj (Option.some.inj (hitem'.symm.trans hitem))
      exact (show Grounds.Explains _ _ _ from hend).attributed
    · cases hitem'.symm.trans hitem

/-! ## One fetch and one write -/

/-- If the course ends by itself, then in such a way. -/
def Course.EndsIn {ε : Type} (ends : Outcome ε P.Ack → Prop) : Course P ε → Prop
  | .ends o => ends o
  | .writes _ => True

theorem Course.EndsIn.of_course {ε : Type} {ends : Outcome ε P.Ack → Prop} {o : Outcome ε S}
    {next : S → Course P ε} (hdone : ∀ s, o = .done s → (next s).EndsIn ends)
    (hfailed : ∀ e, o = .failed e → ends (.failed e))
    (hbroken : ∀ x, o = .broken x → ends (.broken x)) : (o.course next).EndsIn ends := by
  cases o with
  | done s => exact hdone s rfl
  | failed e => exact hfailed e rfl
  | broken x => exact hbroken x rfl

theorem Course.EndsIn.mono {ε : Type} {ends ends' : Outcome ε P.Ack → Prop} {course : Course P ε}
    (h : course.EndsIn ends) (himp : ∀ o, ends o → ends' o) : course.EndsIn ends' := by
  cases course with
  | ends o => exact himp o h
  | writes data => trivial

namespace Grounds

variable {g : Grounds P R}

def contract (g : Grounds P R) (A : Type) : Contract P (Failure P.Input R) A :=
  ⟨fun _ _ => True, g.Explains⟩

/-- A program of one fetch and one write ends as its calls say, if its course is grounded. -/
theorem keeps_contract {i : P.Input} {course : P.Read → Course P (Failure P.Input R)}
    {past : List (Happening P)} (hpast : ∀ h ∈ past, h.fails = false)
    (hcourse : ∀ stored,
      (course stored).EndsIn fun o => g.Covers o (.fetched i (.ok (.ok stored)) :: past)) :
    (once i (.fetchFailed i) (.storeFailed i) course).Keeps (g.contract P.Ack) past := by
  have hread : ∀ stored, ∀ h ∈ Happening.fetched i (.ok (.ok stored)) :: past, h.fails = false :=
    fun stored => List.forall_mem_cons.mpr ⟨rfl, hpast⟩
  refine keeps_once (fun _ _ => trivial) (fun e => .unread hpast) (fun x => .fetchBroke hpast)
    (fun stored o ho => ?_) fun stored data reply _ => ?_
  · have hcovers := hcourse stored
    rw [ho] at hcovers
    exact .own (hread stored) hcovers
  · rcases reply with x | e | ack
    · exact .writeBroke (hread stored)
    · exact .unsaved (hread stored) rfl
    · exact .written ack (hread stored)

end Grounds

/-- The engine comes to an end with every item. -/
def Engine.Settles (e : Engine P (Failure P.Input R) Item A) : Prop :=
  ∀ {ω : Type} (b : Backend P ω) (fuel : Nat) (item : Item) (w : ω),
    ∃ r, e.handle b fuel item w = some r

/-- **One round.** An engine of one fetch and one write settles every item, and attributes the end
to what was called if its courses are grounded. -/
theorem Engine.attributes_of_once {body : Item → Program P (Failure P.Input R) P.Ack}
    {input : Item → P.Input} {course : Item → P.Read → Course P (Failure P.Input R)}
    {grounds : Item → Grounds P R}
    (hbody : ∀ item, (body item).unnoted =
      once (input item) (.fetchFailed (input item)) (.storeFailed (input item)) (course item))
    (hcourse : ∀ item stored, (course item stored).EndsIn fun o =>
      (grounds item).Covers o [.fetched (input item) (.ok (.ok stored))]) :
    (Engine.ofProgram body).Settles ∧ (Engine.ofProgram body).Attributes grounds := by
  refine ⟨fun b fuel item w => ⟨_, handle_ofProgram body b fuel item w⟩, ?_⟩
  refine Protocol.Kept.attributes (fun _ _ _ => False) (Protocol.kept_ofProgram fun item => ?_)
  refine keeps_unnoted.mp ?_
  rw [hbody item]
  exact Grounds.keeps_contract (by simp) (hcourse item)

end EventMachines
